import Gauge.Script.Token
import Gauge.Script.CodePoint

/-!
Reading the tokens of a script. A text that stops making sense yields the tokens before that place
and then the error, which matters only to a reader who gets that far.
-/

namespace Gauge.Script.Lexer

/-- A position in the text and the line it is on. -/
structure Cursor where
  pos : Nat
  line : Nat

/-- What went wrong in a token: the message, and the token text it is near to. -/
structure Problem where
  line : Nat
  message : String
  near : ByteArray

def isNewline (b : UInt8) : Bool := b == 10 || b == 13

/-- The position after a line break; the two characters of a pair count as one break. -/
def afterNewline (s : ByteArray) (i : Nat) : Nat :=
  if i + 1 < s.size && isNewline (s.byte (i + 1)) && s.byte (i + 1) != s.byte i then i + 2 else i + 1

theorem le_afterNewline (s : ByteArray) (i : Nat) : i < afterNewline s i := by
  unfold afterNewline; split <;> omega

def quoted (s : ByteArray) : ByteArray := "'".toUTF8 ++ s.untilNul ++ "'".toUTF8

def endOfText : ByteArray := "<eof>".toUTF8

/-- The number of equal signs from position `i` on. -/
def equalSigns (s : ByteArray) (i : Nat) : Nat :=
  if h : i < s.size then
    if s[i] == 61 then equalSigns s (i + 1) + 1 else 0
  else 0
termination_by s.size - i

def skipLine (s : ByteArray) (i : Nat) : Nat :=
  if h : i < s.size then
    if isNewline s[i] then i else skipLine s (i + 1)
  else i
termination_by s.size - i

/-- The body of a long bracket of the given level, from position `i` on, line breaks unified. -/
def longBody (s : ByteArray) (level : Nat) (i line : Nat) (acc : ByteArray) :
    Option (ByteArray × Cursor) × Nat :=
  if h : i < s.size then
    let b := s[i]
    if b == 93 && equalSigns s (i + 1) == level && s.byte (i + 1 + level) == 93 then
      (some (acc, ⟨i + 2 + level, line⟩), line)
    else if isNewline b then
      longBody s level (afterNewline s i) (line + 1) (acc.push 10)
    else longBody s level (i + 1) line (acc.push b)
  else (none, line)
termination_by s.size - i
decreasing_by
  all_goals
    have h := le_afterNewline s i
    omega

/-- A long bracket whose opening ends just before position `i`: a line break that comes first is
left out. -/
def long (s : ByteArray) (level : Nat) (i line : Nat) (what : String) :
    Except Problem (ByteArray × Cursor) :=
  let (j, line') := if i < s.size && isNewline (s.byte i) then (afterNewline s i, line + 1) else (i, line)
  match longBody s level j line' ByteArray.empty with
  | (some r, _) => .ok r
  | (none, last) =>
    .error ⟨last, "unfinished long " ++ what ++ " (starting at line " ++ toString line ++ ")", endOfText⟩

/-- The hexadecimal digits of a code point in an escape, from position `i` on, after the first. -/
def codePointDigits (s : ByteArray) (i acc : Nat) : Except (String × Nat) (Nat × Nat) :=
  if h : i < s.size then
    if s[i].isHexDigit then
      if acc > 0x7ffffff then .error ("UTF-8 value too large", i)
      else codePointDigits s (i + 1) (acc * 16 + s[i].digitValue)
    else .ok (acc, i)
  else .ok (acc, i)
termination_by s.size - i

/-- White space after a `\z` escape. -/
def skipBlank (s : ByteArray) (i line : Nat) : Cursor :=
  if h : i < s.size then
    if isNewline s[i] then skipBlank s (afterNewline s i) (line + 1)
    else if s[i].isSpace then skipBlank s (i + 1) line
    else ⟨i, line⟩
  else ⟨i, line⟩
termination_by s.size - i
decreasing_by
  all_goals
    have h := le_afterNewline s i
    omega

/-- What an escape stands for: bytes of the string, and where reading goes on. -/
structure Escaped where
  bytes : List UInt8
  next : Cursor

/-- The escape whose backslash is at position `i`. A message quotes the string so far, the escape
up to the byte at fault, and that byte if there is one. -/
def escape (s : ByteArray) (i line : Nat) (sofar : ByteArray) : Except Problem Escaped :=
  let fault (message : String) (upto : Nat) : Except Problem Escaped :=
    .error ⟨line, message, quoted (sofar ++ s.extract i (min (upto + 1) s.size))⟩
  let plain (b : UInt8) : Except Problem Escaped := .ok ⟨[b], ⟨i + 2, line⟩⟩
  if i + 1 ≥ s.size then .ok ⟨[], ⟨i + 1, line⟩⟩
  else
    let c := s.byte (i + 1)
    match Char.ofNat c.toNat with
    | 'a' => plain 7
    | 'b' => plain 8
    | 'f' => plain 12
    | 'n' => plain 10
    | 'r' => plain 13
    | 't' => plain 9
    | 'v' => plain 11
    | '\\' => plain 92
    | '"' => plain 34
    | '\'' => plain 39
    | 'x' =>
      if !(s.byte (i + 2)).isHexDigit then fault "hexadecimal digit expected" (i + 2)
      else if !(s.byte (i + 3)).isHexDigit then fault "hexadecimal digit expected" (i + 3)
      else
        .ok ⟨[((s.byte (i + 2)).digitValue * 16 + (s.byte (i + 3)).digitValue).toUInt8], ⟨i + 4, line⟩⟩
    | 'u' =>
      if s.byte (i + 2) != 123 then fault "missing '\x7b'" (i + 2)
      else if !(s.byte (i + 3)).isHexDigit then fault "hexadecimal digit expected" (i + 3)
      else
        match codePointDigits s (i + 4) (s.byte (i + 3)).digitValue with
        | .error (message, j) => fault message j
        | .ok (n, j) =>
          if s.byte j != 125 then fault "missing '\x7d'" j
          else .ok ⟨CodePoint.encode n, ⟨j + 1, line⟩⟩
    | 'z' => .ok ⟨[], skipBlank s (i + 2) line⟩
    | _ =>
      if isNewline c then .ok ⟨[10], ⟨afterNewline s (i + 1), line + 1⟩⟩
      else if !c.isDigit then fault "invalid escape sequence" (i + 1)
      else
        let last := if !(s.byte (i + 2)).isDigit then i + 2
          else if !(s.byte (i + 3)).isDigit then i + 3 else i + 4
        let n := (Numeral.digitsFrom (s.extract (i + 1) last) 10 0 0).1
        if n > 255 then fault "decimal escape too large" last
        else .ok ⟨[n.toUInt8], ⟨last, line⟩⟩

/-- A string in quotes, from position `i` on; `fuel` bounds the steps, of which each reads a byte. -/
def short (s : ByteArray) (quote : UInt8) : Nat → Nat → Nat → ByteArray →
    Except Problem (ByteArray × Cursor)
  | 0, _, line, _ => .error ⟨line, "unfinished string", endOfText⟩
  | fuel + 1, i, line, acc =>
    if h : i < s.size then
      let b := s[i]
      if b == quote then .ok (acc, ⟨i + 1, line⟩)
      else if isNewline b then
        .error ⟨line, "unfinished string", quoted (ByteArray.singleton quote ++ acc)⟩
      else if b == 92 then
        match escape s i line (ByteArray.singleton quote ++ acc) with
        | .error e => .error e
        | .ok r => short s quote fuel r.next.pos r.next.line (r.bytes.foldl ByteArray.push acc)
      else short s quote fuel (i + 1) line (acc.push b)
    else .error ⟨line, "unfinished string", endOfText⟩

/-- Where a numeral ends: it takes in digits, points and exponents, and then one letter that touches
it. -/
def numeralEnd (s : ByteArray) (mark : UInt8) (i : Nat) : Nat :=
  if h : i < s.size then
    let b := s[i]
    if b.toLower == mark then
      let c := s.byte (i + 1)
      if i + 1 < s.size && (c == 43 || c == 45) then numeralEnd s mark (i + 2)
      else numeralEnd s mark (i + 1)
    else if b.isHexDigit || b == 46 then numeralEnd s mark (i + 1)
    else if b.isLetter || b == 95 then i + 1
    else i
  else i
termination_by s.size - i

def wordEnd (s : ByteArray) (i : Nat) : Nat :=
  if h : i < s.size then
    if s[i].isAlphanumeric || s[i] == 95 then wordEnd s (i + 1) else i
  else i
termination_by s.size - i

def symbol (s : ByteArray) (i line : Nat) : Token × Cursor :=
  let b := s.byte i
  let c := s.byte (i + 1)
  let take (m : Mark) (n : Nat) : Token × Cursor := (⟨.mark m, line, ByteArray.empty⟩, ⟨i + n, line⟩)
  match Char.ofNat b.toNat, Char.ofNat c.toNat with
  | '/', '/' => take .floorDivide 2
  | '=', '=' => take .equal 2
  | '<', '=' => take .lessEqual 2
  | '<', '<' => take .shiftLeft 2
  | '>', '=' => take .greaterEqual 2
  | '>', '>' => take .shiftRight 2
  | '~', '=' => take .notEqual 2
  | ':', ':' => take .label 2
  | '.', '.' => if s.byte (i + 2) == 46 then take .dots 3 else take .concat 2
  | _, _ => take (.byte b) 1

/-- The token that starts at position `i`, where no blank or comment stands. -/
def token (s : ByteArray) (i line : Nat) : Except Problem (Token × Cursor) :=
  let b := s.byte i
  if b.isLetter || b == 95 then
    let j := wordEnd s i
    let word := s.extract i j
    match Mark.ofWord? word with
    | some m => .ok (⟨.mark m, line, ByteArray.empty⟩, ⟨j, line⟩)
    | none => .ok (⟨.name word, line, word⟩, ⟨j, line⟩)
  else if b.isDigit || (b == 46 && (s.byte (i + 1)).isDigit) then
    let j :=
      if Numeral.isHexMark s i then numeralEnd s 112 (i + 2) else numeralEnd s 101 (i + 1)
    let text := s.extract i j
    match Numeral.read? text with
    | some n => .ok (⟨.number n, line, text⟩, ⟨j, line⟩)
    | none => .error ⟨line, "malformed number", quoted text⟩
  else if b == 34 || b == 39 then
    match short s b (s.size - i) (i + 1) line ByteArray.empty with
    | .error e => .error e
    | .ok (body, next) =>
      let quote := ByteArray.singleton b
      .ok (⟨.string body, next.line, quote ++ body ++ quote⟩, next)
  else if b == 91 then
    let level := equalSigns s (i + 1)
    if s.byte (i + 1 + level) == 91 then
      match long s level (i + 2 + level) line "string" with
      | .error e => .error e
      | .ok (body, next) =>
        let edge (x : UInt8) := ByteArray.singleton x ++ ByteArray.replicate level 61 ++ ByteArray.singleton x
        .ok (⟨.string body, next.line, edge 91 ++ body ++ edge 93⟩, next)
    else if level == 0 then .ok (symbol s i line)
    else .error ⟨line, "invalid long string delimiter", quoted (s.extract i (i + 1 + level))⟩
  else .ok (symbol s i line)

/-- The first place from position `i` on where a token starts. -/
def skipIgnored (s : ByteArray) : Nat → Nat → Nat → Except Problem Cursor
  | 0, i, line => .ok ⟨i, line⟩
  | fuel + 1, i, line =>
    let b := s.byte i
    if i ≥ s.size then .ok ⟨i, line⟩
    else if isNewline b then skipIgnored s fuel (afterNewline s i) (line + 1)
    else if b.isSpace then skipIgnored s fuel (i + 1) line
    else if b == 45 && s.byte (i + 1) == 45 then
      let level := equalSigns s (i + 3)
      if s.byte (i + 2) == 91 && s.byte (i + 3 + level) == 91 then
        match long s level (i + 4 + level) line "comment" with
        | .error e => .error e
        | .ok (_, next) => skipIgnored s fuel next.pos next.line
      else skipIgnored s fuel (skipLine s (i + 2)) line
    else .ok ⟨i, line⟩

/-- All tokens of a text, the last of them its end or an error in place of the token at fault. -/
def tokensFrom (s : ByteArray) : Nat → Nat → Nat → Array Token → Array Token × Option Problem
  | 0, _, line, acc => (acc.push ⟨.endOfText, line, ByteArray.empty⟩, none)
  | fuel + 1, i, line, acc =>
    match skipIgnored s (s.size + 1) i line with
    | .error e => (acc, some e)
    | .ok start =>
      if start.pos ≥ s.size then (acc.push ⟨.endOfText, start.line, ByteArray.empty⟩, none)
      else
        match token s start.pos start.line with
        | .error e => (acc, some e)
        | .ok (t, next) => tokensFrom s fuel next.pos next.line (acc.push t)

def tokens (s : ByteArray) : Array Token × Option Problem := tokensFrom s (s.size + 1) 0 1 #[]

end Gauge.Script.Lexer
