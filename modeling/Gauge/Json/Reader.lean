import Gauge.Numeral.Decimal
import Gauge.Json.Writer
import Gauge.Text.Quoted

/-!
Reading JSON from left to right into what is expected there. The first thing that is wrong ends the
reading, be it the text itself or its meaning; places are lines and columns, columns counted in bytes.
-/

namespace Gauge.Json

/-- What is wrong with a text. -/
inductive Complaint where
  | endInList | endInObject | endInString | endInValue
  | colonExpected | commaOrBracketExpected | commaOrBraceExpected | wordExpected | valueExpected
  | invalidEscape | invalidNumber | numberOutOfRange | controlCharacter | keyNotString
  | loneSurrogate | brokenSurrogates | trailingComma | trailingCharacters
  /-- Something of another type, or of no use as a value, than is expected. -/
  | invalidType (found expected : String)
  | invalidValue (found expected : String)
  | invalidLength (length : Nat) (expected : String)
  | unknownVariant (name : String) (known : List String)
  | missingField (name : String)
  | duplicateField (name : String)
deriving DecidableEq, Repr

structure Place where
  line : Nat
  column : Nat
deriving DecidableEq, Repr

/-- A complaint about the meaning gets its place once what it is about has been read. -/
structure Error where
  complaint : Complaint
  place : Option Place
deriving DecidableEq, Repr

def Complaint.message : Complaint → String
  | .endInList => "EOF while parsing a list"
  | .endInObject => "EOF while parsing an object"
  | .endInString => "EOF while parsing a string"
  | .endInValue => "EOF while parsing a value"
  | .colonExpected => "expected `:`"
  | .commaOrBracketExpected => "expected `,` or `]`"
  | .commaOrBraceExpected => "expected `,` or `\x7d`"
  | .wordExpected => "expected ident"
  | .valueExpected => "expected value"
  | .invalidEscape => "invalid escape"
  | .invalidNumber => "invalid number"
  | .numberOutOfRange => "number out of range"
  | .controlCharacter => "control character (\\u0000-\\u001F) found while parsing a string"
  | .keyNotString => "key must be a string"
  | .loneSurrogate => "lone leading surrogate in hex escape"
  | .brokenSurrogates => "unexpected end of hex escape"
  | .trailingComma => "trailing comma"
  | .trailingCharacters => "trailing characters"
  | .invalidType found expected => "invalid type: " ++ found ++ ", expected " ++ expected
  | .invalidValue found expected => "invalid value: " ++ found ++ ", expected " ++ expected
  | .invalidLength length expected =>
    "invalid length " ++ toString length ++ ", expected " ++ expected
  | .unknownVariant name known =>
    "unknown variant `" ++ name ++ "`, expected one of " ++
      ", ".intercalate (known.map fun k => "`" ++ k ++ "`")
  | .missingField name => "missing field `" ++ name ++ "`"
  | .duplicateField name => "duplicate field `" ++ name ++ "`"

def Error.message (e : Error) : String :=
  match e.place with
  | some p =>
    e.complaint.message ++ " at line " ++ toString p.line ++ " column " ++ toString p.column
  | none => e.complaint.message

/-- What is left of a text, and where in the text that is. -/
structure Cursor where
  rest : List Char
  place : Place

namespace Cursor

def start (s : String) : Cursor := ⟨s.toList, 1, 0⟩

def past (p : Place) (c : Char) : Place :=
  if c == '\n' then ⟨p.line + 1, 0⟩ else ⟨p.line, p.column + c.utf8Size⟩

/-- The place after the next byte. -/
def ahead (c : Cursor) : Place :=
  match c.rest with
  | [] => c.place
  | '\n' :: _ => ⟨c.place.line + 1, 0⟩
  | _ :: _ => ⟨c.place.line, c.place.column + 1⟩

/-- Moves past characters, of which `rest` are left. -/
def skip (c : Cursor) (taken rest : List Char) : Cursor := ⟨rest, taken.foldl past c.place⟩

end Cursor

/-- A reader goes as far in the text as it can, even where it fails. -/
abbrev Reader (α : Type) : Type := EStateM Error Cursor α

namespace Reader

def peek : Reader (Option Char) := return (← get).rest.head?

/-- Moves past the next character. -/
def advance : Reader Unit := modify fun c =>
  match c.rest with
  | [] => c
  | x :: rest => c.skip [x] rest

/-- Takes the characters at hand for which `p` holds. -/
def takeWhile (p : Char → Bool) : Reader (List Char) := do
  let c ← get
  let taken := c.rest.takeWhile p
  set (c.skip taken (c.rest.dropWhile p))
  return taken

/-- Fails at the place reached. -/
def failHere {α : Type} (w : Complaint) : Reader α := do throw ⟨w, some (← get).place⟩

/-- Fails at the next character. -/
def failAhead {α : Type} (w : Complaint) : Reader α := do throw ⟨w, some (← get).ahead⟩

/-- Fails for what the text means. -/
def failMeaning {α : Type} (w : Complaint) : Reader α := throw ⟨w, none⟩

/-- Gives a complaint about the meaning the place where `r` has ended. -/
def placed {α : Type} (r : Reader α) : Reader α := fun c =>
  match r c with
  | .ok a c => .ok a c
  | .error e c => .error { e with place := some (e.place.getD c.place) } c

def isSpace (c : Char) : Bool := c == ' ' || c == '\n' || c == '\t' || c == '\r'

/-- The next character that is no white space. -/
def next : Reader (Option Char) := do
  let _ ← takeWhile isSpace
  peek

/-- The character that a value begins with. -/
def nextOfValue : Reader Char := do
  match ← next with
  | some c => return c
  | none => failAhead .endInValue

/-- The rest of a word. -/
def word : List Char → Reader Unit
  | [] => pure ()
  | expected :: more => do
    match ← peek with
    | none => failHere .endInValue
    | some c =>
      if c == expected then
        advance
        word more
      else failAhead .wordExpected

/-! Strings. -/

def hexValue? (c : Char) : Option Nat :=
  if '0' ≤ c && c ≤ '9' then some (c.toNat - 48)
  else if 'a' ≤ c && c ≤ 'f' then some (c.toNat - 87)
  else if 'A' ≤ c && c ≤ 'F' then some (c.toNat - 55)
  else none

/-- The place so many bytes on. -/
def placeAfter (p : Place) : Nat → List Char → Place
  | 0, _ => p
  | _ + 1, [] => p
  | n + 1, c :: rest =>
    if c.utf8Size ≤ n + 1 then placeAfter (Cursor.past p c) (n + 1 - c.utf8Size) rest
    else ⟨p.line, p.column + (n + 1)⟩

/-- The number of an escape in four hexadecimal digits. -/
def fourDigits : Reader Nat := do
  let c ← get
  let digits := c.rest.take 4
  match digits.mapM hexValue? with
  | some [w, x, y, z] =>
    set (c.skip digits (c.rest.drop 4))
    return ((w * 16 + x) * 16 + y) * 16 + z
  | _ =>
    let bytes : Nat := c.rest.foldl (fun n x => n + x.utf8Size) 0
    if bytes < 4 then throw ⟨.endInString, some (c.rest.foldl Cursor.past c.place)⟩
    else throw ⟨.invalidEscape, some (placeAfter c.place 4 c.rest)⟩

def isLeading (n : Nat) : Bool := 0xd800 ≤ n && n ≤ 0xdbff
def isTrailing (n : Nat) : Bool := 0xdc00 ≤ n && n ≤ 0xdfff

/-- A character that has to stand between the two halves of a pair of surrogates. -/
def betweenSurrogates (expected : Char) : Reader Unit := do
  match ← peek with
  | none => failHere .endInString
  | some c => if c == expected then advance else failAhead .brokenSurrogates

/-- The character of an escape by number; one beyond U+FFFF is written as two surrogates. -/
def numberedEscape : Reader Char := do
  let n ← fourDigits
  if isTrailing n then failHere .loneSurrogate
  else if isLeading n then
    betweenSurrogates '\\'
    betweenSurrogates 'u'
    let m ← fourDigits
    if isTrailing m then return Char.ofNat ((n - 0xd800) * 0x400 + (m - 0xdc00) + 0x10000)
    else failHere .loneSurrogate
  else return Char.ofNat n

/-- The characters that an escape by a letter stands for. -/
def letterEscape? (c : Char) : Option Char :=
  match c with
  | '"' => some '"'
  | '\\' => some '\\'
  | '/' => some '/'
  | 'b' => some '\x08'
  | 'f' => some '\x0c'
  | 'n' => some '\n'
  | 'r' => some '\r'
  | 't' => some '\t'
  | _ => none

/-- What follows a backslash. -/
def escaped (numbered : Reader Char) : Reader Char := do
  match ← peek with
  | none => failHere .endInString
  | some 'u' =>
    advance
    numbered
  | some c =>
    match letterEscape? c with
    | some x =>
      advance
      return x
    | none => failAhead .invalidEscape

/-- Whether a character stands for itself in a string. -/
def isPlain (c : Char) : Bool := c != '"' && c != '\\' && 32 ≤ c.toNat

/-- The rest of a string, its closing quote included. The place of a control character is behind it,
but for a string that is skipped, where it is before it. -/
def stringFrom (numbered : Reader Char) (isSkipped : Bool) : Nat → List Char → Reader String
  | 0, _ => failHere .endInString
  | fuel + 1, acc => do
    let acc := acc ++ (← takeWhile isPlain)
    match ← peek with
    | none => failHere .endInString
    | some '"' =>
      advance
      return String.ofList acc
    | some '\\' =>
      advance
      let c ← escaped numbered
      stringFrom numbered isSkipped fuel (acc ++ [c])
    | some _ => if isSkipped then failHere .controlCharacter else failAhead .controlCharacter

/-- The rest of a string after its opening quote. -/
def stringBody : Reader String := do stringFrom numberedEscape false ((← get).rest.length + 1) []

/-! Numbers. -/

/-- The number a text stands for: whole if it is written as such and fits in 64 bits. -/
inductive Number where
  | natural (n : Nat)
  /-- The number `-n`, for a positive `n`. -/
  | negative (n : Nat)
  | real (x : Float)

def maxNatural : Nat := 2 ^ 64 - 1

/-- Adds digits to a significand as long as it fits in 64 bits; also how many were added. -/
def accumulate (acc used : Nat) : List Char → Nat × Nat
  | [] => (acc, used)
  | c :: rest =>
    let n := acc * 10 + (c.toNat - 48)
    if n ≤ maxNatural then accumulate n (used + 1) rest else (acc, used)

/-- The largest power of ten that is scaled by in one step. -/
def maxPower : Nat := 308

def powerOfTen (n : Nat) : Float := Decimal.toFloat false ⟨1, n⟩

/-- Divides by powers of ten, the last of them `10 ^ n` with `n ≤ 308`. -/
def scaleDown : Nat → Float → Nat → Float
  | 0, x, _ => x
  | fuel + 1, x, n =>
    if n ≤ maxPower then x / powerOfTen n
    else if x == 0 then x
    else scaleDown fuel (x / powerOfTen maxPower) (n - maxPower)

/-- The double of a significand and a power of ten: the significand is rounded, and then its product
or its quotient with the power, which is not always the nearest double. -/
def assemble (negative : Bool) (significand : Nat) (exponent : Int) : Reader Float := do
  let x := significand.toUInt64.toFloat
  let scaled ←
    if exponent < 0 then pure (scaleDown 4 x (-exponent).toNat)
    else if exponent ≤ maxPower then do
      let y := x * powerOfTen exponent.toNat
      if y.isInf then failHere .numberOutOfRange else pure y
    else if x == 0 then pure x
    else failHere .numberOutOfRange
  return if negative then -scaled else scaled

/-- The largest exponent that is told from a larger one. -/
def maxExponent : Nat := 2 ^ 31 - 1

/-- How many digits of an exponent are read before it is too large. -/
def exponentDigits (acc : Nat) : List Char → Nat × Nat × Bool
  | [] => (acc, 0, true)
  | c :: rest =>
    let n := acc * 10 + (c.toNat - 48)
    if n ≤ maxExponent then
      let (value, used, whole) := exponentDigits n rest
      (value, used + 1, whole)
    else (acc, 1, false)

/-- Whether an exponent is negative. -/
def exponentSign : Reader Bool := do
  match ← peek with
  | some '+' => do
    advance
    return false
  | some '-' => do
    advance
    return true
  | _ => return false

/-- The exponent after its mark, and what it makes of the number. -/
def exponentPart (negative : Bool) (significand : Nat) (start : Int) : Reader Float := do
  advance
  let isNegative ← exponentSign
  match ← peek with
  | none => failHere .endInValue
  | some c =>
    if !c.isDigit then failAhead .invalidNumber
    else
      let before ← get
      let digits ← takeWhile Char.isDigit
      let (value, used, whole) := exponentDigits 0 digits
      if whole then
        assemble negative significand (if isNegative then start - value else start + value)
      else if significand != 0 && !isNegative then
        throw ⟨.numberOutOfRange, some ((digits.take used).foldl Cursor.past before.place)⟩
      else return if negative then -0.0 else 0.0

/-- The digits after the point, and what they make of the number. -/
def fractionPart (negative : Bool) (significand : Nat) (start : Int) : Reader Float := do
  advance
  let digits ← takeWhile Char.isDigit
  if digits.isEmpty then
    match ← peek with
    | some _ => failAhead .invalidNumber
    | none => failAhead .endInValue
  else
    let (significand, used) := accumulate significand 0 digits
    let exponent := start - used
    match ← peek with
    | some 'e' | some 'E' => exponentPart negative significand exponent
    | _ => assemble negative significand exponent

/-- The digits before the point, of which a zero stands alone. -/
def wholePart (first : Char) : Reader (List Char) :=
  if first == '0' then do
    advance
    return ['0']
  else takeWhile Char.isDigit

/-- What follows the digits before the point, and what it makes of the number. -/
def afterWhole (negative : Bool) (first : Char) (digits : List Char) : Reader Number := do
  let (significand, used) := accumulate 0 0 digits
  let dropped := digits.length - used
  match ← peek with
  | some '.' => return .real (← fractionPart negative significand dropped)
  | some 'e' | some 'E' => return .real (← exponentPart negative significand dropped)
  | following =>
    if first == '0' && (following.map Char.isDigit).getD false then failAhead .invalidNumber
    else if dropped > 0 then return .real (← assemble negative significand dropped)
    else if !negative then return .natural significand
    else if significand == 0 || significand > 2 ^ 63 then
      return .real (-significand.toUInt64.toFloat)
    else return .negative significand

/-- The number after its sign. -/
def number (negative : Bool) : Reader Number := do
  match ← peek with
  | none => failHere .endInValue
  | some first =>
    if !first.isDigit then failAhead .invalidNumber
    else afterWhole negative first (← wholePart first)

def Number.describe : Number → String
  | .natural n => "integer `" ++ toString n ++ "`"
  | .negative n => "integer `-" ++ toString n ++ "`"
  | .real x => "floating point `" ++ Json.number x ++ "`"

/-- Reads what stands in place of what is expected, as far as that is needed to say what it is. -/
def mismatch {α : Type} (expected : String) : Reader α := placed do
  let invalid (found : String) : Reader α := failMeaning (.invalidType found expected)
  match ← peek with
  | some 'n' =>
    advance
    word ['u', 'l', 'l']
    invalid "null"
  | some 't' =>
    advance
    word ['r', 'u', 'e']
    invalid "boolean `true`"
  | some 'f' =>
    advance
    word ['a', 'l', 's', 'e']
    invalid "boolean `false`"
  | some '-' =>
    advance
    invalid (← number true).describe
  | some '"' =>
    advance
    invalid ("string " ++ Text.Quoted.encode (← stringBody))
  | some '[' => invalid "sequence"
  | some '\x7b' => invalid "map"
  | some c =>
    if c.isDigit then invalid (← number false).describe else failAhead .valueExpected
  | none => failAhead .valueExpected

/-! Values of a type. -/

def string (expected : String) : Reader String := placed do
  match ← nextOfValue with
  | '"' =>
    advance
    stringBody
  | _ => mismatch expected

/-- A number, out of which `accept` makes a value. -/
def numeric {α : Type} (expected : String) (accept : Number → Except Complaint α) : Reader α :=
  placed do
    let c ← nextOfValue
    if c == '-' || c.isDigit then
      if c == '-' then advance
      match accept (← number (c == '-')) with
      | .ok a => return a
      | .error w => failMeaning w
    else mismatch expected

def float : Reader Float := numeric "f64" fun
  | .natural n => .ok n.toUInt64.toFloat
  | .negative n => .ok (-n.toUInt64.toFloat)
  | .real x => .ok x

/-- A whole number of 64 bits with a sign. -/
def int64 : Reader Int64 := numeric "i64" fun
  | .natural n =>
    if n < 2 ^ 63 then .ok (Int64.ofNat n)
    else .error (.invalidValue (Number.natural n).describe "i64")
  | .negative n => .ok (Int64.ofInt (-(n : Int)))
  | .real x => .error (.invalidType (Number.real x).describe "i64")

/-- The end of a list. -/
def closeList : Reader Unit := do
  match ← next with
  | some ']' => advance
  | some ',' =>
    advance
    match ← next with
    | some ']' => failAhead .trailingComma
    | _ => failAhead .trailingCharacters
  | some _ => failAhead .trailingCharacters
  | none => failAhead .endInList

def closeObject : Reader Unit := do
  match ← next with
  | some '\x7d' => advance
  | some ',' => failAhead .trailingComma
  | some _ => failAhead .trailingCharacters
  | none => failAhead .endInObject

/-- What is between brackets. They are closed even if it fails, which moves the place of a complaint
about the meaning. -/
def enclosed {α : Type} (body : Reader α) (close : Reader Unit) : Reader α := fun c =>
  match body c with
  | .ok a c =>
    match close c with
    | .ok _ c => .ok a c
    | .error e c => .error e c
  | .error e c =>
    match close c with
    | .ok _ c => .error e c
    | .error _ c => .error e c

/-- Whether a list goes on with another item. -/
def hasItem (first : Bool) : Reader Bool := do
  match ← next with
  | none => failAhead .endInList
  | some ']' => return false
  | some c =>
    if first then return true
    else if c == ',' then
      advance
      match ← next with
      | some ']' => failAhead .trailingComma
      | some _ => return true
      | none => failAhead .endInValue
    else failAhead .commaOrBracketExpected

def itemsFrom {α : Type} (item : Reader α) : Nat → Bool → List α → Reader (List α)
  | 0, _, acc => return acc.reverse
  | fuel + 1, first, acc => do
    if ← hasItem first then
      let a ← item
      itemsFrom item fuel false (a :: acc)
    else return acc.reverse

def list {α : Type} (item : Reader α) : Reader (List α) := placed do
  match ← nextOfValue with
  | '[' =>
    advance
    enclosed (do itemsFrom item ((← get).rest.length + 1) true []) closeList
  | _ => mismatch "a sequence"

/-- Whether an object goes on with another key, which is then next. -/
def hasKey (first : Bool) : Reader Bool := do
  let key (c : Option Char) : Reader Bool :=
    match c with
    | some '"' => return true
    | some '\x7d' => failAhead .trailingComma
    | some _ => failAhead .keyNotString
    | none => failAhead .endInValue
  match ← next with
  | none => failAhead .endInObject
  | some '\x7d' => return false
  | some c =>
    if first then key (some c)
    else if c == ',' then
      advance
      key (← next)
    else failAhead .commaOrBraceExpected

def colon : Reader Unit := do
  match ← next with
  | some ':' => advance
  | some _ => failAhead .colonExpected
  | none => failAhead .endInObject

/-! Values that are skipped. -/

/-- An escape by number whose meaning does not matter. -/
def skippedEscape : Reader Char := do
  let _ ← fourDigits
  return ' '

def skipString : Reader Unit := do
  let _ ← stringFrom skippedEscape true ((← get).rest.length + 1) []

def skipExponent : Reader Unit := do
  advance
  match ← peek with
  | some '+' | some '-' => advance
  | _ => pure ()
  match ← peek with
  | none => failHere .invalidNumber
  | some c =>
    if c.isDigit then
      let _ ← takeWhile Char.isDigit
    else failAhead .invalidNumber

def skipNumber : Reader Unit := do
  match ← peek with
  | none => failHere .invalidNumber
  | some first =>
    if !first.isDigit then failAhead .invalidNumber
    else
      if first == '0' then
        advance
        if ((← peek).map Char.isDigit).getD false then failAhead .invalidNumber
      else
        let _ ← takeWhile Char.isDigit
      match ← peek with
      | some '.' =>
        advance
        let digits ← takeWhile Char.isDigit
        if digits.isEmpty then failAhead .invalidNumber
        match ← peek with
        | some 'e' | some 'E' => skipExponent
        | _ => pure ()
      | some 'e' | some 'E' => skipExponent
      | _ => pure ()

/-- A key of an object that is skipped, with its colon. -/
def skipKey : Reader Unit := do
  match ← next with
  | some '"' => advance
  | some _ => failAhead .keyNotString
  | none => failAhead .endInObject
  skipString
  match ← next with
  | some ':' => advance
  | some _ => failAhead .colonExpected
  | none => failAhead .endInObject

/-- Closes what is open, the innermost first, as far as the text does; then `true` if a value follows.
`afterValue` says that a value has just been read. -/
def skipClosing : Nat → Bool → List Bool → Reader (List Bool × Bool)
  | 0, _, frames => return (frames, false)
  | _, _, [] => return ([], false)
  | fuel + 1, afterValue, isList :: outer => do
    match ← next with
    | none => failAhead (if isList then .endInList else .endInObject)
    | some c =>
      if c == ',' && afterValue then
        advance
        return (isList :: outer, true)
      else if c == (if isList then ']' else '\x7d') then
        advance
        skipClosing fuel true outer
      else if afterValue then
        failAhead (if isList then .commaOrBracketExpected else .commaOrBraceExpected)
      else return (isList :: outer, true)

/-- Skips a value; `frames` are the lists and objects it is in, lists marked by `true`. -/
def skipFrom : Nat → List Bool → Reader Unit
  | 0, _ => pure ()
  | fuel + 1, frames => do
    let scalar : Reader (Option Bool) := return none
    let opened : Option Bool ← match ← nextOfValue with
      | 'n' => do
        advance
        word ['u', 'l', 'l']
        scalar
      | 't' => do
        advance
        word ['r', 'u', 'e']
        scalar
      | 'f' => do
        advance
        word ['a', 'l', 's', 'e']
        scalar
      | '-' => do
        advance
        skipNumber
        scalar
      | '"' => do
        advance
        skipString
        scalar
      | '[' => do
        advance
        pure (some true)
      | '\x7b' => do
        advance
        pure (some false)
      | c => do
        if c.isDigit then skipNumber else failAhead .valueExpected
        scalar
    let size := (← get).rest.length + 1
    let (frames, more) ← match opened with
      | some isList => skipClosing size false (isList :: frames)
      | none => skipClosing size true frames
    if more then
      match frames with
      | false :: _ => skipKey
      | _ => pure ()
      skipFrom fuel frames

def skip : Reader Unit := do skipFrom ((← get).rest.length + 1) []

/-! Records. -/

/-- A field of a record: whether it has been read, how it is read, and what it is if it is missing. -/
structure Field (σ : Type) where
  name : String
  isKnown : σ → Bool
  read : σ → Reader σ
  default : Option (σ → σ)

/-- A record is an object with its fields, or the list of them in their order. `blank` is one of which
nothing has been read. -/
structure Shape (σ : Type) where
  name : String
  blank : σ
  fields : List (Field σ)

namespace Shape

variable {σ : Type}

def expected (s : Shape σ) : String := "struct " ++ s.name

def expectedItems (s : Shape σ) : String :=
  s.expected ++ " with " ++ toString s.fields.length ++ " elements"

/-- The fields from the one at position `i` on, as items of a list. -/
def items (s : Shape σ) : Nat → List (Field σ) → σ → Reader σ
  | _, [], acc => return acc
  | i, f :: rest, acc => do
    if ← hasItem (i == 0) then items s (i + 1) rest (← f.read acc)
    else
      match f.default with
      | some d => items s (i + 1) rest (d acc)
      | none => failMeaning (.invalidLength i s.expectedItems)

/-- The members of an object. Those that are no fields are skipped. -/
def members (s : Shape σ) : Nat → Bool → σ → Reader σ
  | 0, _, acc => return acc
  | fuel + 1, first, acc => do
    if ← hasKey first then
      advance
      let name ← stringBody
      match s.fields.find? (·.name == name) with
      | some f =>
        if f.isKnown acc then failMeaning (.duplicateField name)
        else
          colon
          members s fuel false (← f.read acc)
      | none =>
        colon
        skip
        members s fuel false acc
    else return acc

/-- Fills in what is missing. -/
def complete : List (Field σ) → σ → Reader σ
  | [], acc => return acc
  | f :: rest, acc =>
    if f.isKnown acc then complete rest acc
    else
      match f.default with
      | some d => complete rest (d acc)
      | none => failMeaning (.missingField f.name)

def read (s : Shape σ) : Reader σ := placed do
  match ← nextOfValue with
  | '[' =>
    advance
    enclosed (s.items 0 s.fields s.blank) closeList
  | '\x7b' =>
    advance
    enclosed (do complete s.fields (← s.members ((← get).rest.length + 1) true s.blank)) closeObject
  | _ => mismatch s.expected

end Shape

/-- One of some names, which may also be the only key of an object whose value is null. -/
def variant (known : List String) : Reader String := do
  let name : Reader String := placed do
    match ← nextOfValue with
    | '"' =>
      advance
      let s ← stringBody
      if known.contains s then return s else failMeaning (.unknownVariant s known)
    | _ => mismatch "variant identifier"
  match ← next with
  | some '\x7b' =>
    advance
    let s ← name
    colon
    placed do
      match ← nextOfValue with
      | 'n' =>
        advance
        word ['u', 'l', 'l']
      | _ => mismatch "unit"
    match ← next with
    | some '\x7d' =>
      advance
      return s
    | some _ => failHere .valueExpected
    | none => failHere .endInObject
  | some '"' => name
  | some _ => failAhead .valueExpected
  | none => failAhead .endInValue

/-- The value that a whole text stands for. -/
def whole {α : Type} (r : Reader α) (s : String) : Except Error α :=
  match r (Cursor.start s) with
  | .error e _ => .error e
  | .ok a c =>
    match next c with
    | .ok none _ => .ok a
    | .ok (some _) c => .error ⟨.trailingCharacters, some c.ahead⟩
    | .error e _ => .error e

end Reader

end Gauge.Json
