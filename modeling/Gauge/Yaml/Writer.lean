import Gauge.Yaml.Plain
import Gauge.Yaml.Token.Cursor

/-!
Writing YAML, in blocks. Text is written as it is where that reads as the same text; else between
quotes, with escapes as the last resort. Text of several lines is written line by line.
-/

namespace Gauge.Yaml.Writer

/-- By how many columns things are indented. -/
def indentation : Nat := 2

def spaces (n : Nat) : List Char := List.replicate n ' '

/-- Characters that are written without an escape. -/
def isPrintable (c : Char) : Bool :=
  let n := c.toNat
  n == 10 || (0x20 ≤ n && n ≤ 0x7e) || (0xa0 ≤ n && n ≤ 0xd7ff) ||
    (0xe000 ≤ n && n ≤ 0xfffd && n != 0xfeff) || 0x10000 ≤ n

/-- Characters that mean something at the beginning of a text. -/
def isLeadingIndicator (c : Char) : Bool := "#,[]\x7b\x7d&*!|>'\"%@`".toList.contains c

/-- Whether a character of a text means something, given what is before and after it. -/
def isIndicator (before : Option Char) (c : Char) (after : Option Char) : Bool :=
  match before with
  | none => isLeadingIndicator c || ((c == '?' || c == ':' || c == '-') && Cursor.isEnd after)
  | some b => (c == ':' && Cursor.isEnd after) || (c == '#' && Cursor.isEnd (some b))

/-- Whether there is an indicator in a text that follows the character `before`. -/
def hasIndicator (before : Option Char) : List Char → Bool
  | [] => false
  | c :: rest => isIndicator before c rest.head? || hasIndicator (some c) rest

/-- Whether some neighbours in a text are such as `p` says. -/
def hasNeighbours (p : Char → Char → Bool) : List Char → Bool
  | a :: b :: rest => p a b || hasNeighbours p (b :: rest)
  | _ => false

def beginsDocument (s : List Char) : Bool :=
  s.take 3 == ['-', '-', '-'] || s.take 3 == ['.', '.', '.']

/-- A space before a line break. -/
def hasSpaceBeforeBreak (s : List Char) : Bool :=
  hasNeighbours (fun a b => a == ' ' && Cursor.isBreak b) s

/-- A space after a line break. -/
def hasSpaceAfterBreak (s : List Char) : Bool :=
  hasNeighbours (fun a b => Cursor.isBreak a && b == ' ') s

def isSpaceOrBreak (c : Char) : Bool := c == ' ' || Cursor.isBreak c

def isPlainAllowed (s : List Char) : Bool :=
  s.all isPrintable && !s.any Cursor.isBreak && !s.head?.any isSpaceOrBreak &&
    !s.getLast?.any isSpaceOrBreak && !beginsDocument s && !hasIndicator none s

def isSingleQuotedAllowed (s : List Char) : Bool :=
  s.all isPrintable && !hasSpaceBeforeBreak s && !hasSpaceAfterBreak s

def isLiteralAllowed (s : List Char) : Bool :=
  s.all isPrintable && !hasSpaceBeforeBreak s && !(s.getLast? == some ' ')

/-- Text that would mean something else if it were written as it is, or could be taken to. -/
def isAmbiguous (s : String) : Bool :=
  match Plain.meaning s with
  | .text => Plain.hasNeedlessZero (Plain.unsigned s)
  | _ => true

/-- The line breaks inside of single quotes are followed by indentation, the others by none. -/
def singleQuotedFrom (indent : Nat) (isAfterBreak : Bool) : List Char → List Char
  | [] => if isAfterBreak then spaces indent else []
  | c :: rest =>
    if Cursor.isBreak c then c :: singleQuotedFrom indent true rest
    else
      (if isAfterBreak then spaces indent else []) ++
        (if c == '\'' then ['\'', '\''] else [c]) ++ singleQuotedFrom indent false rest

def singleQuoted (indent : Nat) (s : List Char) : List Char :=
  '\'' :: singleQuotedFrom indent false s ++ ['\'']

def hexDigit (n : Nat) : Char := if n < 10 then Char.ofNat (48 + n) else Char.ofNat (55 + n)

/-- The last `width` digits of a number in base sixteen. -/
def hexDigits : Nat → Nat → List Char
  | 0, _ => []
  | width + 1, n => hexDigits width (n / 16) ++ [hexDigit (n % 16)]

def numberedEscape (n : Nat) : List Char :=
  if n ≤ 0xff then 'x' :: hexDigits 2 n
  else if n ≤ 0xffff then 'u' :: hexDigits 4 n
  else 'U' :: hexDigits 8 n

/-- What follows the backslash of an escape. -/
def escape (c : Char) : List Char :=
  match c with
  | '\x00' => ['0']
  | '\x07' => ['a']
  | '\x08' => ['b']
  | '\t' => ['t']
  | '\n' => ['n']
  | '\x0b' => ['v']
  | '\x0c' => ['f']
  | '\r' => ['r']
  | '\x1b' => ['e']
  | '"' => ['"']
  | '\\' => ['\\']
  | '\x85' => ['N']
  | '\u2028' => ['L']
  | '\u2029' => ['P']
  | c => numberedEscape c.toNat

def doubleQuotedCharacter (c : Char) : List Char :=
  if !isPrintable c || Cursor.isBreak c || c == '"' || c == '\\' then '\\' :: escape c else [c]

def doubleQuoted (s : List Char) : List Char := '"' :: s.flatMap doubleQuotedCharacter ++ ['"']

/-- The lines of a text, each indented if it is not empty, and a last line break if there is none. -/
def literalLines (indent : Nat) (isAtStart : Bool) : List Char → List Char
  | [] => if isAtStart then [] else ['\n']
  | c :: rest =>
    if Cursor.isBreak c then c :: literalLines indent true rest
    else (if isAtStart then spaces indent else []) ++ c :: literalLines indent false rest

/-- What is said of a literal: its indentation if that cannot be told from its first line, and what
becomes of the line breaks at its end. -/
def literalHeader (s : List Char) : List Char :=
  (if s.head?.any isSpaceOrBreak then ['2'] else []) ++
    match s.reverse with
    | last :: before =>
      if !Cursor.isBreak last then ['-']
      else if before.head?.all Cursor.isBreak then ['+']
      else []
    | [] => ['-']

def literal (indent : Nat) (s : List Char) : List Char :=
  '|' :: literalHeader s ++ '\n' :: literalLines indent true s

/-- Text on one line, except for single quotes around breaks that are no line feeds. -/
def inlineText (indent : Nat) (s : String) : List Char :=
  let cs := s.toList
  if !cs.contains '\n' && !isAmbiguous s && isPlainAllowed cs then cs
  else if !cs.contains '\n' && isSingleQuotedAllowed cs then singleQuoted indent cs
  else doubleQuoted cs

/-- A text and the end of its last line. -/
def text (indent : Nat) (s : String) : List Char :=
  if s.toList.contains '\n' && isLiteralAllowed s.toList then literal indent s.toList
  else inlineText indent s ++ ['\n']

/-- The longest key, in bytes, that is written without a mark of its own. -/
def longestKey : Nat := 128

/-- A key with its colon, up to where its value begins. -/
def key (indent : Nat) (s : String) : List Char :=
  if s.toList.any Cursor.isBreak || longestKey < s.utf8ByteSize then
    spaces indent ++ ['?', ' '] ++ text (indent + indentation) s ++ spaces indent ++ [':']
  else spaces indent ++ inlineText (indent + indentation) s ++ [':']

/-- A key with a value that needs no quotes. -/
def wordEntry (indent : Nat) (k word : String) : List Char :=
  key indent k ++ ' ' :: word.toList ++ ['\n']

def textEntry (indent : Nat) (k s : String) : List Char :=
  key indent k ++ ' ' :: text (indent + indentation) s

/-- A key with a list of texts, which are indented as the key is. -/
def listEntry (indent : Nat) (k : String) (items : List String) : List Char :=
  if items.isEmpty then wordEntry indent k "[]"
  else
    key indent k ++ '\n' ::
      items.flatMap fun s => spaces indent ++ ['-', ' '] ++ text (indent + indentation) s

/-- A key with a mapping, given its entries as they are written one step further in. -/
def mappingEntry (indent : Nat) (k : String) (entries : List Char) : List Char :=
  if entries.isEmpty then wordEntry indent k "\x7b\x7d" else key indent k ++ '\n' :: entries

/-- The shortest digits that read back; below 10 ^ -5 and from 10 ^ 16 on with an exponent. -/
def numberStyle : NumeralStyle := ⟨some (-5), some 16, true, false, .even, ".nan", ".inf", "-.inf"⟩

def number (x : Float) : String := numberStyle.write x

end Gauge.Yaml.Writer
