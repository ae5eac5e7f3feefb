import Gauge.Yaml.Mark

/-!
Going through a text character by character. A line break counts as one however it is written, and is
read as a line feed, the two breaks of Unicode apart, which stay themselves.
-/

namespace Gauge.Yaml

/-- What is left of a text, and the place reached. -/
structure Cursor where
  rest : List Char
  mark : Mark

namespace Cursor

def isBreak (c : Char) : Bool :=
  c == '\n' || c == '\r' || c == '\x85' || c == '\u2028' || c == '\u2029'

def isBlank (c : Char) : Bool := c == ' ' || c == '\t'

/-- The letters of names. -/
def isWord (c : Char) : Bool := c.isAlphanum || c == '_' || c == '-'

/-- Whether a token may end before what comes next. -/
def isEnd (next : Option Char) : Bool := next.all fun c => isBlank c || isBreak c

/-- Whether a line ends before what comes next. -/
def isLineEnd (next : Option Char) : Bool := next.all isBreak

def start (s : List Char) : Cursor := ⟨s, .start⟩

def next (c : Cursor) : Option Char := c.rest.head?

/-- The character after the next. -/
def second (c : Cursor) : Option Char := c.rest[1]?

/-- Moves past characters of one line. -/
def skip (c : Cursor) (n : Nat) : Cursor :=
  ⟨c.rest.drop n, ⟨c.mark.index + n, c.mark.line, c.mark.column + n⟩⟩

/-- A line break at hand, as it is read, and the cursor behind it. -/
def takeBreak (c : Cursor) : List Char × Cursor :=
  let behind (n : Nat) (rest : List Char) : Cursor := ⟨rest, ⟨c.mark.index + n, c.mark.line + 1, 0⟩⟩
  match c.rest with
  | '\r' :: '\n' :: rest => (['\n'], behind 2 rest)
  | '\r' :: rest | '\n' :: rest | '\x85' :: rest => (['\n'], behind 1 rest)
  | '\u2028' :: rest => (['\u2028'], behind 1 rest)
  | '\u2029' :: rest => (['\u2029'], behind 1 rest)
  | _ => ([], c)

/-- Whether a line stands here that begins or ends a document. -/
def isAtDocument (c : Cursor) : Bool :=
  c.mark.column == 0 && isEnd c.rest[3]? &&
    (c.rest.take 3 == ['-', '-', '-'] || c.rest.take 3 == ['.', '.', '.'])

end Cursor

/-- Reading that may fail at the place it has come to. -/
abbrev Scan (α : Type) : Type := EStateM Malformed Cursor α

namespace Scan

def next : Scan (Option Char) := return (← get).next

def mark : Scan Mark := return (← get).mark

def skip (n : Nat) : Scan Unit := modify (·.skip n)

/-- Takes the characters of this line at hand for which `p` holds. -/
def takeWhile (p : Char → Bool) : Scan (List Char) := do
  let taken := (← get).rest.takeWhile p
  skip taken.length
  return taken

def skipWhile (p : Char → Bool) : Scan Unit := do
  let _ ← takeWhile p

def lineBreak : Scan (List Char) := do
  let (text, c) := (← get).takeBreak
  set c
  return text

/-- Fails here, in the course of something that began at `since`. -/
def fail {α : Type} (activity : Activity) (since : Mark) (problem : Problem) : Scan α := do
  throw ⟨problem, .mark (← mark), some (activity, since)⟩

/-- Fails here by what has come before. -/
def failHere {α : Type} (problem : Problem) : Scan α := do throw ⟨problem, .mark (← mark), none⟩

/-- How many steps are enough to come to the end. -/
def size : Scan Nat := return (← get).rest.length + 1

/-- The rest of a line that holds nothing but a comment. -/
def endOfLine (activity : Activity) (since : Mark) : Scan Unit := do
  skipWhile Cursor.isBlank
  if (← next) == some '#' then skipWhile fun c => !Cursor.isBreak c
  if Cursor.isLineEnd (← next) then
    let _ ← lineBreak
  else fail activity since .lineEndExpected

end Scan

end Gauge.Yaml
