import Gauge.Yaml.Token
import Gauge.Yaml.Token.Cursor

/-!
Reading the text of scalars. White space inside a scalar that goes over several lines is folded: one
line break becomes a space, and of more than one the first is dropped.
-/

namespace Gauge.Yaml.Scan

open Cursor

/-- White space inside a scalar: the blanks before its first line break, that break, and the breaks
after it. -/
structure Gap where
  blanks : List Char
  isBroken : Bool
  first : List Char
  others : List Char

namespace Gap

def none : Gap := ⟨[], false, [], []⟩

/-- The white space behind a line break that is escaped. -/
def escaped : Gap := ⟨[], true, [], []⟩

/-- The text a gap is folded to. -/
def text (g : Gap) : List Char :=
  if !g.isBroken then g.blanks
  else if g.first == ['\n'] then (if g.others.isEmpty then [' '] else g.others)
  else g.first ++ g.others

end Gap

/-- Goes through white space. Behind a line break, no tab may stand before the column `indent`. -/
def gapFrom (indent : Nat) (since : Mark) : Nat → Gap → Scan Gap
  | 0, g => return g
  | fuel + 1, g => do
    match ← next with
    | some c =>
      if isBreak c then
        let b ← lineBreak
        gapFrom indent since fuel
          (if g.isBroken then { g with others := g.others ++ b } else ⟨[], true, b, []⟩)
      else if isBlank c then
        if g.isBroken && c == '\t' && (← mark).column < indent then
          fail .plainScalar since .tabBeforeIndentation
        else
          skip 1
          gapFrom indent since fuel
            (if g.isBroken then g else { g with blanks := g.blanks ++ [c] })
      else return g
    | _ => return g

def gap (indent : Nat) (since : Mark) (g : Gap) : Scan Gap := do gapFrom indent since (← size) g

/-! Plain scalars. -/

def isFlowIndicator (c : Char) : Bool :=
  c == ',' || c == '[' || c == ']' || c == '\x7b' || c == '\x7d'

/-- Whether a colon cannot stand before this character inside of a flow collection. -/
def isColonBreaker (c : Char) : Bool := isFlowIndicator c || c == '?'

/-- Whether the character `c` before `following` is not part of a plain scalar. -/
def endsPlain (inFlow : Bool) (c : Char) (following : Option Char) : Bool :=
  isBlank c || isBreak c || (c == ':' && isEnd following) ||
    (inFlow && (isFlowIndicator c || (c == ':' && following.any isColonBreaker)))

/-- The part of a plain scalar without white space that a text begins with. -/
def plainRun (inFlow : Bool) : List Char → List Char
  | [] => []
  | c :: rest => if endsPlain inFlow c rest.head? then [] else c :: plainRun inFlow rest

/-- The rest of a plain scalar behind the white space `g`, and whether it ended at a line break. -/
def plainFrom (inFlow : Bool) (indent : Nat) (since : Mark) : Nat → Gap → Scan (List Char × Bool)
  | 0, g => return ([], g.isBroken)
  | fuel + 1, g => do
    let c ← get
    if c.isAtDocument || c.next == some '#' then return ([], g.isBroken)
    else
      let run := plainRun inFlow c.rest
      skip run.length
      let c ← get
      if inFlow && c.next == some ':' && c.second.any isColonBreaker then
        fail .plainScalar since .colonInside
      else if run.isEmpty then return ([], g.isBroken)
      else if c.next.isNone || !isEnd c.next then return (g.text ++ run, false)
      else
        let inner ← gap indent since .none
        if !inFlow && (← mark).column < indent then return (g.text ++ run, inner.isBroken)
        else
          let (more, isBroken) ← plainFrom inFlow indent since fuel inner
          return (g.text ++ run ++ more, isBroken)

/-- A plain scalar whose lines are indented to the column `indent`. -/
def plain (inFlow : Bool) (indent : Nat) : Scan (List Char × Bool) := do
  plainFrom inFlow indent (← mark) (← size) .none

/-! Quoted scalars. -/

def hexValue? (c : Char) : Option Nat :=
  if '0' ≤ c && c ≤ '9' then some (c.toNat - '0'.toNat)
  else if 'a' ≤ c && c ≤ 'f' then some (c.toNat - 'a'.toNat + 10)
  else if 'A' ≤ c && c ≤ 'F' then some (c.toNat - 'A'.toNat + 10)
  else none

/-- What a backslash and one more character stand for. -/
def letterEscape? (c : Char) : Option Char :=
  match c with
  | '0' => some '\x00'
  | 'a' => some '\x07'
  | 'b' => some '\x08'
  | 't' | '\t' => some '\t'
  | 'n' => some '\n'
  | 'v' => some '\x0b'
  | 'f' => some '\x0c'
  | 'r' => some '\r'
  | 'e' => some '\x1b'
  | ' ' => some ' '
  | '"' => some '"'
  | '/' => some '/'
  | '\\' => some '\\'
  | 'N' => some '\x85'
  | '_' => some '\xa0'
  | 'L' => some '\u2028'
  | 'P' => some '\u2029'
  | _ => none

/-- How many digits follow an escape by number. -/
def digitCount? (c : Char) : Option Nat :=
  match c with
  | 'x' => some 2
  | 'u' => some 4
  | 'U' => some 8
  | _ => none

/-- The character of an escape, from its backslash on. -/
def escape (since : Mark) : Scan Char := do
  let c ← get
  match c.second.bind letterEscape? with
  | some x =>
    skip 2
    return x
  | none =>
    match c.second.bind digitCount? with
    | none => fail .quotedEscape since .escapeUnknown
    | some count =>
      skip 2
      let digits := ((← get).rest.take count).filterMap hexValue?
      if digits.length < count then fail .quotedEscape since .hexExpected
      else
        let n := digits.foldl (fun n d => n * 16 + d) 0
        if n.isValidChar then
          skip count
          return Char.ofNat n
        else fail .quotedEscape since .escapeNoCharacter

/-- A part of a quoted scalar without white space, and whether an escaped line break has ended it. -/
def quotedRun (single : Bool) (since : Mark) : Nat → Scan (List Char × Bool)
  | 0 => return ([], false)
  | fuel + 1 => do
    let onward (x : Char) : Scan (List Char × Bool) := do
      let (run, isEscaped) ← quotedRun single since fuel
      return (x :: run, isEscaped)
    let c ← get
    match c.next with
    | none => return ([], false)
    | some x =>
      if isBlank x || isBreak x then return ([], false)
      else if single && x == '\'' then
        if c.second == some '\'' then
          skip 2
          onward x
        else return ([], false)
      else if !single && x == '"' then return ([], false)
      else if !single && x == '\\' then
        if c.second.any isBreak then
          skip 1
          let _ ← lineBreak
          return ([], true)
        else onward (← escape since)
      else
        skip 1
        onward x

def quotedFrom (single : Bool) (since : Mark) : Nat → Scan (List Char)
  | 0 => return []
  | fuel + 1 => do
    let c ← get
    if c.isAtDocument then fail .quotedScalar since .documentInside
    else if c.rest.isEmpty then fail .quotedScalar since .endInside
    else
      let (run, isEscaped) ← quotedRun single since (← size)
      if (← next) == some (if single then '\'' else '"') then
        skip 1
        return run
      else
        let g ← gap 0 since (if isEscaped then .escaped else .none)
        return run ++ g.text ++ (← quotedFrom single since fuel)

/-- A scalar between quotes. -/
def quoted (single : Bool) : Scan (List Char) := do
  let since ← mark
  let fuel ← size
  skip 1
  quotedFrom single since fuel

/-! Block scalars. -/

/-- What becomes of the line breaks at the end of a block scalar. -/
inductive Chomping where
  /-- None stays. -/
  | strip
  /-- The first stays. -/
  | clip
  | keep
deriving DecidableEq, Repr

def chomping? (c : Char) : Option Chomping :=
  match c with
  | '+' => some .keep
  | '-' => some .strip
  | _ => none

/-- The chomping that is told here. -/
def chomping : Scan (Option Chomping) := do
  match (← next).bind chomping? with
  | some k =>
    skip 1
    return some k
  | none => return none

/-- The indentation that is told here. -/
def increment (since : Mark) : Scan (Option Nat) := do
  match ← next with
  | some c =>
    if c == '0' then fail .blockScalar since .zeroIndentation
    else if c.isDigit then
      skip 1
      return some (c.toNat - '0'.toNat)
    else return none
  | none => return none

/-- What is said on the first line of a block scalar, in either order. -/
def blockHeader (since : Mark) : Scan (Chomping × Option Nat) := do
  match ← chomping with
  | some k => return (k, ← increment since)
  | none =>
    match ← increment since with
    | some n => return ((← chomping).getD .clip, some n)
    | none => return (.clip, none)

/-- Skips spaces up to a column. -/
def skipIndentation (indent : Option Nat) : Scan Unit := do
  let c ← get
  let spaces := (c.rest.takeWhile (· == ' ')).length
  skip (match indent with
    | some n => min spaces (n - c.mark.column)
    | none => spaces)

/-- Empty lines and the indentation of the next, or as much of it as there is; also the widest
indentation so far. -/
def emptyLines (since : Mark) (indent : Option Nat) : Nat → Nat → Scan (List Char × Nat)
  | 0, widest => return ([], widest)
  | fuel + 1, widest => do
    skipIndentation indent
    let c ← get
    let widest := max widest c.mark.column
    if c.next == some '\t' && indent.all (c.mark.column < ·) then
      fail .blockScalar since .tabAsIndentation
    else if c.next.any isBreak then
      let b ← lineBreak
      let (more, widest) ← emptyLines since indent fuel widest
      return (b ++ more, widest)
    else return ([], widest)

/-- The lines of a block scalar from the current one on, between the line break before it and the
empty lines behind that; also what of this is left over at the end. -/
def blockLines (isFolded : Bool) (indent : Nat) (since : Mark) :
    Nat → List Char → List Char → Bool → Scan (List Char × List Char × List Char)
  | 0, first, others, _ => return ([], first, others)
  | fuel + 1, first, others, isAfterBlank => do
    let c ← get
    if c.mark.column == indent && !c.rest.isEmpty then
      let isBlankLine := c.next.any isBlank
      let joint :=
        if isFolded && first == ['\n'] && !isAfterBlank && !isBlankLine then
          (if others.isEmpty then [' '] else others)
        else first ++ others
      let line ← takeWhile fun x => !isBreak x
      let b ← lineBreak
      let (empty, _) ← emptyLines since (some indent) (← size) 0
      let (more, first, others) ← blockLines isFolded indent since fuel b empty isBlankLine
      return (joint ++ line ++ more, first, others)
    else return ([], first, others)

/-- A block scalar inside of a block indented to the column `outer`, if there is one. -/
def block (isFolded : Bool) (outer : Option Nat) : Scan (List Char) := do
  let since ← mark
  let fuel ← size
  skip 1
  let (chomping, increment) ← blockHeader since
  endOfLine .blockScalar since
  let told := increment.map (outer.getD 0 + ·)
  let (empty, widest) ← emptyLines since told fuel 0
  let indent := told.getD (max widest (max 1 ((outer.map (· + 1)).getD 0)))
  let (text, first, others) ← blockLines isFolded indent since fuel [] empty false
  return text ++
    match chomping with
    | .strip => []
    | .clip => first
    | .keep => first ++ others

end Gauge.Yaml.Scan
