import Gauge.Environment
import Gauge.Text.Alphanumeric
import Gauge.Text.Blank

/-!
Files of assignments `NAME=value`, which give values to variables that have none. A value may be
quoted, go on over several lines within quotes, and refer to variables by `$NAME`. Reading stops at
the first entry that makes no sense; what came before it holds.
-/

namespace Gauge.Environment.File

/-! Lines that belong together. -/

/-- Where in an entry a line ends. -/
inductive Scan where
  | plain
  | escape
  | single
  | singleEscape
  | double
  | doubleEscape
  | blank
deriving DecidableEq

/-- The state after a character; nothing where a comment begins. -/
def Scan.next (s : Scan) (c : Char) : Option Scan :=
  let opened : Scan :=
    if c == '\\' then .escape else if c == '"' then .double else if c == '\'' then .single else .plain
  match s with
  | .blank => if c == '#' then none else some opened
  | .escape => some .plain
  | .plain =>
    some (if Text.isBlank c && c != '\n' && c != '\r' then .blank else opened)
  | .double => some (if c == '\\' then .doubleEscape else if c == '"' then .plain else .double)
  | .doubleEscape => some .double
  | .single => some (if c == '\\' then .singleEscape else if c == '\'' then .plain else .single)
  | .singleEscape => some .single

/-- The state at the end of a line, or the part of the line before a comment. -/
def scanLine (s : Scan) : List Char → List Char → Scan ⊕ List Char
  | _, [] => .inl s
  | before, c :: rest =>
    match s.next c with
    | some s => scanLine s (c :: before) rest
    | none => .inr before.reverse

/-- The first line of a text, with its end, and the rest. -/
def splitLine : List Char → List Char × List Char
  | [] => ([], [])
  | c :: rest =>
    if c == '\n' then ([c], rest)
    else
      let (line, rest) := splitLine rest
      (c :: line, rest)

theorem length_splitLine (s : List Char) : (splitLine s).2.length ≤ s.length := by
  induction s with
  | nil => simp [splitLine]
  | cons c rest ih =>
    simp only [splitLine]
    split
    · simp
    · simp only [List.length_cons]; omega

theorem length_splitLine_cons (c : Char) (rest : List Char) :
    (splitLine (c :: rest)).2.length < (c :: rest).length := by
  have h := length_splitLine rest
  simp only [splitLine, List.length_cons]
  split
  · simp only; omega
  · simp only; omega

/-- An entry without the end of its last line. -/
def dropLineEnd (s : List Char) : List Char :=
  match s.reverse with
  | '\n' :: '\r' :: rest => rest.reverse
  | '\n' :: rest => rest.reverse
  | _ => s

/-- The entries of a text, each the lines that quotes and escapes hold together; nothing in the place
of one that does not end. `entry` has been read of the current one. -/
def entriesFrom (s : Scan) (entry : List Char) : List Char → List (Option (List Char))
  | [] => if s == .plain then [] else [none]
  | c :: text =>
    let split := splitLine (c :: text)
    let whole := entry ++ split.1
    if (Text.trimStart whole).head? == some '#' then
      some [] :: entriesFrom .plain [] split.2
    else
      match scanLine s [] split.1 with
      | .inr before => some (entry ++ before) :: entriesFrom .plain [] split.2
      | .inl .plain => some (dropLineEnd whole) :: entriesFrom .plain [] split.2
      | .inl s => entriesFrom s whole split.2
termination_by text => text.length
decreasing_by
  all_goals exact length_splitLine_cons c text

/-! Entries. -/

/-- What a value refers to: variables of the environment, or else those of the file so far. -/
structure Context where
  environment : Environment
  known : Environment

def Context.value (c : Context) (name : List Char) : List Char :=
  let name := String.ofList name
  match c.environment.get? name with
  | some v => v.toList
  | none => ((c.known.get? name).getD "").toList

/-- How a value is being read. -/
inductive Mode where
  | plain
  | single
  | double
  /-- After a backslash, within double quotes or not. -/
  | escape (quoted : Bool)
  /-- A reference by `$NAME`. -/
  | reference (quoted : Bool) (name : List Char)
  /-- A reference in braces. -/
  | braced (quoted : Bool) (name : List Char)
  /-- Only a comment may follow. -/
  | ended

def Mode.within (quoted : Bool) : Mode := if quoted then .double else .plain

/-- The character an escape stands for. -/
def escaped? (c : Char) : Option Char :=
  if c == '\\' || c == '\'' || c == '"' || c == '$' || c == ' ' then some c
  else if c == 'n' then some '\n'
  else none

/-- The value that a text stands for; nothing if it makes no sense. -/
def valueFrom (x : Context) : Mode → List Char → List Char → Option (List Char)
  | .plain, [], out | .ended, [], out | .escape false, [], out => some out
  | .reference false name, [], out => some (out ++ x.value name.reverse)
  | _, [], _ => none
  | .ended, c :: rest, out =>
    if c == ' ' || c == '\t' then valueFrom x .ended rest out
    else if c == '#' then some out
    else none
  | .escape quoted, c :: rest, out =>
    match escaped? c with
    | some d => valueFrom x (.within quoted) rest (out ++ [d])
    | none => none
  | .single, c :: rest, out =>
    if c == '\'' then valueFrom x .plain rest out else valueFrom x .single rest (out ++ [c])
  | .reference quoted name, c :: rest, out =>
    if Text.isAlphanumeric c then valueFrom x (.reference quoted (c :: name)) rest out
    else if c == '\x7b' && name.isEmpty then valueFrom x (.braced quoted []) rest out
    else
      let out := out ++ x.value name.reverse
      if c == '$' then valueFrom x (.reference quoted []) rest out
      else valueFrom x (.within quoted) rest (out ++ [c])
  | .braced quoted name, c :: rest, out =>
    if c == '\x7d' then valueFrom x (.within quoted) rest (out ++ x.value name.reverse)
    else valueFrom x (.braced quoted (c :: name)) rest out
  | .double, c :: rest, out =>
    if c == '$' then valueFrom x (.reference true []) rest out
    else if c == '"' then valueFrom x .plain rest out
    else if c == '\\' then valueFrom x (.escape true) rest out
    else valueFrom x .double rest (out ++ [c])
  | .plain, c :: rest, out =>
    if c == '$' then valueFrom x (.reference false []) rest out
    else if c == '\'' then valueFrom x .single rest out
    else if c == '"' then valueFrom x .double rest out
    else if c == '\\' then valueFrom x (.escape false) rest out
    else if c == ' ' || c == '\t' then valueFrom x .ended rest out
    else valueFrom x .plain rest (out ++ [c])

def isNameStart (c : Char) : Bool := c.isAlpha || c == '_'
def isNamePart (c : Char) : Bool := c.isAlphanum || c == '_' || c == '.'

/-- The name at the front of a text, and the rest without white space before it. -/
def name? (s : List Char) : Option (List Char × List Char) :=
  if (s.head?.map isNameStart).getD false then
    some (s.takeWhile isNamePart, Text.trimStart (s.dropWhile isNamePart))
  else none

/-- What an entry says. -/
inductive Entry where
  | nothing
  | assignment (name value : String)
  | malformed

/-- The assignment to a name, given the text after the name. -/
def assignment (x : Context) (name rest : List Char) : Entry :=
  match rest with
  | '=' :: rest =>
    let rest := Text.trimStart rest
    if rest.isEmpty || rest.head? == some '#' then .assignment (String.ofList name) ""
    else
      match valueFrom x .plain rest [] with
      | some v => .assignment (String.ofList name) (String.ofList v)
      | none => .malformed
  | _ => .malformed

/-- Reads an entry. The word `export` may come before the name. -/
def entry (x : Context) (s : List Char) : Entry :=
  let s := Text.trimStart (Text.trimEnd s)
  if s.isEmpty || s.head? == some '#' then .nothing
  else
    match name? s with
    | none => .malformed
    | some (name, rest) =>
      if name == "export".toList && rest.head? != some '=' then
        match name? rest with
        | none => .malformed
        | some (name, rest) => assignment x name rest
      else assignment x name rest

/-- Carries out entries as far as they make sense. -/
def apply (x : Context) : List (Option (List Char)) → Environment
  | [] => x.environment
  | none :: _ => x.environment
  | some s :: rest =>
    match entry x s with
    | .nothing => apply x rest
    | .malformed => x.environment
    | .assignment name value =>
      apply ⟨x.environment.setDefault name value, x.known.set name value⟩ rest

/-- The mark that a text may have at its beginning. -/
def byteOrderMark : Char := '\ufeff'

end File

/-- The environment after a file of assignments has been read. -/
def load (e : Environment) (file : String) : Environment :=
  let text := match file.toList with
    | c :: rest => if c == File.byteOrderMark then rest else c :: rest
    | [] => []
  File.apply ⟨e, .empty⟩ (File.entriesFrom .plain [] text)

end Gauge.Environment
