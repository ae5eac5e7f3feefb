import Gauge.Yaml.Document
import Gauge.Yaml.Plain
import Gauge.Text.Quoted

/-!
Reading a document into what is expected of it. The first thing that does not fit ends the reading,
in the order of the text; it is told with the node it is in and the way to that node.
-/

namespace Gauge.Yaml

/-- What does not fit. -/
inductive Complaint where
  | invalidType (found expected : String)
  | invalidValue (found expected : String)
  | unknownField (name : String) (known : List String)
  | missingField (name : String)
  | duplicateField (name : String)
deriving DecidableEq, Repr

def Complaint.message : Complaint → String
  | .invalidType found expected => "invalid type: " ++ found ++ ", expected " ++ expected
  | .invalidValue found expected => "invalid value: " ++ found ++ ", expected " ++ expected
  | .unknownField name known =>
    "unknown field `" ++ name ++ "`, expected one of " ++
      ", ".intercalate (known.map fun k => "`" ++ k ++ "`")
  | .missingField name => "missing field `" ++ name ++ "`"
  | .duplicateField name => "duplicate field `" ++ name ++ "`"

/-- A step from a node into it. -/
inductive Step where
  | key (name : String)
  /-- A key that is not a scalar as it stands. -/
  | unnamedKey
  | item (index : Nat)
deriving DecidableEq, Repr

/-- The way to a node, the last step first. -/
abbrev Path : Type := List Step

namespace Path

def text : Path → String
  | [] => ""
  | .item i :: outer => text outer ++ "[" ++ toString i ++ "]"
  | .key name :: outer => (if outer.isEmpty then "" else text outer ++ ".") ++ name
  | .unnamedKey :: outer => (if outer.isEmpty then "" else text outer ++ ".") ++ "?"

end Path

/-- Why a text was not read. -/
inductive Error where
  | load (p : LoadProblem)
  /-- Where it is is known only further out at first. -/
  | unfit (c : Complaint) (site : Option (Path × Mark))
  | severalDocuments
deriving DecidableEq, Repr

def Error.message : Error → String
  | .load p => p.message
  | .unfit c none => c.message
  | .unfit c (some (path, m)) =>
    (if path.isEmpty then "" else path.text ++ ": ") ++ c.message ++ m.text
  | .severalDocuments => "deserializing from YAML containing more than one document is not supported"

def Scalar.isEmptyPlain (s : Scalar) : Bool := s.value.isEmpty && s.style == .plain

/-! Tags of the types that plain text may have. -/

def Tag.core (name : String) : String := "tag:yaml.org,2002:" ++ name

/-- Whether a scalar is read as plain text, to be of the type with a name. -/
def Scalar.isPlainOr (s : Scalar) (type : String) : Bool :=
  match s.style with
  | .plain => true
  | .literal => s.tag == some (Tag.core type)
  | _ => false

/-- How a scalar is told of. -/
def Scalar.describe (s : Scalar) : Except Complaint String :=
  let text : Except Complaint String := .ok ("string " ++ Text.Quoted.encode s.value)
  let integer (n : Int) : String :=
    "integer `" ++ toString n ++ "`" ++
      (if n < -2 ^ 63 then " as i128" else if 2 ^ 64 ≤ n then " as u128" else "")
  let real (x : Float) : String :=
    let digits := NumeralStyle.plain.write x
    "floating point `" ++ digits ++ (if x.isFinite && !digits.contains '.' then ".0`" else "`")
  let boolean (b : Bool) : String := "boolean `" ++ toString b ++ "`"
  let invalid (expected : String) : Except Complaint String :=
    .error (.invalidValue ("string " ++ Text.Quoted.encode s.value) expected)
  let plain : Except Complaint String :=
    match Plain.meaning s.value with
    | .null => .ok "unit value"
    | .boolean b => .ok (boolean b)
    | .integer n => .ok (integer n)
    | .real x => .ok (real x)
    | .text => text
  match s.tag with
  | none => if s.style == .plain then plain else text
  | some tag =>
    if tag == Tag.core "bool" then
      match Plain.boolean? s.value with
      | some b => .ok (boolean b)
      | none => invalid "a boolean"
    else if tag == Tag.core "int" then
      match Plain.integer? s.value with
      | some n => .ok (integer n)
      | none => invalid "an integer"
    else if tag == Tag.core "float" then
      match Plain.real? s.value with
      | some x => .ok (real x)
      | none => invalid "a float"
    else if tag == Tag.core "null" then
      if Plain.isNull s.value then .ok "unit value" else invalid "null"
    else if tag.startsWith "!" && s.style == .plain then plain
    else text

/-- Reads the node at the end of a path. -/
abbrev Reader (α : Type) : Type := Document → Path → Node → Except Error α

namespace Reader

/-- The node itself, or the one that it is an alias of. -/
def resolve (d : Document) : Node → Node
  | .alias position _ => d.nodeAt position
  | n => n

/-- Fails where the text breaks off. -/
def breakOff {α : Type} (d : Document) : Except Error α :=
  .error (.load (d.failure.getD (.malformed ⟨.endInside, .mark .start, none⟩)))

def fail {α : Type} (c : Complaint) (path : Path) (m : Mark) : Except Error α :=
  .error (.unfit c (some (path, m)))

/-- Gives a complaint from further in its place if it has none. -/
def placed {α : Type} (path : Path) (m : Mark) : Except Error α → Except Error α
  | .error (.unfit c none) => fail c path m
  | r => r

/-- Fails as the node is not what is expected. -/
def mismatch {α : Type} (expected : String) : Reader α := fun d path n =>
  match n with
  | .scalar s m =>
    match s.describe with
    | .ok found => fail (.invalidType found expected) path m
    | .error c => fail c path m
  | .sequence _ m => fail (.invalidType "sequence" expected) path m
  | .mapping _ m => fail (.invalidType "map" expected) path m
  | .alias .. | .missing => breakOff d

def string (expected : String) : Reader String := fun d path n =>
  match resolve d n with
  | .scalar s _ => .ok s.value
  | n => mismatch expected d path n

/-- A scalar of the type with a name, out of whose text `accept` makes a value. -/
def plain {α : Type} (type expected : String) (accept : String → Option α) : Reader α :=
  fun d path n =>
    let n := resolve d n
    match n with
    | .scalar s _ =>
      match if s.isPlainOr type then accept s.value else none with
      | some a => .ok a
      | none => mismatch expected d path n
    | n => mismatch expected d path n

def bool : Reader Bool := plain "bool" "a boolean" Plain.boolean?

def float : Reader Float := plain "float" "f64" Plain.real?

/-- A value or nothing, which is null or left empty. -/
def option {α : Type} (r : Reader α) : Reader (Option α) := fun d path n =>
  let n := resolve d n
  let some : Except Error (Option α) := (r d path n).map some
  match n with
  | .missing => breakOff d
  | .scalar s _ =>
    if s.style != .plain then some
    else
      match s.tag with
      | .none => if s.value.isEmpty || Plain.isNull s.value then .ok none else some
      | .some tag =>
        if tag != Tag.core "null" then some
        else if Plain.isNull s.value then .ok none
        else .error (.unfit (.invalidValue ("string " ++ Text.Quoted.encode s.value) "null") none)
  | _ => some

def itemsFrom {α : Type} (r : Reader α) (d : Document) (path : Path) :
    Nat → List Node → Except Error (List α)
  | _, [] => .ok []
  | i, n :: rest => do return (← r d (.item i :: path) n) :: (← itemsFrom r d path (i + 1) rest)

def list {α : Type} (r : Reader α) : Reader (List α) := fun d path n =>
  match resolve d n with
  | .sequence items m => placed path m (itemsFrom r d path 0 items)
  | .scalar s m =>
    if s.isEmptyPlain then .ok [] else mismatch "a sequence" d path (.scalar s m)
  | n => mismatch "a sequence" d path n

/-- The step to the value of a key. -/
def step : Node → Step
  | .scalar s _ => .key s.value
  | _ => .unnamedKey

/-- A mapping from strings, in the order of the text. -/
def entries {α : Type} (r : Reader α) : Reader (List (String × α)) := fun d path n =>
  match resolve d n with
  | .mapping members m => placed path m <| members.mapM fun (k, v) => do
    let name ← string "a string" d path k
    return (name, ← r d (step k :: path) v)
  | .scalar s m => if s.isEmptyPlain then .ok [] else mismatch "a map" d path (.scalar s m)
  | n => mismatch "a map" d path n

/-- A field of a record: whether it has been read, how it is read, and what it is if it is missing. -/
structure Field (σ : Type) where
  name : String
  isKnown : σ → Bool
  read : σ → Reader σ
  default : Option (σ → σ)

/-- A record is a mapping from the names of its fields. `blank` is one of which nothing has been
read. -/
structure Shape (σ : Type) where
  name : String
  blank : σ
  fields : List (Field σ)

namespace Shape

variable {σ : Type}

def names (s : Shape σ) : List String := s.fields.map (·.name)

/-- The field that a key names. -/
def field (s : Shape σ) : Reader (Field σ) := fun d path n =>
  match resolve d n with
  | .scalar key m =>
    match s.fields.find? (·.name == key.value) with
    | some f => .ok f
    | none => fail (.unknownField key.value s.names) path m
  | n => mismatch "field identifier" d path n

def members (s : Shape σ) (d : Document) (path : Path) :
    List (Node × Node) → σ → Except Error σ
  | [], acc => .ok acc
  | (k, v) :: rest, acc => do
    let f ← s.field d path k
    if f.isKnown acc then .error (.unfit (.duplicateField f.name) none)
    else members s d path rest (← f.read acc d (step k :: path) v)

/-- Fills in what is missing. -/
def complete : List (Field σ) → σ → Except Error σ
  | [], acc => .ok acc
  | f :: rest, acc =>
    if f.isKnown acc then complete rest acc
    else
      match f.default with
      | some fill => complete rest (fill acc)
      | none => .error (.unfit (.missingField f.name) none)

def read (s : Shape σ) : Reader σ := fun d path n =>
  let whole (entries : List (Node × Node)) (m : Mark) : Except Error σ :=
    placed path m do complete s.fields (← s.members d path entries s.blank)
  match resolve d n with
  | .mapping entries m => whole entries m
  | .scalar scalar m =>
    if scalar.isEmptyPlain then whole [] m
    else mismatch ("struct " ++ s.name) d path (.scalar scalar m)
  | n => mismatch ("struct " ++ s.name) d path n

end Shape

/-- The value that a text stands for, which is to be a single document. -/
def whole {α : Type} (r : Reader α) (text : String) : Except Error α := do
  let d := Document.ofText text
  let a ← r d [] d.root
  match d.failure with
  | some p => .error (.load p)
  | none => if d.hasMore then .error .severalDocuments else .ok a

end Reader

end Gauge.Yaml
