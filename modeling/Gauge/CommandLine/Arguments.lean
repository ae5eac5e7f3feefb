import Gauge.Numeral.Literal
import Gauge.Text.Blank

/-!
The arguments of the command. A value of an option is looked at only when the next option or value
begins, so that what cannot be an argument at all is found before a value that is wrong.
-/

namespace Gauge.CommandLine

inductive Flag where
  | rulesDirectory | rule | file | global | json | help | version
deriving DecidableEq, Repr

namespace Flag

def all : List Flag := [.rulesDirectory, .rule, .file, .global, .json, .help, .version]

def name : Flag → String
  | .rulesDirectory => "rules-dir"
  | .rule => "rule"
  | .file => "file"
  | .global => "global"
  | .json => "json"
  | .help => "help"
  | .version => "version"

/-- What the value of a flag is called, if it takes one. -/
def valueName? : Flag → Option String
  | .rulesDirectory => some "RULES_DIR"
  | .rule => some "RULE"
  | .file => some "FILE"
  | .global => some "GLOBALS"
  | .json | .help | .version => none

def text (f : Flag) : String :=
  "--" ++ f.name ++
    match f.valueName? with
    | some v => " <" ++ v ++ ">"
    | none => ""

def ofName? (s : String) : Option Flag := all.find? (·.name == s)

end Flag

/-- How the metric values are called. -/
def valuesText : String := "[VALUES]..."

/-- Why something is no global to override or add. -/
inductive OverrideError where
  | noEquals (s : String)
  | noName (s : String)
  | noNumber (name : String) (e : LiteralError)
deriving DecidableEq, Repr

def OverrideError.message : OverrideError → String
  | .noEquals s => "expected NAME=VALUE, got '" ++ s ++ "'"
  | .noName s => "missing global name in '" ++ s ++ "'"
  | .noNumber name e => "invalid value for global '" ++ name ++ "': " ++ e.message

/-- The two sides of the first equals sign. -/
def splitEquals? (s : List Char) : Option (List Char × List Char) :=
  match s.dropWhile (· != '=') with
  | [] => none
  | _ :: rest => some (s.takeWhile (· != '='), rest)

def trimmed (s : List Char) : String := String.ofList (Text.trimEnd (Text.trimStart s))

/-- A name and a number with an equals sign in between; white space around them does not count. -/
def readOverride (s : String) : Except OverrideError (String × Float) :=
  match splitEquals? s.toList with
  | none => .error (.noEquals s)
  | some (left, right) =>
    let name := trimmed left
    if name == "" then .error (.noName s)
    else
      match Literal.read (trimmed right) with
      | .ok x => .ok (name, x)
      | .error e => .error (.noNumber name e)

/-- What is wrong with the arguments. -/
inductive UsageError where
  | unknown (shown : String)
  | valueMissing (f : Flag)
  | valueUnneeded (f : Flag) (value : String)
  | repeated (f : Flag)
  | conflict (f g : Flag)
  | ruleMissing
  | badOverride (value : String) (e : OverrideError)
  | badValue (value : String) (e : LiteralError)
deriving DecidableEq, Repr

def UsageError.message : UsageError → String
  | .unknown shown => "unexpected argument '" ++ shown ++ "' found"
  | .valueMissing f => "a value is required for '" ++ f.text ++ "' but none was supplied"
  | .valueUnneeded f value =>
    "unexpected value '" ++ value ++ "' for '" ++ f.text ++ "' found; no more were expected"
  | .repeated f => "the argument '" ++ f.text ++ "' cannot be used multiple times"
  | .conflict f g => "the argument '" ++ f.text ++ "' cannot be used with '" ++ g.text ++ "'"
  | .ruleMissing =>
    "the following required arguments were not provided:\n  " ++ Flag.rule.text
  | .badOverride value e =>
    "invalid value '" ++ value ++ "' for '" ++ Flag.global.text ++ "': " ++ e.message
  | .badValue value e => "invalid value '" ++ value ++ "' for '" ++ valuesText ++ "': " ++ e.message

structure Options where
  rulesDirectory : Option String
  rule : Option String
  file : Option String
  globals : List (String × Float)
  json : Bool
  values : List Float

/-- Why there are no options: the arguments ask for something else, or something is wrong. -/
inductive Halt where
  | help
  | version
  | usage (e : UsageError)
deriving DecidableEq, Repr

/-- What waits for its values. -/
inductive Slot where
  | flag (f : Flag)
  | values
deriving DecidableEq, Repr

/-- The options so far, the flags that have been given, and what waits for its values. -/
structure Progress where
  options : Options
  given : List Flag
  pending : Option (Slot × List String)

namespace Progress

def start : Progress := ⟨⟨none, none, none, [], false, []⟩, [], none⟩

def give (p : Progress) (f : Flag) (o : Options) : Progress :=
  { p with options := o, given := p.given ++ [f] }

/-- Takes a flag with its value. Only globals can be given several times. -/
def takeFlag (p : Progress) (f : Flag) (value : String) : Except UsageError Progress :=
  let path (o : Options) : Except UsageError Progress :=
    if value == "" then .error (.valueMissing f) else .ok (p.give f o)
  if f == .global then
    match readOverride value with
    | .ok e => .ok (p.give f { p.options with globals := p.options.globals ++ [e] })
    | .error e => .error (.badOverride value e)
  else if p.given.contains f then .error (.repeated f)
  else
    match f with
    | .rulesDirectory => path { p.options with rulesDirectory := some value }
    | .file => path { p.options with file := some value }
    | .rule => .ok (p.give f { p.options with rule := some value })
    | _ => .ok (p.give f p.options)

/-- Takes metric values. -/
def takeValues (p : Progress) : List String → Except UsageError Progress
  | [] => .ok p
  | s :: rest =>
    match Literal.read s with
    | .ok x => takeValues { p with options := { p.options with values := p.options.values ++ [x] } } rest
    | .error e => .error (.badValue s e)

/-- Takes what waits. -/
def settle (p : Progress) : Except UsageError Progress :=
  let free := { p with pending := none }
  match p.pending with
  | none => .ok p
  | some (.values, values) => free.takeValues values
  | some (.flag f, []) => .error (.valueMissing f)
  | some (.flag f, value :: _) => free.takeFlag f value

/-- Takes a metric value to those that wait. -/
def addValue (p : Progress) (s : String) : Except UsageError Progress := do
  match p.pending with
  | some (.values, values) => return { p with pending := some (.values, values ++ [s]) }
  | _ => return { ← p.settle with pending := some (.values, [s]) }

/-- Takes something as the value that a flag waits for, or else as a metric value. -/
def add (p : Progress) (s : String) : Except UsageError Progress :=
  match p.pending with
  | some (.flag f, []) => .ok { p with pending := some (.flag f, [s]) }
  | _ => p.addValue s

/-- Takes a flag by its name, with a value if there is one behind an equals sign. -/
def addFlag (p : Progress) (f : Flag) (attached : Option String) : Except Halt Progress := do
  match f.valueName?, attached with
  | some _, some value => ((← p.settle.mapError .usage).takeFlag f value).mapError .usage
  | some _, none => return { ← p.settle.mapError .usage with pending := some (.flag f, []) }
  | none, some value => throw (.usage (.valueUnneeded f value))
  | none, none =>
    let p ← p.settle.mapError .usage
    match f with
    | .help => throw .help
    | .version => throw .version
    | _ =>
      if p.given.contains f then throw (.usage (.repeated f))
      else return p.give f { p.options with json := true }

end Progress

/-- Whether the letters after a dash are a number: digits, a point after the first of them, and a mark
of an exponent that does not end them. -/
def looksNumeric (letters : List Char) : Bool :=
  let whole := letters.takeWhile Char.isDigit
  match letters.dropWhile Char.isDigit with
  | [] => true
  | c :: rest =>
    let digitsOnly (s : List Char) : Bool := !s.isEmpty && s.all Char.isDigit
    if whole.isEmpty then false
    else if c == 'e' then digitsOnly rest
    else if c == '.' then
      match rest.dropWhile Char.isDigit with
      | [] => true
      | 'e' :: rest => digitsOnly rest
      | _ => false
    else false

/-- What a flag of one letter asks for. -/
def letterFlag? (c : Char) : Option Flag :=
  if c == 'h' then some .help else if c == 'V' then some .version else none

/-- Takes an argument before any separator. -/
def Progress.take (p : Progress) (s : String) : Except Halt Progress :=
  match s.toList with
  | '-' :: '-' :: rest =>
    let name := String.ofList (rest.takeWhile (· != '='))
    let attached := (splitEquals? rest).map fun e => String.ofList e.2
    match Flag.ofName? name with
    | some f => p.addFlag f attached
    | none => .error (.usage (.unknown ("--" ++ name)))
  | '-' :: c :: rest =>
    if looksNumeric (c :: rest) then (p.add s).mapError .usage
    else
      match letterFlag? c with
      | some f => p.addFlag f none
      | none => .error (.usage (.unknown (String.ofList ['-', c])))
  | _ => (p.add s).mapError .usage

/-- Takes one argument after another. Behind two dashes there are metric values only. -/
def Progress.takeAll (p : Progress) (isSeparated : Bool) : List String → Except Halt Progress
  | [] => p.settle.mapError .usage
  | s :: rest =>
    if isSeparated then (p.addValue s).mapError .usage >>= fun p => takeAll p true rest
    else if s == "--" then takeAll p true rest
    else p.take s >>= fun p => takeAll p false rest

/-- A rule has to be named, but not together with a file. -/
def Progress.check (p : Progress) : Except UsageError Options :=
  match p.given.find? fun f => f == .rule || f == .file with
  | none => .error .ruleMissing
  | some f =>
    let other : Flag := if f == .rule then .file else .rule
    if p.given.contains other then .error (.conflict f other) else .ok p.options

/-- The options that the arguments give. -/
def Options.ofArguments (arguments : List String) : Except Halt Options := do
  (← Progress.start.takeAll false arguments).check.mapError .usage

end Gauge.CommandLine
