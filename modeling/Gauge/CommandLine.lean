import Gauge.CommandLine.Arguments
import Gauge.Config
import Gauge.Loader

/-!
The command that evaluates one rule on metric values and shows the result.
-/

namespace Gauge.CommandLine

def programName : String := "rule-eval"
def programVersion : String := "0.1.0"

def versionText : String := programName ++ " " ++ programVersion ++ "\n"

def helpText : String :=
  "Evaluate a scripted metric rule and print its result\n\n" ++
  "Usage: " ++ programName ++ " [OPTIONS] [VALUES]...\n\n" ++
  "Arguments:\n" ++
  "  [VALUES]...  Metric values, in argument order\n\n" ++
  "Options:\n" ++
  "      --rules-dir <RULES_DIR>  Rules directory to load `--rule` from (defaults to LUMEN_RULES_DIR)\n" ++
  "      --rule <RULE>            ID of a rule in the rules directory\n" ++
  "      --file <FILE>            Path to a single rule document\n" ++
  "      --global <GLOBALS>       Override or add a global constant, e.g. `--global warning=0.7`\n" ++
  "      --json                   Print the result as JSON\n" ++
  "  -h, --help                   Print help\n" ++
  "  -V, --version                Print version\n"

/-- Why there is no result, from the outside in. -/
inductive Failure where
  | document (path : String) (e : LoadError)
  | directory (path : String) (e : LoadError)
  | unknownRule (id path : String)
  | rule (e : RuleError)

namespace Failure

/-- What lies behind an error. -/
def causes : LoadError → List String
  | .file f => [(LoadError.file f).message, f.message]
  | .malformed e => [(LoadError.malformed e).message, e.message]
  | e => [e.message]

/-- A text whose lines after the first are indented. -/
def hang (indent : List Char) (s : String) : String :=
  String.ofList (s.toList.flatMap fun c => if c == '\n' then c :: indent else [c])

def numbered : Nat → List String → String
  | _, [] => ""
  | i, s :: rest =>
    "\n    " ++ toString i ++ ": " ++ hang (List.replicate 7 ' ') s ++ numbered (i + 1) rest

/-- An error with what lies behind it. -/
def withCauses (s : String) (e : LoadError) : String :=
  s ++ "\n\nCaused by:" ++
    match causes e with
    | [cause] => "\n    " ++ hang (List.replicate 4 ' ') cause
    | list => numbered 0 list

def message : Failure → String
  | .document path e => withCauses ("failed to load rule document " ++ path) e
  | .directory path e => withCauses ("failed to scan rules directory " ++ path) e
  | .unknownRule id path => "rule '" ++ id ++ "' not found in " ++ path
  | .rule e => e.message

end Failure

/-- What is left of a run of the command. -/
structure Outcome where
  exitCode : Nat
  output : ByteArray
  errorOutput : ByteArray

/-- The document to evaluate; also what scripts wrote while it was looked for. -/
def findDocument (t : FileTree) (c : Config) (o : Options) :
    Except Failure RuleDocument × Script.Transcript :=
  match o.file with
  | some path =>
    let (result, transcript) := RuleDocument.load t path
    (result.mapError (.document path), transcript)
  | none =>
    let directory := o.rulesDirectory.getD c.rulesDirectory
    let id := o.rule.getD ""
    match (Loader.new directory).loadAll t with
    | (.error e, _) => (.error (.directory directory e), .empty)
    | (.ok results, l) =>
      let transcript := results.foldl (fun s r => s.append r.transcript) .empty
      match l.get? id with
      | some d => (.ok d, transcript)
      | none => (.error (.unknownRule id directory), transcript)

/-- The name of the rule and its result; also what the script wrote. -/
def evaluate (d : RuleDocument) (o : Options) :
    Except Failure (String × Float) × Script.Transcript :=
  match d.prepare o.globals with
  | (.error e, r) => (.error (.rule e), r.transcript)
  | (.ok _, r) =>
    let (result, r) := r.evaluate o.values
    ((result.map fun x => (r.name, x)).mapError .rule, r.transcript)

/-- How a result is shown. -/
def report (o : Options) (name : String) (x : Float) : String :=
  if o.json then
    Json.object [("metrics", Json.array (o.values.map Json.number)), ("result", Json.number x),
      ("rule", Json.string name)]
  else NumeralStyle.plain.write x

/-- What a run comes to, unless a script has ended it. The result comes before what scripts have not let
out. -/
def finish (transcript : Script.Transcript) (shown : Except Failure String) : Outcome :=
  let s := transcript.streams
  match transcript.exit, shown with
  | some code, _ => ⟨code, s.output, s.complaints⟩
  | none, .ok line =>
    ⟨0, s.output.extract 0 s.released ++ (line ++ "\n").toUTF8 ++
      s.output.extract s.released s.output.size, s.complaints⟩
  | none, .error f => ⟨1, s.output, s.complaints ++ ("Error: " ++ f.message ++ "\n").toUTF8⟩

def execute (t : FileTree) (c : Config) (o : Options) : Outcome :=
  match findDocument t c o with
  | (.error f, transcript) => finish transcript (.error f)
  | (.ok d, before) =>
    let (result, transcript) := evaluate d o
    finish (before.append transcript) (result.map fun e => report o e.1 e.2)

/-- The file of assignments to the environment. -/
def environmentFile : String := ".env"

/-- Runs the command in a directory with the files `t`. -/
def run (t : FileTree) (e : Environment) (arguments : List String) : Outcome :=
  let e := match t.read environmentFile with
    | .ok text => e.load text
    | .error _ => e
  match Options.ofArguments arguments with
  | .ok o => execute t (.ofEnvironment e) o
  | .error .help => ⟨0, helpText.toUTF8, ByteArray.empty⟩
  | .error .version => ⟨0, versionText.toUTF8, ByteArray.empty⟩
  | .error (.usage u) =>
    ⟨2, ByteArray.empty,
      ("error: " ++ u.message ++ "\n\nFor more information, try '--help'.\n").toUTF8⟩

end Gauge.CommandLine
