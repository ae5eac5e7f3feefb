import Gauge.CommandLine

/-!
The command: it gets the files and the variables that a run can ask for, and hands over what the run
leaves. The files below the rules directory are those named on the standard input, one in a line.
-/

namespace Gauge.CommandLine

/-- Adds what is at a path, if there is anything. -/
def fetch (t : FileTree) (path : String) : IO FileTree := do
  try
    return t.write path (← IO.FS.readBinFile path)
  catch
    | .inappropriateType .. => return t.makeDirectory path
    | _ => return t

def fetchAll (t : FileTree) : List String → IO FileTree
  | [] => return t
  | path :: rest => do fetchAll (← fetch t path) rest

def isWord (c : Char) : Bool := c.isAlphanum || c == '_'

/-- The words of a text that may be names of variables. -/
def wordsIn (text : String) : List String :=
  (text.toList.splitBy fun a b => isWord a == isWord b).map String.ofList

def fetchVariables (e : Environment) : List String → IO Environment
  | [] => return e
  | name :: rest => do
    match ← IO.getEnv name with
    | some value => fetchVariables (e.set name value) rest
    | none => fetchVariables e rest

/-- The variables that settings are made of, given what is known of the others. -/
def settingNames (e : Environment) : List String :=
  let profile := Text.upper ((e.getFilled? "LUMEN_PROFILE").getD "")
  ["LUMEN_RULES_DIR", "LUMEN_LOG"].flatMap fun key => [key, profile ++ "_" ++ key]

def fetchEnvironment (t : FileTree) : IO Environment := do
  let file := (t.read environmentFile).toOption.getD ""
  let e ← fetchVariables .empty ("LUMEN_PROFILE" :: wordsIn file)
  fetchVariables e (settingNames (e.load file))

/-- The paths on the standard input. -/
def listedFiles : IO (List String) := do
  let text ← (← IO.getStdin).readToEnd
  return (text.splitOn "\n").filter (· != "")

/-- The files that the arguments ask for. -/
def fetchFiles (t : FileTree) (e : Environment) (arguments : List String) : IO FileTree := do
  match Options.ofArguments arguments with
  | .error _ => return t
  | .ok o =>
    match o.file with
    | some path => fetch t path
    | none =>
      let e := e.load ((t.read environmentFile).toOption.getD "")
      fetchAll t (o.rulesDirectory.getD (Config.ofEnvironment e).rulesDirectory :: (← listedFiles))

end Gauge.CommandLine

open Gauge

def main (arguments : List String) : IO UInt32 := do
  let t ← CommandLine.fetch .empty CommandLine.environmentFile
  let e ← CommandLine.fetchEnvironment t
  let outcome := CommandLine.run (← CommandLine.fetchFiles t e arguments) e arguments
  (← IO.getStdout).write outcome.output
  (← IO.getStderr).write outcome.errorOutput
  return outcome.exitCode.toUInt32
