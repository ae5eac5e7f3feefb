import Gauge.FileTree
import Gauge.RuleDocument.Reader

/-!
Rule documents out of files. A document is taken in if its code makes a valid rule. A loader goes
through a directory and all below it, in the order of the names, and keeps the documents by their
identifiers; of several with the same one the last stays, also over what has been kept before.
-/

namespace Gauge

/-- What is wrong with a document that can be read. -/
inductive DocumentFault where
  | foreignKind (kind : String)
  | emptyId
deriving DecidableEq, Repr

def DocumentFault.message : DocumentFault → String
  | .foreignKind kind =>
    "unsupported rule kind '" ++ kind ++ "', expected '" ++ RuleDocument.metricRule ++ "'"
  | .emptyId => "rule metadata.id must not be empty"

inductive LoadError where
  | file (f : FileFault)
  | malformed (e : Yaml.Error)
  | document (f : DocumentFault)
  | rule (e : RuleError)
  | notFound (id : String)
deriving DecidableEq, Repr

def LoadError.message : LoadError → String
  | .file f => "IO error: " ++ f.message
  | .malformed e => "YAML parse error: " ++ e.message
  | .document f => "Validation error: " ++ f.message
  | .rule e => e.message
  | .notFound id => "Rule not found: " ++ id

namespace RuleDocument

/-- Accepts a document if its code makes a valid rule; also what the script wrote meanwhile. -/
def check (d : RuleDocument) : Except LoadError RuleDocument × Script.Transcript :=
  if d.kind != metricRule then (.error (.document (.foreignKind d.kind)), .empty)
  else if d.id == "" then (.error (.document .emptyId), .empty)
  else
    match d.prepare [] with
    | (.ok _, r) => (.ok d, r.transcript)
    | (.error e, r) => (.error (.rule e), r.transcript)

/-- The document in a file. -/
def load (t : FileTree) (path : String) : Except LoadError RuleDocument × Script.Transcript :=
  match t.read path with
  | .error f => (.error (.file f), .empty)
  | .ok text =>
    match ofYaml text with
    | .error e => (.error (.malformed e), .empty)
    | .ok d => d.check

end RuleDocument

/-- What has become of a file. -/
inductive LoadStatus where
  /-- Its name begins with a dot. -/
  | hidden
  /-- It is none of the files that hold documents, by its name. -/
  | foreign
  | loaded (d : RuleDocument)
  | failed (e : LoadError)

/-- What has become of the file at a place below the directory, and what its script wrote. -/
structure LoadResult where
  place : List String
  status : LoadStatus
  transcript : Script.Transcript

structure Loader where
  directory : String
  documents : NameMap RuleDocument

namespace Loader

def new (directory : String) : Loader := ⟨directory, .empty⟩

def ids (l : Loader) : List String := l.documents.names

def get? (l : Loader) (id : String) : Option RuleDocument := l.documents.get? id

/-- The ending of a name: what follows its last dot, unless that is its first character. -/
def extension? (name : String) : Option String :=
  let cs := name.toList.reverse
  match cs.dropWhile (· != '.') with
  | _ :: _ :: _ => some (String.ofList (cs.takeWhile (· != '.')).reverse)
  | _ => none

def isDocumentName (name : String) : Bool :=
  extension? name == some "yml" || extension? name == some "yaml"

def isHidden (name : String) : Bool := name.toList.head? == some '.'

/-- The path of a place below a directory. -/
def pathOf (root : String) (place : List String) : String := "/".intercalate (root :: place)

/-- What becomes of something that is not a directory to go through. -/
def tryFile (t : FileTree) (root : String) (place : List String) (name : String) : LoadResult :=
  if isDocumentName name then
    match RuleDocument.load t (pathOf root place) with
    | (.ok d, transcript) => ⟨place, .loaded d, transcript⟩
    | (.error e, transcript) => ⟨place, .failed e, transcript⟩
  else ⟨place, .foreign, .empty⟩

/-- What becomes of the files in a directory and below; a directory that cannot be listed has none. -/
def scanFrom (t : FileTree) (root : String) : Nat → List String → List LoadResult
  | 0, _ => []
  | fuel + 1, directory =>
    match t.list (pathOf root directory) with
    | .error _ => []
    | .ok names => names.flatMap fun name =>
      let place := directory ++ [name]
      if isHidden name then
        if t.isFile (pathOf root place) then [⟨place, .hidden, .empty⟩] else []
      else if t.isDirectory (pathOf root place) then scanFrom t root fuel place
      else [tryFile t root place name]

/-- What becomes of the files below a directory, which has to be there. -/
def scan (t : FileTree) (root : String) : Except FileFault (List LoadResult) :=
  match t.list root with
  | .error f => .error f
  | .ok _ => .ok (scanFrom t root (t.reach + 1) [])

/-- Keeps the document of a file, if there is one. -/
def keep (l : Loader) (r : LoadResult) : Loader :=
  match r.status with
  | .loaded d => { l with documents := l.documents.insert d.id d }
  | _ => l

/-- Takes in all documents of the directory. -/
def loadAll (l : Loader) (t : FileTree) : Except LoadError (List LoadResult) × Loader :=
  match scan t l.directory with
  | .error f => (.error (.file f), l)
  | .ok results => (.ok results, results.foldl keep l)

/-- A new rule from the document with an identifier. -/
def build (l : Loader) (id : String) : Except LoadError Rule :=
  match l.get? id with
  | none => .error (.notFound id)
  | some d => d.toRule.mapError .rule

end Loader

end Gauge
