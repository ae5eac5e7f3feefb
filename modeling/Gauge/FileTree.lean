import Gauge.Instances

/-!
Files in directories, and links between them. Paths are followed from the current directory, or from
the root if they begin with a slash; nothing is known of how the two lie to each other, so that each is
the directory above itself.
-/

namespace Gauge

inductive FileEntry where
  | file (bytes : ByteArray)
  | directory
  /-- Another name for what the target names, seen from the directory of the link. -/
  | link (target : String)

/-- Why a file cannot be had. -/
inductive FileFault where
  | missing
  | notADirectory
  | isADirectory
  | tooManyLinks
  /-- Its bytes are no text. -/
  | notText
deriving DecidableEq, Repr

def FileFault.message : FileFault → String
  | .missing => "No such file or directory (os error 2)"
  | .notADirectory => "Not a directory (os error 20)"
  | .isADirectory => "Is a directory (os error 21)"
  | .tooManyLinks => "Too many levels of symbolic links (os error 40)"
  | .notText => "stream did not contain valid UTF-8"

/-- What is at a place, a place being the names on the way to it. Both tops are always there. -/
structure FileTree where
  entries : List (List String × FileEntry)

namespace FileTree

def empty : FileTree := ⟨[]⟩

/-- The place of the root directory; that of the current one is empty. -/
def root : List String := ["/"]

def isTop (place : List String) : Bool := place.isEmpty || place == root

def entry? (t : FileTree) (place : List String) : Option FileEntry :=
  if isTop place then some .directory else t.entries.lookup place

/-- The directory above. -/
def above (place : List String) : List String := if isTop place then place else place.dropLast

/-- Puts something at a place instead of what is there. -/
def put (t : FileTree) (place : List String) (e : FileEntry) : FileTree :=
  ⟨(place, e) :: t.entries.filter (·.1 != place)⟩

/-- Makes the directories on the way to a place that are missing; `before` has been gone already. -/
def makeWay (t : FileTree) (before : List String) : List String → FileTree
  | [] | [_] => t
  | name :: rest =>
    let place := before ++ [name]
    let t := if (t.entry? place).isSome then t else t.put place .directory
    makeWay t place rest

/-- Takes away what is at a place and below it. -/
def remove (t : FileTree) (place : List String) : FileTree :=
  ⟨t.entries.filter fun e => !place.isPrefixOf e.1⟩

/-! Paths. -/

/-- The parts of a text between slashes. -/
def splitPath : List Char → List (List Char)
  | [] => [[]]
  | c :: rest =>
    if c == '/' then [] :: splitPath rest
    else
      match splitPath rest with
      | [] => [[c]]
      | part :: parts => (c :: part) :: parts

def names (path : String) : List String := (splitPath path.toList).map String.ofList

/-- Where a path is followed from, by its text alone; `here` is where one is. -/
def origin (here : List String) (path : String) : List String :=
  if path.toList.head? == some '/' then root else here

/-- The place of a path in which there are no links. -/
def place (path : String) : List String :=
  origin [] path ++ (names path).filter fun n => n != "" && n != "."

/-- How many links are followed on one path. -/
def maxLinks : Nat := 40

/-- Where one comes to from a place by some names. -/
def follow (t : FileTree) (links : Nat) (here : List String) :
    List String → Except FileFault (List String)
  | [] => .ok here
  | name :: rest =>
    if name == "" || name == "." then follow t links here rest
    else if name == ".." then follow t links (above here) rest
    else
      let next := here ++ [name]
      match t.entry? next with
      | none => .error .missing
      | some .directory => follow t links next rest
      | some (.file _) => if rest.isEmpty then .ok next else .error .notADirectory
      | some (.link target) =>
        match links with
        | 0 => .error .tooManyLinks
        | links + 1 =>
          follow t links (origin here target) (names target ++ rest)
termination_by rest => (links, rest.length)

/-- The place that a path leads to, links followed. -/
def resolve (t : FileTree) (path : String) : Except FileFault (List String) :=
  if path == "" then .error .missing else follow t maxLinks (origin [] path) (names path)

def stat (t : FileTree) (path : String) : Except FileFault FileEntry := do
  match t.entry? (← t.resolve path) with
  | some e => return e
  | none => throw .missing

def isFile (t : FileTree) (path : String) : Bool :=
  match t.stat path with
  | .ok (.file _) => true
  | _ => false

def isDirectory (t : FileTree) (path : String) : Bool :=
  match t.stat path with
  | .ok .directory => true
  | _ => false

/-- The text of a file. -/
def read (t : FileTree) (path : String) : Except FileFault String := do
  match ← t.stat path with
  | .file bytes =>
    match String.fromUTF8? bytes with
    | some s => return s
    | none => throw .notText
  | _ => throw .isADirectory

/-- The name of an entry of a directory. -/
def nameIn? (directory place : List String) : Option String :=
  if !isTop place && place.dropLast == directory then place.getLast? else none

/-- The names in the directory at a place, in their order. -/
def children (t : FileTree) (directory : List String) : List String :=
  (t.entries.filterMap fun e => nameIn? directory e.1).mergeSort fun a b => a ≤ b

/-- The names in a directory. -/
def list (t : FileTree) (path : String) : Except FileFault (List String) := do
  let directory ← t.resolve path
  match t.entry? directory with
  | some .directory => return t.children directory
  | _ => throw .notADirectory

/-- A bound on the number of names in a path that leads somewhere: between two links there are no more
than in the deepest place. -/
def reach (t : FileTree) : Nat :=
  (maxLinks + 1) * ((t.entries.map (·.1.length)).foldl max 0 + 1)

/-! Changes. -/

/-- Writes to the file at the end of a path, and makes the directories on the way. -/
def write (t : FileTree) (path : String) (bytes : ByteArray) : FileTree :=
  match t.resolve path with
  | .ok place => t.put place (.file bytes)
  | .error _ => (t.makeWay [] (place path)).put (place path) (.file bytes)

def makeDirectory (t : FileTree) (path : String) : FileTree :=
  if t.isDirectory path then t
  else (t.makeWay [] (place path)).put (place path) .directory

def link (t : FileTree) (path target : String) : FileTree :=
  (t.makeWay [] (place path)).put (place path) (.link target)

end FileTree

end Gauge
