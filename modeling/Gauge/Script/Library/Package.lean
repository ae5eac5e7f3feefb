import Gauge.Script.Library.Arguments

/-!
Where packages are looked for. No file is within reach, so that only what a script has put at hand
itself is found.
-/

namespace Gauge.Script.Package

open Native

def path : String :=
  "/usr/local/share/lua/5.4/?.lua;/usr/local/share/lua/5.4/?/init.lua;" ++
  "/usr/local/lib/lua/5.4/?.lua;/usr/local/lib/lua/5.4/?/init.lua;./?.lua;./?/init.lua"

def libraryPath : String :=
  "/usr/local/lib/lua/5.4/?.so;/usr/local/lib/lua/5.4/loadall.so;./?.so"

/-- The separator of folders, that of paths, the mark for the name, and two marks for libraries. -/
def config : String := "/\n;\n?\n!\n-\n"

/-- Replaces each `old`, which is not empty. -/
def replaceFrom (s old new : ByteArray) : Nat → Nat → ByteArray → ByteArray
  | 0, i, acc => acc ++ s.extract i s.size
  | fuel + 1, i, acc =>
    match s.find? old i with
    | some j => replaceFrom s old new fuel (j + old.size) (acc ++ s.extract i j ++ new)
    | none => acc ++ s.extract i s.size

def replace (s old new : ByteArray) : ByteArray := replaceFrom s old new (s.size + 1) 0 ByteArray.empty

/-- What is said about a name for which no file of a path exists. -/
def notFound (name path separator folder : ByteArray) : ByteArray :=
  let name := if separator.size == 0 then name else replace name separator folder
  let tried := replace path "?".toUTF8 name
  "no file '".toUTF8 ++ replace tried ";".toUTF8 "'\n\tno file '".toUTF8 ++ "'".toUTF8

def searchpath (args : Args) : Native (Array Value) := do
  let name ← args.text 1
  let path ← args.text 2
  let separator ← args.optText 3 ".".toUTF8
  let folder ← args.optText 4 "/".toUTF8
  return #[.nil,
    .string (notFound name.untilNul path.untilNul separator.untilNul folder.untilNul)]

def searchPreload (args : Args) : Native (Array Value) := do
  let name ← args.text 1
  let preload ← read (·.preload)
  let v ← index (.table preload) (.string name.untilNul)
  if v.isNil then
    text ("no field package.preload['".toUTF8 ++ name.untilNul ++ "']".toUTF8)
  else return #[v, .ofString ":preload:"]

def searchScript (args : Args) : Native (Array Value) := do
  let name ← args.text 1
  let package ← read (·.package)
  match (← index (.table package) (.ofString "path")).text? with
  | some path => text (notFound name.untilNul path.untilNul ".".toUTF8 "/".toUTF8)
  | none => failAtCaller "'package.path' must be a string"

/-- What is said where a library of machine code would be looked for. -/
def refusal : String := "\n\tcan't load C modules in safe mode"

def run (f : PackageFunction) (args : Args) : Native (Array Value) :=
  match f with
  | .loadlib => throwValue (.failure "safety error: package.loadlib is disabled in safe mode".toUTF8)
  | .searchpath => searchpath args
  | .searchPreload => searchPreload args
  | .searchScript => searchScript args
  | .searchLibrary => one (.ofString refusal)

end Gauge.Script.Package
