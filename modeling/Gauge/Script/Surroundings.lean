import Gauge.Script.Library

/-!
What a script finds when it starts: the tables of the libraries, the global variables, and what
strings and streams answer to.
-/

namespace Gauge.Script.Surroundings

def fields (entries : List (String × Value)) : Table :=
  entries.foldl (fun t e => t.set (.string e.1.toUTF8) e.2) Table.empty

def functions {α : Type} (wrap : α → Builtin) (list : List (String × α)) : List (String × Value) :=
  list.map fun e => (e.1, .builtin (wrap e.2))

/-- The operators that strings take part in as numbers. -/
def stringOperators : List ArithOp := [.add, .sub, .mul, .mod, .pow, .div, .idiv]

/-- The tables there are at the start; each one's number is its place in the list. -/
def globals : Nat := 0
def loaded : Nat := 1
def string : Nat := 2
def table : Nat := 3
def math : Nat := 4
def utf8 : Nat := 5
def coroutine : Nat := 6
def os : Nat := 7
def io : Nat := 8
def package : Nat := 9
def preload : Nat := 10
def searchers : Nat := 11
def stringMeta : Nat := 12
def streamMeta : Nat := 13
def streamMethods : Nat := 14

def libraries : List (String × Value) :=
  [("_G", .table globals), ("string", .table string), ("table", .table table), ("math", .table math),
   ("utf8", .table utf8), ("coroutine", .table coroutine), ("os", .table os), ("io", .table io),
   ("package", .table package)]

def tables : Array Table := #[
  fields (functions .base Builtin.baseFunctions ++ libraries ++
    [("_VERSION", .ofString "Lua 5.4")]),
  fields libraries,
  fields (functions .string Builtin.stringFunctions),
  fields (functions .table Builtin.tableFunctions),
  fields (functions .math Builtin.mathFunctions ++
    [("pi", .float Math.pi), ("huge", .float Math.huge), ("maxinteger", .int Int64.maxValue),
     ("mininteger", .int Int64.minValue)]),
  fields (functions .utf8 Builtin.utf8Functions ++ [("charpattern", .string Utf8.charpattern)]),
  fields (functions .coroutine Builtin.coroutineFunctions),
  fields (functions .os Builtin.osFunctions),
  fields (functions .io Builtin.ioFunctions ++
    [("stdin", .stream Io.input), ("stdout", .stream Io.output), ("stderr", .stream Io.errorOutput)]),
  fields (functions .package Builtin.packageFunctions ++
    [("path", .ofString Package.path), ("cpath", .ofString Package.libraryPath),
     ("config", .ofString Package.config), ("loaded", .table loaded), ("preload", .table preload),
     ("searchers", .table searchers)]),
  Table.empty,
  Table.ofArray #[.builtin (.package .searchPreload), .builtin (.package .searchScript),
    .builtin (.package .searchLibrary)],
  fields (stringOperators.map (fun op => ("__" ++ op.name, .builtin (.string (.arith op)))) ++
    [("__unm", .builtin (.string .minus)), ("__index", .table string)]),
  fields [("__name", .ofString "FILE*"), ("__index", .table streamMethods),
    ("__gc", .builtin (.stream .gc)), ("__close", .builtin (.stream .gc)),
    ("__tostring", .builtin (.stream .tostring))],
  fields (functions .stream Builtin.streamMethods)]

/-- The heap a script starts with. Its main thread is running. -/
def heap : Heap :=
  { Heap.empty with
    tables := tables
    threads := #[⟨.running, none⟩]
    globals := globals, loaded := loaded, package := package, preload := preload
    stringMeta := stringMeta, streamMeta := streamMeta
    random := Math.seeded 0 0
    globals_lt := Nat.zero_lt_succ _ }

end Gauge.Script.Surroundings
