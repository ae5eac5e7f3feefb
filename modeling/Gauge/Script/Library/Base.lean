import Gauge.Script.Chunk
import Gauge.Script.Library.Arguments

/-!
The functions every script has at hand.
-/

namespace Gauge.Script

namespace Base

open Native

/-- Raises an error value; a text gets in front of it the place of the call so many levels up. -/
def raise (v : Value) (level : Int64) : Native (Array Value) := do
  match v with
  | .string s =>
    if level > 0 then
      let view ← inspect
      throwValue (.string (view.placeOf level.toInt.toNat ++ s))
    else throwValue v
  | v => throwValue v

def assert (args : Args) : Native (Array Value) := do
  if (args.value 1).isTruthy then return args
  let _ ← args.any 1
  match args.value? 2 with
  | some v => raise v 1
  | none => raise (.ofString "assertion failed!") 1

def collectgarbage (args : Args) : Native (Array Value) := do
  let option ← args.option 1 (some "collect")
    ["stop", "restart", "collect", "count", "step", "setpause", "setstepmul", "isrunning",
     "generational", "incremental"]
  match option with
  | "count" =>
    let used ← read fun h => h.tables.size + h.closures.size + h.cells.size
    one (.float (20 + Float.ofNat used / 16))
  | "step" => bool true
  | "isrunning" => bool true
  | "setpause" => int 200
  | "setstepmul" => int 100
  | "generational" | "incremental" => one (.ofString "incremental")
  | _ => int 0

def getmetatable (args : Args) : Native (Array Value) := do
  let v ← args.any 1
  let m ← read (·.metatable v)
  match m with
  | none => one .nil
  | some id =>
    let shown ← metamethod v "__metatable".toUTF8
    one (if shown.isNil then .table id else shown)

def setmetatable (args : Args) : Native (Array Value) := do
  let id ← args.table 1
  let new : Option Nat ← match args.value? 2 with
    | some .nil => pure none
    | some (.table m) => pure (some m)
    | _ => args.failKind 2 "nil or table"
  let shown ← metamethod (args.value 1) "__metatable".toUTF8
  if !shown.isNil then failAtCaller "cannot change a protected metatable"
  modifyHeap (·.modifyTable id fun t => { t with metatable := new })
  one (args.value 1)

def ipairs (args : Args) : Native (Array Value) := do
  let v ← args.any 1
  return #[.builtin (.base .ipairsNext), v, .int 0]

def ipairsNext (args : Args) : Native (Array Value) := do
  let i ← args.integer 2
  let v ← index (args.value 1) (.int (i + 1))
  if v.isNil then one .nil else return #[.int (i + 1), v]

def next (args : Args) : Native (Array Value) := do
  let id ← args.table 1
  match ← read fun h => (h.table id).next (args.value 2) with
  | .entry k v => return #[k, v]
  | .finished => one .nil
  | .unknownKey => failAtOperation "invalid key to 'next'"

def pairs (args : Args) : Native (Array Value) := do
  let v ← args.any 1
  let m ← metamethod v "__pairs".toUTF8
  if m.isNil then return #[.builtin (.base .next), v, .nil]
  let r ← call m #[v]
  return #[r.getD 0 .nil, r.getD 1 .nil, r.getD 2 .nil]

/-- The results of a protected call, after whether it went well. -/
def outcome : Except Value (Array Value) → Array Value
  | .ok values => #[.bool true] ++ values
  | .error e => #[.bool false, e]

def pcall (args : Args) : Native (Array Value) := do
  if args.isEmpty then throwValue (.ofString "not enough arguments to pcall")
  return outcome (← protect none (args.value 1) (args.extract 1 args.size))

def xpcall (args : Args) : Native (Array Value) := do
  if args.size < 2 then throwValue (.ofString "not enough arguments to xpcall")
  return outcome (← protect (some (args.value 2)) (args.value 1) (args.extract 2 args.size))

def printFrom (args : Args) (i : Nat) : Nat → Native Unit
  | 0 => modifyHeap fun h => (h.act (.write (ByteArray.mk #[10]))).act .release
  | n + 1 => do
    let s ← toText (args.getD i .nil)
    let s := if i > 0 then ByteArray.mk #[9] ++ s else s
    modifyHeap fun h => h.act (.write s)
    printFrom args (i + 1) n

def print (args : Args) : Native (Array Value) := do
  printFrom args 0 args.size
  none_

def rawequal (args : Args) : Native (Array Value) := do
  let a ← args.any 1
  let b ← args.any 2
  bool (a.rawEquals b)

def rawget (args : Args) : Native (Array Value) := do
  let id ← args.table 1
  let k ← args.any 2
  one (← read fun h => (h.table id).getValue k)

def rawlen (args : Args) : Native (Array Value) := do
  match args.value 1 with
  | .table id => nat (← read fun h => (h.table id).length)
  | .string s => nat s.size
  | _ => args.failKind 1 "table or string"

def rawset (args : Args) : Native (Array Value) := do
  let id ← args.table 1
  let k ← args.any 2
  let v ← args.any 3
  rawSet id k v
  one (args.value 1)

def select (args : Args) : Native (Array Value) := do
  let rest := args.size - 1
  if (match args.value 1 with
    | .string s => s.byte 0 == 35
    | _ => false) then nat rest
  else
    let i ← args.integer 1
    let i := i.toInt
    let i : Int := if i < 0 then rest + 1 + i else if i > rest + 1 then rest + 1 else i
    if i < 1 then failArgument 1 "index out of range"
    return args.extract i.toNat args.size

/-- The integer a text stands for in a base, spaces around it aside. -/
def readInBase? (s : ByteArray) (base : Nat) : Option Int64 :=
  let (negative, i) := Numeral.sign s (Numeral.skipSpaces s 0)
  let (n, j) := Numeral.digitsFrom s base i 0
  if j == i || !Numeral.onlySpaces s j || (s.byte j).isAlphanumeric then none
  else
    let v := Int64.ofNat n
    some (if negative then 0 - v else v)

def tonumber (args : Args) : Native (Array Value) := do
  if args.isAbsent 2 then
    match args.value 1 with
    | .string s =>
      match Numeral.read? s with
      | some n => one (.ofNumeral n)
      | none => one .nil
    | v =>
      match v.numeral? with
      | some n => one (.ofNumeral n)
      | none =>
        let _ ← args.any 1
        one .nil
  else
    let base ← args.integer 2
    match args.value 1 with
    | .string s =>
      if base < 2 || base > 36 then failArgument 2 "base out of range"
      match readInBase? s base.toInt.toNat with
      | some n => int n
      | none => one .nil
    | _ => args.failKind 1 "string"

def tostring (args : Args) : Native (Array Value) := do
  let v ← args.any 1
  text (← toText v)

def type (args : Args) : Native (Array Value) := do
  let v ← args.any 1
  one (.ofString v.kind.name)

def warn (args : Args) : Native (Array Value) := do
  let _ ← args.text 1
  forBelow (fun i => do let _ ← args.text (i + 1)) args.size
  none_

/-- A closure of a whole script, with the given value as its environment. -/
def closureOf (code : Code) (source : ByteArray) (environment : Value) : Native Value :=
  update fun h =>
    let (cell, h) := h.newCell environment
    let rest := (List.range (code.captures.size - 1)).foldl (fun (acc : Array Nat × Heap) _ =>
      let (c, h) := acc.2.newCell .nil
      (acc.1.push c, h)) (#[cell], h)
    let (id, h) := rest.2.newClosure ⟨code, rest.1, source⟩
    (.closure id, h)

/-- What a dumped function is written as: the header of binary code and the number of the function. -/
def dumped (id : Nat) : ByteArray :=
  ByteArray.ofList (Chunk.binaryMark :: Chunk.binaryHeader.flatMap (·.1)) ++ (toString id).toUTF8

/-- The function that a dumped text is of. -/
def undumped? (code : ByteArray) : Option Nat :=
  let header := (dumped 0).size - 1
  let (id, stop) := Numeral.digitsFrom code 10 header 0
  if stop == code.size && code.size > header && dumped id == code then some id else none

/-- Loads a text as a function with the given environment. -/
def loadText (code name mode : ByteArray) (environment : Value) :
    Native (Except ByteArray Value) := do
  let isBinary := code.byte 0 == Chunk.binaryMark && code.size > 0
  let kind := if isBinary then "binary" else "text"
  let allowed := mode.toList.contains (if isBinary then 98 else 116)
  if !allowed then
    return .error (("attempt to load a " ++ kind ++ " chunk (mode is '").toUTF8 ++ mode.untilNul ++
      "')".toUTF8)
  if isBinary then
    let found ← read fun h => (undumped? code).bind (h.closures[·]?)
    match found with
    | some c => return .ok (← closureOf c.code c.source environment)
    | none => return .error (Chunk.binaryMessage code name)
  else
    let view ← inspect
    let source := Chunk.sourceOf name
    match Chunk.read code source view.depth with
    | .ok c => return .ok (← closureOf c source environment)
    | .error e => return .error e.message

/-- Joins the pieces that a function gives until it gives nothing more. -/
def readPieces (f : Value) (acc : ByteArray) : Nat → Native (Except Value ByteArray)
  | 0 => return .ok acc
  | fuel + 1 => do
    match ← call1 f #[] with
    | .nil => return .ok acc
    | v =>
      match v.text? with
      | some s => if s.size == 0 then return .ok acc else readPieces f (acc ++ s) fuel
      | none => return .error (.ofString "reader function must return a string")

/-- How many pieces of a script a function may give. -/
def maxPieces : Nat := 2 ^ 32

def finishLoad : Except ByteArray Value → Native (Array Value)
  | .ok f => one f
  | .error message => return #[.nil, .string message]

def load (args : Args) : Native (Array Value) := do
  let globals ← read (·.globals)
  let environment := (args.value? 4).getD (.table globals)
  let mode ← args.optText 3 "bt".toUTF8
  match (args.value 1).text? with
  | some code =>
    let name ← args.optText 2 code
    finishLoad (← loadText code name mode environment)
  | none =>
    let name ← args.optText 2 "=(load)".toUTF8
    let f ← args.function 1
    match ← protect none (.builtin (.base .loadPieces)) #[f] with
    | .error e => return #[.nil, e]
    | .ok pieces =>
      match pieces.getD 0 .nil with
      | .string code => finishLoad (← loadText code name mode environment)
      | _ => return #[.nil, pieces.getD 1 .nil]

/-- Collects the pieces of a script for `load`. -/
def loadPieces (f : Value) : Native (Array Value) := do
  match ← readPieces f ByteArray.empty maxPieces with
  | .ok code => text code
  | .error e => throwValue e

/-- Files are out of reach of scripts. -/
def missingFile (name : ByteArray) : ByteArray :=
  "cannot open ".toUTF8 ++ name.untilNul ++ ": No such file or directory".toUTF8

def loadfile (args : Args) : Native (Array Value) := do
  if args.isAbsent 1 then
    let globals ← read (·.globals)
    finishLoad (← loadText ByteArray.empty "=stdin".toUTF8 "bt".toUTF8 (.table globals))
  else
    let name ← args.text 1
    return #[.nil, .string (missingFile name)]

def dofile (args : Args) : Native (Array Value) := do
  if args.isAbsent 1 then none_
  else
    let name ← args.text 1
    throwValue (.string (missingFile name))

/-- Asks one searcher after another for a loader of a package. -/
def search (name : ByteArray) (searchers : Value) (i : Nat) (missing : ByteArray) :
    Nat → Native (Value × Value)
  | 0 => failAtCaller "module search does not end"
  | fuel + 1 => do
    let searcher ← match searchers with
      | .table id => read fun h => (h.table id).getInt (Int64.ofNat i)
      | _ => pure .nil
    if searcher.isNil then
      fail (.atCaller ("module '".toUTF8 ++ name.untilNul ++ "' not found:".toUTF8 ++ missing))
    let r ← call searcher #[.string name]
    let found := r.getD 0 .nil
    if isCallable found then return (found, r.getD 1 .nil)
    else
      let note := match found.text? with
        | some s => "\n\t".toUTF8 ++ s
        | none => ByteArray.empty
      search name searchers (i + 1) (missing ++ note) fuel

def require (args : Args) : Native (Array Value) := do
  let name ← args.text 1
  let loaded ← read (·.loaded)
  let known ← index (.table loaded) (.string name)
  if known.isTruthy then return #[known]
  let package ← read (·.package)
  let searchers ← index (.table package) (.ofString "searchers")
  match searchers with
  | .table _ => pure ()
  | _ => failAtCaller "'package.searchers' must be a table"
  let (loader, note) ← search name searchers 1 ByteArray.empty 1000
  let r ← call1 loader #[.string name, note]
  if !r.isNil then setIndex (.table loaded) (.string name) r
  let now ← index (.table loaded) (.string name)
  let result := if now.isNil then Value.bool true else now
  if now.isNil then setIndex (.table loaded) (.string name) result
  return #[result, note]

def run (f : BaseFunction) (args : Args) : Native (Array Value) :=
  match f with
  | .assert => assert args
  | .collectgarbage => collectgarbage args
  | .dofile => dofile args
  | .error => do raise (args.value 1) (← args.optInteger 2 1)
  | .getmetatable => getmetatable args
  | .ipairs => ipairs args
  | .ipairsNext => ipairsNext args
  | .load => load args
  | .loadPieces => loadPieces (args.value 1)
  | .loadfile => loadfile args
  | .next => next args
  | .pairs => pairs args
  | .pcall => pcall args
  | .print => print args
  | .rawequal => rawequal args
  | .rawget => rawget args
  | .rawlen => rawlen args
  | .rawset => rawset args
  | .require => require args
  | .select => select args
  | .setmetatable => setmetatable args
  | .tonumber => tonumber args
  | .tostring => tostring args
  | .type => type args
  | .warn => warn args
  | .xpcall => xpcall args

end Base

end Gauge.Script
