import Gauge.Script.Library.Os
import Gauge.Numeral.Fixed

/-!
Streams. There are the three standard ones: the input is empty, and what is written to the others is
told in the heap. No other file can be opened.
-/

namespace Gauge.Script.Io

open Native

def input : Nat := 0
def output : Nat := 1
def errorOutput : Nat := 2

def stream (args : Args) (i : Nat) : Native Nat := do
  match args.value i with
  | .stream id => return id
  | _ => args.failKind i "FILE*"

/-- What is written for a value; of a float, fourteen significant digits. -/
def written (args : Args) (i : Nat) : Native ByteArray := do
  match args.value i with
  | .float x =>
    match x.decode with
    | .finite negative m e =>
      return ((if negative then "-" else "") ++ Fixed.general 14 false m e).toUTF8
    | _ => args.text i
  | _ => args.text i

def append (id : Nat) (s : ByteArray) : Native Unit := modifyHeap fun h =>
  if id == output then h.act (.write s)
  else if id == errorOutput then h.act (.complain s)
  else h

/-- Lets out what is held back of a stream. -/
def flush (id : Nat) : Native (Array Value) := do
  modifyHeap fun h => if id == output then h.act .release else h
  bool true

/-- How the modes of a stream hold back what is written to it. -/
def bufferings : List (String × Buffering) := [("no", .never), ("full", .bySize), ("line", .byLine)]

def setBuffering (id : Nat) (mode : String) : Native (Array Value) := do
  match bufferings.lookup mode with
  | some b =>
    modifyHeap fun h => if id == output then h.act (.setBuffering b) else h
  | none => pure ()
  bool true

/-- Writes the arguments from the one after the first `skipped` on. -/
def writeFrom (id : Nat) (args : Args) (skipped : Nat) : Nat → Native Unit
  | 0 => pure ()
  | n + 1 => do
    writeFrom id args skipped n
    append id (← written args (skipped + n + 1))

def write (id : Nat) (args : Args) (skipped : Nat) : Native (Array Value) := do
  if id == input && args.size > skipped then
    return #[.nil, .ofString "Bad file descriptor", .int 9]
  writeFrom id args skipped (args.size - skipped)
  one (.stream id)

/-- What reading gives at the end of a stream, by a format; nothing if the stream has no such thing
left. -/
def readAtEnd (args : Args) (i : Nat) : Native (Option ByteArray) := do
  match args.value i with
  | .int _ | .float _ =>
    let _ ← args.integer i
    return none
  | _ =>
    let s ← args.text i
    let letter := if s.byte 0 == 42 then s.byte 1 else s.byte 0
    if letter == 97 then return some ByteArray.empty
    else if letter == 110 || letter == 108 || letter == 76 then return none
    else failArgument i "invalid format"

def readFrom (args : Args) (i : Nat) (acc : Array Value) : Nat → Native (Array Value)
  | 0 => return acc
  | n + 1 => do
    match ← readAtEnd args i with
    | some s => readFrom args (i + 1) (acc.push (.string s)) n
    | none => return acc.push .nil

def read (id : Nat) (args : Args) (skipped : Nat) : Native (Array Value) := do
  if id != input then return #[.nil, .ofString "Bad file descriptor", .int 9]
  if args.size ≤ skipped then one .nil
  else readFrom args (skipped + 1) #[] (args.size - skipped)

def refuseClosing : Native (Array Value) := return #[.nil, .ofString "cannot close standard file"]

/-- A stream to be used where none is named: the given one, or the one in use. -/
def current (args : Args) (get : Heap → Nat) (set : Nat → Heap → Heap) : Native (Array Value) := do
  if !args.isAbsent 1 then
    match (args.value 1).text? with
    | some name =>
      fail (.atCaller ("cannot open file '".toUTF8 ++ name.untilNul ++
        "' (No such file or directory)".toUTF8))
    | none =>
      let id ← stream args 1
      modifyHeap (set id)
  one (.stream (← Native.read get))

def isMode (mode : ByteArray) : Bool :=
  match mode.toList with
  | letter :: rest =>
    (letter == 114 || letter == 119 || letter == 97) &&
      (rest == [] || rest == [43] || rest == [98] || rest == [43, 98])
  | [] => false

def open_ (args : Args) : Native (Array Value) := do
  let name ← args.text 1
  let mode ← args.optText 2 "r".toUTF8
  if !isMode mode then failArgument 2 "invalid mode"
  return Os.missing (some name)

def lines (args : Args) : Native (Array Value) := do
  if args.isAbsent 1 then
    one (.builtin (.reads (← Native.read (·.currentInput))))
  else
    let name ← args.text 1
    fail (.atCaller (name.untilNul ++ ": No such file or directory".toUTF8))

def type (args : Args) : Native (Array Value) := do
  match ← args.any 1 with
  | .stream _ => one (.ofString "file")
  | _ => one .nil

def run (f : IoFunction) (args : Args) : Native (Array Value) := do
  match f with
  | .close =>
    if args.value? 1 |>.isSome then
      let _ ← stream args 1
    refuseClosing
  | .flush => flush (← Native.read (·.currentOutput))
  | .input => current args (·.currentInput) fun id h => { h with currentInput := id }
  | .lines => lines args
  | .open => open_ args
  | .output => current args (·.currentOutput) fun id h => { h with currentOutput := id }
  | .popen => failAtCaller "'popen' not supported"
  | .read => read (← Native.read (·.currentInput)) args 0
  | .tmpfile => return Os.missing none
  | .type => type args
  | .write => write (← Native.read (·.currentOutput)) args 0

def runMethod (f : StreamMethod) (args : Args) : Native (Array Value) := do
  let id ← stream args 1
  match f with
  | .close => refuseClosing
  | .flush => flush id
  | .lines => one (.builtin (.reads id))
  | .read => read id args 1
  | .seek =>
    let _ ← args.option 2 (some "cur") ["set", "cur", "end"]
    let _ ← args.optInteger 3 0
    int 0
  | .setvbuf =>
    setBuffering id (← args.option 2 none (bufferings.map (·.1)))
  | .write => write id args 1
  | .gc => none_
  | .tostring => text ("file (".toUTF8 ++ (addressOf (.stream id)).toUTF8 ++ ")".toUTF8)

end Gauge.Script.Io
