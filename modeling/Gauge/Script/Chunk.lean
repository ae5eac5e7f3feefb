import Gauge.Script.Code.Generator

/-!
Reading a script into code, and what messages call the script.
-/

namespace Gauge.Script.Chunk

/-- The longest name of a script in messages, with one byte to spare. -/
def nameSize : Nat := 60

/-- What messages call a script of the given name: the name itself if it is marked as such by `=` or
`@`, else the first line of the text it stands for, in brackets. -/
def sourceOf (name : ByteArray) : ByteArray :=
  let name := name.untilNul
  let mark := name.byte 0
  if mark == 61 then name.extract 1 nameSize
  else if mark == 64 then
    if name.size ≤ nameSize then name.extract 1 name.size
    else "...".toUTF8 ++ name.extract (name.size + 4 - nameSize) name.size
  else
    let room := nameSize - 15
    let line := match name.findByte? 10 0 with
      | some i => name.extract 0 i
      | none => name
    let shown :=
      if line.size == name.size && name.size < room then name
      else line.extract 0 room ++ "...".toUTF8
    "[string \"".toUTF8 ++ shown ++ "\"]".toUTF8

/-- Why a text does not load. -/
inductive Failure where
  /-- The text is no script. -/
  | malformed (message : ByteArray)
  /-- It nests too deep to be read. -/
  | tooDeep

def Failure.message : Failure → ByteArray
  | .malformed message => message
  | .tooDeep => "C stack overflow".toUTF8

/-- The place of a line in a script, as a message begins with it. -/
def place (source : ByteArray) (line : Nat) : ByteArray :=
  source ++ (":" ++ toString line ++ ": ").toUTF8

def read (code source : ByteArray) (depth : Nat) : Except Failure Code :=
  match Function.read code depth with
  | .ok f => .ok (Code.ofFunction f)
  | .error (.at line message) => .error (.malformed (place source line ++ message))
  | .error .tooDeep => .error .tooDeep

/-- The first byte of code in binary form. -/
def binaryMark : UInt8 := 27

/-- What binary code begins with, in parts, and the complaint about a wrong one. -/
def binaryHeader : List (List UInt8 × String) :=
  [([76, 117, 97], "not a binary chunk"), ([0x54], "version mismatch"), ([0], "format mismatch"),
   ([0x19, 0x93, 13, 10, 0x1a, 10], "corrupted chunk"), ([4], "Instruction size mismatch"),
   ([8], "lua_Integer size mismatch"), ([8], "lua_Number size mismatch"),
   ([0x78, 0x56, 0, 0, 0, 0, 0, 0], "integer format mismatch"),
   ([0, 0, 0, 0, 0, 0x28, 0x77, 0x40], "float format mismatch")]

def binaryComplaint : List UInt8 → List (List UInt8 × String) → String
  | _, [] => "truncated chunk"
  | bytes, (part, complaint) :: rest =>
    if bytes.length < part.length then "truncated chunk"
    else if bytes.take part.length == part then binaryComplaint (bytes.drop part.length) rest
    else complaint

/-- Why binary code from elsewhere is not accepted. -/
def binaryMessage (code name : ByteArray) : ByteArray :=
  let mark := name.byte 0
  let shown :=
    if mark == 61 || mark == 64 then name.untilNul.extract 1 name.size
    else if mark == binaryMark then "binary string".toUTF8
    else name.untilNul
  shown ++ (": bad binary format (" ++
    binaryComplaint (code.toList.drop 1) binaryHeader ++ ")").toUTF8

end Gauge.Script.Chunk
