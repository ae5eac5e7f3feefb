/-!
What scripts write. They write to the streams of the program that runs them, so that what becomes of the
output of one can depend on what others have done before; a transcript only tells what a script has done.
Output is held back until it is released, which a script can ask for; complaints come out at once.
-/

namespace Gauge.Script

/-- When output is released without being asked for. -/
inductive Buffering where
  | never
  | byLine
  /-- When there is too much of it to hold. -/
  | bySize
deriving DecidableEq, Repr

/-- What a script can do to the streams. -/
inductive StreamAct where
  | write (s : ByteArray)
  | release
  /-- Changes how output is held back from now on. -/
  | setBuffering (b : Buffering)
  | complain (s : ByteArray)

structure Transcript where
  acts : Array StreamAct
  /-- The exit code with which the script has ended the program, if it has. -/
  exit : Option Nat

namespace Transcript

def empty : Transcript := ⟨#[], none⟩

/-- One transcript after another. Once the program has ended there is no other. -/
def append (t u : Transcript) : Transcript :=
  match t.exit with
  | some _ => t
  | none => ⟨t.acts ++ u.acts, u.exit⟩

end Transcript

/-- The streams of the program. -/
structure Streams where
  output : ByteArray
  /-- How many bytes of the output have come out. -/
  released : Nat
  buffering : Buffering
  complaints : ByteArray

namespace Streams

def start : Streams := ⟨ByteArray.empty, 0, .bySize, ByteArray.empty⟩

/-- How many bytes of output can be held back. -/
def capacity : Nat := 4096

def release (s : Streams) : Streams := { s with released := s.output.size }

/-- How many bytes there are after the last line feed, if there is one. -/
def afterLastLine? (text : ByteArray) : Option Nat :=
  let rest := text.toList.reverse
  if rest.contains 10 then some (rest.takeWhile (· != 10)).length else none

def write (s : Streams) (text : ByteArray) : Streams :=
  let s' := { s with output := s.output ++ text }
  match s.buffering with
  | .never => s'.release
  | .byLine =>
    match afterLastLine? text with
    | some n => { s' with released := s'.output.size - n }
    | none => s'
  | .bySize =>
    let held := s'.output.size - s.released
    if held ≤ capacity then s' else { s' with released := s'.output.size - held % capacity }

/-- Changes how output is held back. What is held back comes out if nothing is to be any more. -/
def setBuffering (s : Streams) (b : Buffering) : Streams :=
  if b == .never then { s.release with buffering := b } else { s with buffering := b }

def after (s : Streams) : StreamAct → Streams
  | .write text => s.write text
  | .release => s.release
  | .setBuffering b => s.setBuffering b
  | .complain text => { s with complaints := s.complaints ++ text }

end Streams

/-- The streams after all that a transcript tells of. -/
def Transcript.streams (t : Transcript) : Streams := t.acts.foldl Streams.after .start

end Gauge.Script
