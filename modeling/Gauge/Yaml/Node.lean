import Gauge.Yaml.Event

/-!
Nodes, which are the events of a document put together. Where the events break off, a node is
missing, and all around it that would come later.
-/

namespace Gauge.Yaml

inductive Node where
  | scalar (s : Scalar) (mark : Mark)
  | sequence (items : List Node) (mark : Mark)
  | mapping (entries : List (Node × Node)) (mark : Mark)
  /-- The node that begins with the event at a position of the document. -/
  | alias (position : Nat) (mark : Mark)
  | missing

/-- A part of a document: an event whose aliases are known. -/
inductive Part where
  | scalar (s : Scalar) (mark : Mark)
  | sequenceStart (mark : Mark)
  | mappingStart (mark : Mark)
  | alias (position : Nat) (mark : Mark)
  | finish

namespace Node

/-- A collection that is still open, with its items in reverse, and in a mapping a key that waits
for its value. -/
inductive Frame where
  | sequence (items : List Node) (mark : Mark)
  | mapping (entries : List (Node × Node)) (key : Option Node) (mark : Mark)

namespace Frame

def add (n : Node) : Frame → Frame
  | .sequence items m => .sequence (n :: items) m
  | .mapping entries none m => .mapping entries (some n) m
  | .mapping entries (some k) m => .mapping ((k, n) :: entries) none m

def close : Frame → Node
  | .sequence items m => .sequence items.reverse m
  | .mapping entries none m => .mapping entries.reverse m
  | .mapping entries (some k) m => .mapping ((k, .missing) :: entries).reverse m

/-- The node of a collection that breaks off after the node `n`. -/
def breakOff (n : Node) : Frame → Node
  | .sequence items m => .sequence (n :: items).reverse m
  | .mapping entries none m => .mapping ((n, .missing) :: entries).reverse m
  | .mapping entries (some k) m => .mapping ((k, n) :: entries).reverse m

end Frame

/-- The first node of some parts, inside of the collections that are open. -/
def build : List Frame → List Part → Node
  | frames, [] => frames.foldl (fun n f => f.breakOff n) .missing
  | [], .scalar s m :: _ => .scalar s m
  | [], .alias p m :: _ => .alias p m
  | [], .finish :: _ => .missing
  | f :: frames, .scalar s m :: rest => build (f.add (.scalar s m) :: frames) rest
  | f :: frames, .alias p m :: rest => build (f.add (.alias p m) :: frames) rest
  | frames, .sequenceStart m :: rest => build (.sequence [] m :: frames) rest
  | frames, .mappingStart m :: rest => build (.mapping [] none m :: frames) rest
  | [f], .finish :: _ => f.close
  | f :: g :: frames, .finish :: rest => build (g.add f.close :: frames) rest

/-- The node that the parts begin with. -/
def ofParts (parts : List Part) : Node := build [] parts

end Node

end Gauge.Yaml
