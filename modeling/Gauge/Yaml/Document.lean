import Gauge.Yaml.Event.Grammar
import Gauge.Yaml.Node

/-!
The first document of a text, its aliases resolved. What is wrong in the text matters only to a
reader who gets that far.
-/

namespace Gauge.Yaml

inductive LoadProblem where
  | malformed (e : Malformed)
  | unknownAnchor (mark : Mark)
deriving DecidableEq, Repr

def LoadProblem.message : LoadProblem → String
  | .malformed e => e.message
  | .unknownAnchor m => "unknown anchor" ++ m.text

structure Document where
  parts : List Part
  failure : Option LoadProblem
  /-- Whether the text goes on with something else. -/
  hasMore : Bool

namespace Document

/-- What has been loaded: parts in reverse, the number given to each name by the last anchor of that
name, and where the node with each number begins. -/
structure Loaded where
  size : Nat
  parts : List Part
  names : List (String × Nat)
  positions : List (Nat × Nat)

namespace Loaded

def empty : Loaded := ⟨0, [], [], []⟩

def push (l : Loaded) (p : Part) : Loaded := { l with size := l.size + 1, parts := p :: l.parts }

/-- Numbers an anchor at the position reached. Its number is how many names there have been, so that
a name that is used again takes a number that a later name takes too. -/
def anchor (l : Loaded) : Option String → Loaded
  | none => l
  | some name =>
    let number := l.names.length
    { l with
      names := (name, number) :: l.names.filter (·.1 != name)
      positions := (number, l.size) :: l.positions }

/-- An alias refers to the position its number has in the end. -/
def settle (l : Loaded) : Part → Part
  | .alias number m => .alias ((l.positions.lookup number).getD 0) m
  | p => p

def document (l : Loaded) (failure : Option LoadProblem) (hasMore : Bool) : Document :=
  ⟨(l.parts.map l.settle).reverse, failure, hasMore⟩

end Loaded

/-- Loads events up to the end of the document. -/
def load (failure : Option Malformed) : Loaded → List Event → Document
  | l, [] => l.document (failure.map .malformed) false
  | l, e :: rest =>
    match e.happening with
    | .documentStart => load failure l rest
    | .streamEnd => (l.push (.scalar ⟨"", .plain, none⟩ e.mark)).document none false
    | .documentEnd =>
      let hasMore := match rest with
        | ⟨.streamEnd, _⟩ :: _ => false
        | _ => true
      l.document none hasMore
    | .alias name =>
      match l.names.lookup name with
      | some number => load failure (l.push (.alias number e.mark)) rest
      | none => l.document (some (.unknownAnchor e.mark)) false
    | .scalar anchor s => load failure ((l.anchor anchor).push (.scalar s e.mark)) rest
    | .sequenceStart anchor => load failure ((l.anchor anchor).push (.sequenceStart e.mark)) rest
    | .mappingStart anchor => load failure ((l.anchor anchor).push (.mappingStart e.mark)) rest
    | .sequenceEnd | .mappingEnd => load failure (l.push .finish) rest

/-- The first document of a text. An empty text has an empty node in it. -/
def ofText (text : String) : Document :=
  let (tokens, failure) := Token.scan text
  let (events, failure) := Event.ofTokens tokens failure
  load failure .empty events

/-- The node that begins at a position. -/
def nodeAt (d : Document) (position : Nat) : Node := .ofParts (d.parts.drop position)

def root (d : Document) : Node := d.nodeAt 0

end Document

end Gauge.Yaml
