import Gauge.Yaml.Event
import Gauge.Yaml.Token.Lexer

/-!
The events that tokens stand for. What is expected next is a stack of what the open collections wait
for, the innermost on top; each step takes the top of it and yields one event.
-/

namespace Gauge.Yaml

/-- What a text goes on with. A collection knows where it began. -/
inductive Expectation where
  /-- A document, which may begin without saying so if it is the first. -/
  | document (isFirst : Bool)
  | documentContent
  | documentNode
  | documentEnd
  | blockEntry (since : Mark)
  | indentlessEntry
  | blockKey (since : Mark)
  | blockValue
  | flowEntry (since : Mark) (isFirst : Bool)
  | pairKey | pairValue | pairEnd
  | flowKey (since : Mark) (isFirst : Bool)
  | flowValue
  | flowNoValue
deriving DecidableEq, Repr

structure Grammar where
  tokens : List Token
  /-- Why there are no more tokens. -/
  failure : Option Malformed
  expected : List Expectation
  /-- What the handles of tags stand for. -/
  handles : List (String × String)

abbrev Parse (α : Type) : Type := StateT Grammar (Except Malformed) α

namespace Parse

def peek : Parse Token := do
  let g ← get
  match g.tokens, g.failure with
  | t :: _, _ => return t
  | [], some e => throw e
  | [], none => return ⟨.streamEnd, .start, .start⟩

def skip : Parse Unit := modify fun g => { g with tokens := g.tokens.tail }

/-- Makes something the next that is expected. -/
def expect (x : Expectation) : Parse Unit := modify fun g => { g with expected := x :: g.expected }

def fail {α : Type} (problem : Problem) (m : Mark) (during : Option (Activity × Mark)) : Parse α :=
  throw ⟨problem, .mark m, during⟩

/-- A node of which nothing is written. -/
def empty (m : Mark) : Parse Event := return ⟨.scalar none ⟨"", .plain, none⟩, m⟩

/-! Directives. -/

def standardHandles : List (String × String) := [("!", "!"), ("!!", "tag:yaml.org,2002:")]

def directivesFrom : Nat → Bool → List (String × String) → Parse (List (String × String))
  | 0, _, handles => return handles
  | fuel + 1, hasVersion, handles => do
    let t ← peek
    match t.lexeme with
    | .versionDirective major minor =>
      if hasVersion then fail .versionTwice t.first none
      else if major != 1 || (minor != 1 && minor != 2) then fail .versionForeign t.first none
      else
        skip
        directivesFrom fuel true handles
    | .tagDirective handle expansion =>
      if (handles.lookup handle).isSome then fail .handleTwice t.first none
      else
        skip
        directivesFrom fuel hasVersion (handles ++ [(handle, expansion)])
    | _ => return handles

/-- The directives before a document. -/
def directives : Parse Unit := do
  let handles ← directivesFrom ((← get).tokens.length + 1) false []
  modify fun g => { g with handles := handles ++ standardHandles }

/-! Documents. -/

def skipDocumentEnds : Nat → Parse Unit
  | 0 => return ()
  | fuel + 1 => do
    if (← peek).lexeme == .documentEnd then
      skip
      skipDocumentEnds fuel

def isBeforeContent : Lexeme → Bool
  | .versionDirective .. | .tagDirective .. | .documentStart | .streamEnd => true
  | _ => false

def document (isFirst : Bool) : Parse Event := do
  if !isFirst then skipDocumentEnds ((← get).tokens.length + 1)
  let t ← peek
  if isFirst && !isBeforeContent t.lexeme then
    directives
    expect .documentEnd
    expect .documentNode
    return ⟨.documentStart, t.first⟩
  else if t.lexeme == .streamEnd then
    skip
    return ⟨.streamEnd, t.first⟩
  else
    directives
    let u ← peek
    if u.lexeme == .documentStart then
      skip
      expect .documentEnd
      expect .documentContent
      return ⟨.documentStart, t.first⟩
    else fail .documentExpected u.first none

def documentEnd : Parse Event := do
  let t ← peek
  if t.lexeme == .documentEnd then skip
  expect (.document false)
  return ⟨.documentEnd, t.first⟩

/-! Nodes. -/

/-- What is told of a node before the node itself. -/
structure Properties where
  anchor : Option String
  tag : Option (String × String × Mark)

def anchor : Parse (Option String) := do
  match (← peek).lexeme with
  | .anchor name =>
    skip
    return some name
  | _ => return none

def tag : Parse (Option (String × String × Mark)) := do
  let t ← peek
  match t.lexeme with
  | .tag handle suffix =>
    skip
    return some (handle, suffix, t.first)
  | _ => return none

/-- An anchor and a tag, in either order. -/
def properties : Parse Properties := do
  match ← anchor with
  | some name => return ⟨some name, ← tag⟩
  | none =>
    match ← tag with
    | some t => return ⟨← anchor, some t⟩
    | none => return ⟨none, none⟩

/-- The tag that a handle and a suffix stand for. -/
def resolve (since : Mark) : String × String × Mark → Parse String
  | (handle, suffix, m) => do
    if handle.isEmpty then return suffix
    else
      match (← get).handles.lookup handle with
      | some expansion => return expansion ++ suffix
      | none => fail .handleUnknown m (some (.node, since))

/-- The node at hand. Block collections begin only in a block; a sequence that is not indented only
where a mapping has its keys and values. -/
def node (inBlock canBeIndentless : Bool) : Parse Event := do
  let since := (← peek).first
  match (← peek).lexeme with
  | .alias name =>
    skip
    return ⟨.alias name, since⟩
  | _ =>
    let p ← properties
    let t ← peek
    let tag : Option String ← match p.tag with
      | some t => do pure (some (← resolve since t))
      | none => pure none
    match t.lexeme, inBlock, canBeIndentless with
    | .blockEntry, _, true =>
      expect .indentlessEntry
      return ⟨.sequenceStart p.anchor, since⟩
    | .scalar value style, _, _ =>
      skip
      return ⟨.scalar p.anchor ⟨value, style, tag.filter (· != "!")⟩, since⟩
    | .flowSequenceStart, _, _ =>
      skip
      expect (.flowEntry t.first true)
      return ⟨.sequenceStart p.anchor, since⟩
    | .flowMappingStart, _, _ =>
      skip
      expect (.flowKey t.first true)
      return ⟨.mappingStart p.anchor, since⟩
    | .blockSequenceStart, true, _ =>
      skip
      expect (.blockEntry t.first)
      return ⟨.sequenceStart p.anchor, since⟩
    | .blockMappingStart, true, _ =>
      skip
      expect (.blockKey t.first)
      return ⟨.mappingStart p.anchor, since⟩
    | _, _, _ =>
      if p.anchor.isSome || tag.isSome then return ⟨.scalar p.anchor ⟨"", .plain, tag⟩, since⟩
      else
        fail .contentExpected t.first (some (if inBlock then .blockNode else .flowNode, since))

/-- The node at hand, or none if what ends it is at hand already. -/
def nodeUnless (ends : Lexeme → Bool) (emptyAt : Mark) (inBlock canBeIndentless : Bool) :
    Parse Event := do
  if ends (← peek).lexeme then empty emptyAt else node inBlock canBeIndentless

/-! Collections in blocks. -/

def blockEntry (since : Mark) : Parse Event := do
  let t ← peek
  match t.lexeme with
  | .blockEntry =>
    skip
    expect (.blockEntry since)
    nodeUnless (fun x => x == .blockEntry || x == .blockEnd) t.last true false
  | .blockEnd =>
    skip
    return ⟨.sequenceEnd, t.first⟩
  | _ => fail .dashExpected t.first (some (.blockSequence, since))

def isMappingMark : Lexeme → Bool
  | .key | .value | .blockEnd => true
  | _ => false

def indentlessEntry : Parse Event := do
  let t ← peek
  if t.lexeme == .blockEntry then
    skip
    expect .indentlessEntry
    nodeUnless (fun x => x == .blockEntry || isMappingMark x) t.last true false
  else return ⟨.sequenceEnd, t.first⟩

def blockKey (since : Mark) : Parse Event := do
  let t ← peek
  match t.lexeme with
  | .key =>
    skip
    expect (.blockKey since)
    expect .blockValue
    nodeUnless isMappingMark t.last true true
  | .blockEnd =>
    skip
    return ⟨.mappingEnd, t.first⟩
  | _ => fail .keyExpected t.first (some (.blockMapping, since))

def blockValue : Parse Event := do
  let t ← peek
  if t.lexeme == .value then
    skip
    nodeUnless isMappingMark t.last true true
  else empty t.first

/-! Collections in brackets. -/

def flowEntry (since : Mark) (isFirst : Bool) : Parse Event := do
  let t ← peek
  if t.lexeme != .flowSequenceEnd && !isFirst then
    if t.lexeme == .flowEntry then skip
    else fail .commaOrBracketExpected t.first (some (.flowSequence, since))
  let t ← peek
  match t.lexeme with
  | .flowSequenceEnd =>
    skip
    return ⟨.sequenceEnd, t.first⟩
  | .key =>
    skip
    expect (.flowEntry since false)
    expect .pairKey
    return ⟨.mappingStart none, t.first⟩
  | _ =>
    expect (.flowEntry since false)
    node false false

def isSequenceMark : Lexeme → Bool
  | .flowEntry | .flowSequenceEnd => true
  | _ => false

/-- The key of a pair that is an item of a sequence. A mark in its place is passed over. -/
def pairKey : Parse Event := do
  let t ← peek
  expect .pairValue
  if t.lexeme == .value || isSequenceMark t.lexeme then
    skip
    empty t.last
  else node false false

def pairValue : Parse Event := do
  let t ← peek
  expect .pairEnd
  if t.lexeme == .value then
    skip
    nodeUnless isSequenceMark (← peek).first false false
  else empty t.first

def pairEnd : Parse Event := return ⟨.mappingEnd, (← peek).first⟩

def isFlowMappingMark : Lexeme → Bool
  | .flowEntry | .flowMappingEnd => true
  | _ => false

def flowKey (since : Mark) (isFirst : Bool) : Parse Event := do
  let t ← peek
  if t.lexeme != .flowMappingEnd && !isFirst then
    if t.lexeme == .flowEntry then skip
    else fail .commaOrBraceExpected t.first (some (.flowMapping, since))
  let t ← peek
  match t.lexeme with
  | .flowMappingEnd =>
    skip
    return ⟨.mappingEnd, t.first⟩
  | .key =>
    skip
    expect (.flowKey since false)
    expect .flowValue
    nodeUnless (fun x => x == .value || isFlowMappingMark x) (← peek).first false false
  | _ =>
    expect (.flowKey since false)
    expect .flowNoValue
    node false false

def flowValue : Parse Event := do
  let t ← peek
  if t.lexeme == .value then
    skip
    nodeUnless isFlowMappingMark (← peek).first false false
  else empty t.first

def flowNoValue : Parse Event := do empty (← peek).first

/-! The whole. -/

def event : Expectation → Parse Event
  | .document isFirst => document isFirst
  | .documentContent => do
    let t ← peek
    nodeUnless (fun x => isBeforeContent x || x == .documentEnd) t.first true false
  | .documentNode => node true false
  | .documentEnd => documentEnd
  | .blockEntry since => blockEntry since
  | .indentlessEntry => indentlessEntry
  | .blockKey since => blockKey since
  | .blockValue => blockValue
  | .flowEntry since isFirst => flowEntry since isFirst
  | .pairKey => pairKey
  | .pairValue => pairValue
  | .pairEnd => pairEnd
  | .flowKey since isFirst => flowKey since isFirst
  | .flowValue => flowValue
  | .flowNoValue => flowNoValue

/-- The events up to the end of the text or to what is wrong in it. -/
def events : Nat → Grammar → List Event × Option Malformed
  | 0, _ => ([], none)
  | fuel + 1, g =>
    match g.expected with
    | [] => ([], none)
    | x :: rest =>
      match event x { g with expected := rest } with
      | .error e => ([], some e)
      | .ok (e, g) =>
        let (more, failure) := events fuel g
        (e :: more, failure)

end Parse

/-- The events of tokens, which may be followed by something that is wrong. No token has more than
three events of its own. -/
def Event.ofTokens (tokens : List Token) (failure : Option Malformed) : List Event × Option Malformed :=
  Parse.events (4 * tokens.length + 8) ⟨tokens, failure, [.document true], []⟩

end Gauge.Yaml
