import Gauge.Yaml.Token.Scalar
import Gauge.Yaml.Token.Directive

/-!
The tokens of a text. What may be a key is known as one only when the colon after it is seen, so its
token waits until then: where a text goes wrong, the tokens that still wait are lost with the rest.
-/

namespace Gauge.Yaml

/-- A token that may turn out to begin a key. -/
structure KeyCandidate where
  /-- How many tokens come before it. -/
  position : Nat
  mark : Mark
  /-- Nothing else can stand there. -/
  isRequired : Bool

/-- How far the tokens of a text have been read. -/
structure Scanner where
  tokens : Array Token
  /-- How many of the tokens wait for nothing. -/
  ready : Nat
  /-- The columns of the block collections that are open, the innermost first. -/
  indents : List Nat
  /-- What may be a key, one for each open flow collection and then for the block outside of them. -/
  candidate : Option KeyCandidate
  outer : List (Option KeyCandidate)
  isKeyAllowed : Bool

namespace Scanner

open Cursor Scan

def start : Scanner := ⟨#[], 0, [], none, [], true⟩

def inFlow (s : Scanner) : Bool := !s.outer.isEmpty

def push (s : Scanner) (t : Token) : Scanner := { s with tokens := s.tokens.push t }

/-- Puts a token before those from `position` on. -/
def insert (s : Scanner) (position : Nat) (t : Token) : Scanner :=
  { s with tokens := s.tokens.insertIdxIfInBounds position t }

def candidates (s : Scanner) : List KeyCandidate := (s.candidate :: s.outer).filterMap id

/-- The longest key without a mark of its own, in characters. -/
def longestKey : Nat := 1024

def isStale (m : Mark) (k : KeyCandidate) : Bool :=
  k.mark.line < m.line || k.mark.index + longestKey < m.index

/-- Gives up candidates that are too far back. -/
def dropStale (s : Scanner) : Scan Scanner := do
  let m ← mark
  match s.candidates.reverse.find? fun k => isStale m k && k.isRequired with
  | some k => fail .simpleKey k.mark .keyWithoutColon
  | none =>
    let fresh (k : Option KeyCandidate) : Option KeyCandidate := k.filter (!isStale m ·)
    return { s with candidate := fresh s.candidate, outer := s.outer.map fresh }

/-- Gives up the innermost candidate. -/
def dropCandidate (s : Scanner) : Scan Scanner := do
  match s.candidate with
  | some k =>
    if k.isRequired then fail .simpleKey k.mark .keyWithoutColon
    else return { s with candidate := none }
  | none => return s

/-- Makes the next token a candidate if a key may stand there. -/
def saveCandidate (s : Scanner) : Scan Scanner := do
  if s.isKeyAllowed then
    let m ← mark
    let s ← s.dropCandidate
    let isRequired := !s.inFlow && s.indents.head? == some m.column
    return { s with candidate := some ⟨s.tokens.size, m, isRequired⟩ }
  else return s

/-- Closes the block collections that are indented beyond what `stays` says. -/
def closeFrom (m : Mark) (stays : Nat → Bool) : List Nat → Array Token → List Nat × Array Token
  | [], tokens => ([], tokens)
  | i :: rest, tokens =>
    if stays i then (i :: rest, tokens)
    else closeFrom m stays rest (tokens.push ⟨.blockEnd, m, m⟩)

def closeBlocks (s : Scanner) (m : Mark) (stays : Nat → Bool) : Scanner :=
  if s.inFlow then s
  else
    let (indents, tokens) := closeFrom m stays s.indents s.tokens
    { s with indents, tokens }

/-- Closes all block collections. -/
def closeAll (s : Scanner) (m : Mark) : Scanner := s.closeBlocks m fun _ => false

/-- Opens a block collection at the column of `m` if it is further in, with a token before those
from `position` on. -/
def openBlock (s : Scanner) (lexeme : Lexeme) (position : Nat) (m : Mark) : Scanner :=
  if s.inFlow || s.indents.head?.any (m.column ≤ ·) then s
  else { s.insert position ⟨lexeme, m, m⟩ with indents := m.column :: s.indents }

/-- A token of `width` characters. -/
def indicator (s : Scanner) (lexeme : Lexeme) (width : Nat) : Scan Scanner := do
  let first ← mark
  skip width
  return s.push ⟨lexeme, first, ← mark⟩

/-- White space and comments before a token. -/
def skipToToken : Nat → Scanner → Scan Scanner
  | 0, s => return s
  | fuel + 1, s => do
    let c ← get
    if c.mark.index == 0 && c.next == some '\ufeff' then skip 1
    skipWhile fun x => x == ' ' || ((s.inFlow || !s.isKeyAllowed) && x == '\t')
    if (← next) == some '#' then skipWhile fun x => !isBreak x
    if (← next).any isBreak then
      let _ ← lineBreak
      skipToToken fuel { s with isKeyAllowed := s.isKeyAllowed || !s.inFlow }
    else return s

/-- The end of the text, which is on a line of its own. -/
def streamEnd (s : Scanner) : Scan Scanner := do
  modify fun c =>
    if c.mark.column == 0 then c else { c with mark := ⟨c.mark.index, c.mark.line + 1, 0⟩ }
  let m ← mark
  let s ← (s.closeAll m).dropCandidate
  return { s with isKeyAllowed := false }.push ⟨.streamEnd, m, m⟩

def directiveToken (s : Scanner) : Scan Scanner := do
  let s ← (s.closeAll (← mark)).dropCandidate
  return { s with isKeyAllowed := false }.push (← directive)

def documentToken (s : Scanner) (lexeme : Lexeme) : Scan Scanner := do
  let s ← (s.closeAll (← mark)).dropCandidate
  { s with isKeyAllowed := false }.indicator lexeme 3

def flowStart (s : Scanner) (lexeme : Lexeme) : Scan Scanner := do
  let s ← s.saveCandidate
  { s with candidate := none, outer := s.candidate :: s.outer, isKeyAllowed := true }.indicator lexeme 1

def flowEnd (s : Scanner) (lexeme : Lexeme) : Scan Scanner := do
  let s ← s.dropCandidate
  let (candidate, outer) := match s.outer with
    | [] => (s.candidate, [])
    | k :: rest => (k, rest)
  { s with candidate, outer, isKeyAllowed := false }.indicator lexeme 1

def flowEntry (s : Scanner) : Scan Scanner := do
  let s ← s.dropCandidate
  { s with isKeyAllowed := true }.indicator .flowEntry 1

/-- Opens a block collection before a mark that stands for itself, which has to be allowed there. -/
def openFor (s : Scanner) (lexeme : Lexeme) (problem : Problem) : Scan Scanner := do
  if s.inFlow then return s
  else if s.isKeyAllowed then return s.openBlock lexeme s.tokens.size (← mark)
  else failHere problem

def blockEntry (s : Scanner) : Scan Scanner := do
  let s ← (← s.openFor .blockSequenceStart .entryOutOfPlace).dropCandidate
  { s with isKeyAllowed := true }.indicator .blockEntry 1

def key (s : Scanner) : Scan Scanner := do
  let s ← (← s.openFor .blockMappingStart .keyOutOfPlace).dropCandidate
  { s with isKeyAllowed := !s.inFlow }.indicator .key 1

def value (s : Scanner) : Scan Scanner := do
  match s.candidate with
  | some k =>
    let s := (s.insert k.position ⟨.key, k.mark, k.mark⟩).openBlock .blockMappingStart k.position k.mark
    { s with candidate := none, isKeyAllowed := false }.indicator .value 1
  | none =>
    let s ← s.openFor .blockMappingStart .valueOutOfPlace
    { s with isKeyAllowed := !s.inFlow }.indicator .value 1

/-- A token that may be a key as it is. -/
def simple (s : Scanner) (lexeme : Scan Lexeme) : Scan Scanner := do
  let s ← s.saveCandidate
  let first ← mark
  let lexeme ← lexeme
  return { s with isKeyAllowed := false }.push ⟨lexeme, first, ← mark⟩

def quotedScalar (s : Scanner) (single : Bool) : Scan Scanner :=
  s.simple do
    let text ← quoted single
    return .scalar (String.ofList text) (if single then .singleQuoted else .doubleQuoted)

def plainScalar (s : Scanner) : Scan Scanner := do
  let s ← s.saveCandidate
  let first ← mark
  let (text, isBroken) ← plain s.inFlow ((s.indents.head?.map (· + 1)).getD 0)
  return { s with isKeyAllowed := isBroken }.push
    ⟨.scalar (String.ofList text) .plain, first, ← mark⟩

def blockScalar (s : Scanner) (isFolded : Bool) : Scan Scanner := do
  let s ← s.dropCandidate
  let first ← mark
  let text ← block isFolded s.indents.head?
  return { s with isKeyAllowed := true }.push
    ⟨.scalar (String.ofList text) (if isFolded then .folded else .literal), first, ← mark⟩

/-- Characters that no plain scalar begins with, some of which may yet, depending on the next. -/
def isIndicator (c : Char) : Bool := "-?:,[]\x7b\x7d#&*!|>'\"%@`".toList.contains c

def beginsPlain (inFlow : Bool) (c : Char) (following : Option Char) : Bool :=
  !(isBlank c || isBreak c || isIndicator c) || (c == '-' && !following.any isBlank) ||
    (!inFlow && (c == '?' || c == ':') && !isEnd following)

/-- Reads the next token, and the tokens that are told by it. -/
def token (s : Scanner) : Scan Scanner := do
  let s ← (← s.skipToToken (← size)).dropStale
  let c ← get
  let s := s.closeBlocks c.mark (· ≤ c.mark.column)
  let marks := s.inFlow || isEnd c.second
  match c.next with
  | none => s.streamEnd
  | some x =>
    if c.mark.column == 0 && x == '%' then s.directiveToken
    else if c.isAtDocument then s.documentToken (if x == '-' then .documentStart else .documentEnd)
    else if x == '[' then s.flowStart .flowSequenceStart
    else if x == '\x7b' then s.flowStart .flowMappingStart
    else if x == ']' then s.flowEnd .flowSequenceEnd
    else if x == '\x7d' then s.flowEnd .flowMappingEnd
    else if x == ',' then s.flowEntry
    else if x == '-' && isEnd c.second then s.blockEntry
    else if x == '?' && marks then s.key
    else if x == ':' && marks then s.value
    else if x == '*' then s.simple do return .alias (← anchorName .alias)
    else if x == '&' then s.simple do return .anchor (← anchorName .anchor)
    else if x == '!' then s.simple (tag s.inFlow)
    else if x == '|' && !s.inFlow then s.blockScalar false
    else if x == '>' && !s.inFlow then s.blockScalar true
    else if x == '\'' then s.quotedScalar true
    else if x == '"' then s.quotedScalar false
    else if beginsPlain s.inFlow x c.second then s.plainScalar
    else fail .anyToken c.mark .noToken

/-- The tokens before the first candidate wait for nothing. -/
def settle (s : Scanner) : Scanner :=
  { s with ready := (s.candidates.map (·.position)).foldl min s.tokens.size }

def isFinished (s : Scanner) : Bool := s.tokens.back?.any (·.lexeme == .streamEnd)

/-- Reads on to the end, if it can be reached. -/
def run : Nat → Scanner → Cursor → List Token × Option Malformed
  | 0, s, _ => (s.tokens.toList, none)
  | fuel + 1, s, c =>
    if s.isFinished then (s.tokens.toList, none)
    else
      match s.dropStale c with
      | .error e _ => (s.tokens.toList.take s.ready, some e)
      | .ok s c =>
        let s := s.settle
        match s.token c with
        | .error e _ => (s.tokens.toList.take s.ready, some e)
        | .ok s c => run fuel s c

end Scanner

/-- Characters that a text may contain. -/
def isAllowed (c : Char) : Bool :=
  let n := c.toNat
  n == 9 || n == 10 || n == 13 || (0x20 ≤ n && n ≤ 0x7e) || n == 0x85 || (0xa0 ≤ n && n ≤ 0xd7ff) ||
    (0xe000 ≤ n && n ≤ 0xfffd) || 0x10000 ≤ n

/-- How many bytes come before the first character that may not be there. -/
def forbiddenAt? (s : List Char) : Option Nat :=
  match s.dropWhile isAllowed with
  | [] => none
  | _ :: _ => some ((s.takeWhile isAllowed).foldl (fun n c => n + c.utf8Size) 0)

/-- The tokens of a text, as far as it makes sense, and what is wrong then. -/
def Token.scan (text : String) : List Token × Option Malformed :=
  let s := text.toList
  match forbiddenAt? s with
  | some offset => ([], some ⟨.controlCharacter, .byte offset, none⟩)
  | none => Scanner.run (s.length + 2) .start (.start s)

end Gauge.Yaml
