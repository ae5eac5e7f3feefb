/-!
Places in a text, and what can be wrong with a text as YAML.
-/

namespace Gauge.Yaml

/-- A place in a text: how many characters come before it, how many lines, and how many characters
of its own line. -/
structure Mark where
  index : Nat
  line : Nat
  column : Nat
deriving DecidableEq, Repr

namespace Mark

def start : Mark := ⟨0, 0, 0⟩

/-- The beginning of a text goes without saying. -/
def isStart (m : Mark) : Bool := m.line == 0 && m.column == 0

def text (m : Mark) : String :=
  if m.isStart then "" else " at line " ++ toString (m.line + 1) ++ " column " ++ toString (m.column + 1)

end Mark

/-- What was being read when something went wrong. -/
inductive Activity where
  | anyToken | simpleKey
  | directive | versionDirective | tagDirective | tagDirectiveHandle | tagDirectiveName
  | tagDirectiveValue | anchor | alias | tag | tagValue
  | blockScalar | quotedScalar | quotedEscape | plainScalar
  | node | blockNode | flowNode | blockSequence | blockMapping | flowSequence | flowMapping
deriving DecidableEq, Repr

def Activity.text : Activity → String
  | .anyToken => "while scanning for the next token"
  | .simpleKey => "while scanning a simple key"
  | .directive => "while scanning a directive"
  | .versionDirective => "while scanning a %YAML directive"
  | .tagDirective => "while scanning a %TAG directive"
  | .tagDirectiveHandle => "while scanning a tag directive"
  | .tagDirectiveName => "while parsing a tag directive"
  | .tagDirectiveValue => "while parsing a %TAG directive"
  | .anchor => "while scanning an anchor"
  | .alias => "while scanning an alias"
  | .tag => "while scanning a tag"
  | .tagValue => "while parsing a tag"
  | .blockScalar => "while scanning a block scalar"
  | .quotedScalar => "while scanning a quoted scalar"
  | .quotedEscape => "while parsing a quoted scalar"
  | .plainScalar => "while scanning a plain scalar"
  | .node => "while parsing a node"
  | .blockNode => "while parsing a block node"
  | .flowNode => "while parsing a flow node"
  | .blockSequence => "while parsing a block collection"
  | .blockMapping => "while parsing a block mapping"
  | .flowSequence => "while parsing a flow sequence"
  | .flowMapping => "while parsing a flow mapping"

inductive Problem where
  | controlCharacter
  | keyWithoutColon | noToken
  | entryOutOfPlace | keyOutOfPlace | valueOutOfPlace
  | directiveUnknown | directiveUnnamed | directiveNameBroken
  | versionDigitExpected | versionMissing | versionTooLong
  | bangExpected | blankExpected | tagExpected | closingExpected
  | octetExpected | octetNotLeading | octetNotTrailing
  | nameExpected | lineEndExpected | blankOrLineEndExpected
  | zeroIndentation | tabAsIndentation | tabBeforeIndentation
  | documentInside | endInside
  | escapeUnknown | hexExpected | escapeNoCharacter
  | colonInside
  | documentExpected | versionTwice | versionForeign | handleTwice | handleUnknown
  | contentExpected | dashExpected | keyExpected
  | commaOrBracketExpected | commaOrBraceExpected
deriving DecidableEq, Repr

def Problem.text : Problem → String
  | .controlCharacter => "control characters are not allowed"
  | .keyWithoutColon => "could not find expected ':'"
  | .noToken => "found character that cannot start any token"
  | .entryOutOfPlace => "block sequence entries are not allowed in this context"
  | .keyOutOfPlace => "mapping keys are not allowed in this context"
  | .valueOutOfPlace => "mapping values are not allowed in this context"
  | .directiveUnknown => "found unknown directive name"
  | .directiveUnnamed => "could not find expected directive name"
  | .directiveNameBroken => "found unexpected non-alphabetical character"
  | .versionDigitExpected => "did not find expected digit or '.' character"
  | .versionMissing => "did not find expected version number"
  | .versionTooLong => "found extremely long version number"
  | .bangExpected => "did not find expected '!'"
  | .blankExpected => "did not find expected whitespace"
  | .tagExpected => "did not find expected tag URI"
  | .closingExpected => "did not find the expected '>'"
  | .octetExpected => "did not find URI escaped octet"
  | .octetNotLeading => "found an incorrect leading UTF-8 octet"
  | .octetNotTrailing => "found an incorrect trailing UTF-8 octet"
  | .nameExpected => "did not find expected alphabetic or numeric character"
  | .lineEndExpected => "did not find expected comment or line break"
  | .blankOrLineEndExpected => "did not find expected whitespace or line break"
  | .zeroIndentation => "found an indentation indicator equal to 0"
  | .tabAsIndentation => "found a tab character where an indentation space is expected"
  | .tabBeforeIndentation => "found a tab character that violates indentation"
  | .documentInside => "found unexpected document indicator"
  | .endInside => "found unexpected end of stream"
  | .escapeUnknown => "found unknown escape character"
  | .hexExpected => "did not find expected hexdecimal number"
  | .escapeNoCharacter => "found invalid Unicode character escape code"
  | .colonInside => "found unexpected ':'"
  | .documentExpected => "did not find expected <document start>"
  | .versionTwice => "found duplicate %YAML directive"
  | .versionForeign => "found incompatible YAML document"
  | .handleTwice => "found duplicate %TAG directive"
  | .handleUnknown => "found undefined tag handle"
  | .contentExpected => "did not find expected node content"
  | .dashExpected => "did not find expected '-' indicator"
  | .keyExpected => "did not find expected key"
  | .commaOrBracketExpected => "did not find expected ',' or ']'"
  | .commaOrBraceExpected => "did not find expected ',' or '\x7d'"

/-- Where something is wrong. -/
inductive Place where
  | mark (m : Mark)
  /-- So many bytes into the text. -/
  | byte (offset : Nat)
deriving DecidableEq, Repr

def Place.text : Place → String
  | .mark m => m.text
  | .byte offset => if offset == 0 then "" else " at position " ++ toString offset

/-- Why a text is not YAML: the problem, and what was being read since when. -/
structure Malformed where
  problem : Problem
  place : Place
  during : Option (Activity × Mark)
deriving DecidableEq, Repr

/-- The beginning of what was being read is told if that is another place. -/
def Malformed.message (e : Malformed) : String :=
  e.problem.text ++ e.place.text ++
    match e.during with
    | none => ""
    | some (activity, since) =>
      let isSame := match e.place with
        | .mark m => m.line == since.line && m.column == since.column
        | .byte _ => false
      ", " ++ activity.text ++ (if isSame then "" else since.text)

end Gauge.Yaml
