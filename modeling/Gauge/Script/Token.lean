import Gauge.Script.Numeral

/-!
The tokens of a script. `Token.shown` is how a message names one.
-/

namespace Gauge.Script

/-- Reserved words and symbols. -/
inductive Mark where
  | kAnd | kBreak | kDo | kElse | kElseif | kEnd | kFalse | kFor | kFunction | kGoto | kIf | kIn
  | kLocal | kNil | kNot | kOr | kRepeat | kReturn | kThen | kTrue | kUntil | kWhile
  | floorDivide | concat | dots | equal | greaterEqual | lessEqual | notEqual | shiftLeft
  | shiftRight | label
  /-- A byte that stands for itself, a symbol of the grammar or not. -/
  | byte (b : UInt8)
deriving DecidableEq, BEq

namespace Mark

def keywords : List (Mark × String) :=
  [(.kAnd, "and"), (.kBreak, "break"), (.kDo, "do"), (.kElse, "else"), (.kElseif, "elseif"),
   (.kEnd, "end"), (.kFalse, "false"), (.kFor, "for"), (.kFunction, "function"), (.kGoto, "goto"),
   (.kIf, "if"), (.kIn, "in"), (.kLocal, "local"), (.kNil, "nil"), (.kNot, "not"), (.kOr, "or"),
   (.kRepeat, "repeat"), (.kReturn, "return"), (.kThen, "then"), (.kTrue, "true"),
   (.kUntil, "until"), (.kWhile, "while")]

def symbols : List (Mark × String) :=
  [(.floorDivide, "//"), (.concat, ".."), (.dots, "..."), (.equal, "=="), (.greaterEqual, ">="),
   (.lessEqual, "<="), (.notEqual, "~="), (.shiftLeft, "<<"), (.shiftRight, ">>"), (.label, "::")]

/-- The reserved word a name is, if it is one. -/
def ofWord? (word : ByteArray) : Option Mark :=
  (keywords.find? fun p => p.2.toUTF8 == word).map (·.1)

def ofChar (c : Char) : Mark := .byte c.toUInt8

/-- The mark in quotes; a byte that does not print is given by its number. -/
def shown (m : Mark) : String :=
  match m with
  | .byte b =>
    if b.isPrint then "'" ++ String.singleton (Char.ofNat b.toNat) ++ "'"
    else "'<\\" ++ toString b.toNat ++ ">'"
  | m => "'" ++ ((keywords ++ symbols).lookup m).getD "" ++ "'"

end Mark

inductive Token.Kind where
  | mark (m : Mark)
  | name (s : ByteArray)
  | string (s : ByteArray)
  | number (n : Numeral)
  | endOfText

/-- A token, the line on which reading it ended, and the text a message quotes it by. -/
structure Token where
  kind : Token.Kind
  line : Nat
  text : ByteArray

namespace Token

/-- How a message names the token; a NUL byte has no name. -/
def near (t : Token) : ByteArray :=
  let named (s : ByteArray) := " near ".toUTF8 ++ s
  match t.kind with
  | .mark (.byte 0) => ByteArray.empty
  | .mark m => named m.shown.toUTF8
  | .endOfText => named "<eof>".toUTF8
  | _ => named ("'".toUTF8 ++ t.text.untilNul ++ "'".toUTF8)

end Token

/-- Why a text is not a script: a message at a line, or too deep a nesting. -/
inductive ReadError where
  | at (line : Nat) (message : ByteArray)
  | tooDeep

end Gauge.Script
