import Gauge.Script.Library.Base
import Gauge.Script.Library.Format
import Gauge.Script.Library.Pack
import Gauge.Script.Library.Pattern

/-!
Functions on strings.
-/

namespace Gauge.Script.Text

open Native

/-- The last position of a part of a text, from an argument counted from the end if negative. -/
def endPosition (args : Args) (i : Nat) (default : Int64) (size : Nat) : Native Nat := do
  let n := (← args.optInteger i default).toInt
  return if n > size then size
    else if n ≥ 0 then n.toNat
    else if n < -(size : Int) then 0
    else (size + n + 1).toNat

def byte (args : Args) : Native (Array Value) := do
  let s ← args.text 1
  let first ← args.optInteger 2 1
  let start := Pack.startPosition first s.size
  let stop ← endPosition args 3 first s.size
  let count := stop + 1 - start
  if count ≥ (← inspect).room then
    failAtCaller "stack overflow (string slice too long)"
  return ((List.range count).map fun i => Value.ofNat (s.byte (start - 1 + i)).toNat).toArray

def charsFrom (args : Args) : Nat → Native ByteArray
  | 0 => return ByteArray.empty
  | n + 1 => do
    let s ← charsFrom args n
    let c ← args.integer (n + 1)
    if c.toUInt64 > 255 then failArgument (n + 1) "value out of range"
    return s.push c.toUInt64.toUInt8

def dump (args : Args) : Native (Array Value) := do
  match ← args.function 1 with
  | .closure id => Native.text (Base.dumped id)
  | _ => failAtCaller "unable to dump given function"

/-- A result of the search for a pattern; its faults are errors. -/
def lift {α : Type} (r : Except Pattern.Fault α) : Native α :=
  match r with
  | .ok a => pure a
  | .error e => failAtCaller e.message

def ofCaptured : Pattern.Captured → Value
  | .text s => .string s
  | .position n => .ofNat n

def search (args : Args) (find : Bool) : Native (Array Value) := do
  let s ← args.text 1
  let p ← args.text 2
  let init := Pack.startPosition (← args.optInteger 3 1) s.size - 1
  if init > s.size then return #[.nil]
  if find && ((args.value 4).isTruthy || Pattern.isPlain p) then
    match s.find? p init with
    | some i => return #[.ofNat (i + 1), .ofNat (i + p.size)]
    | none => return #[.nil]
  else
    let anchored := p.byte 0 == 94 && p.size > 0
    let m : Pattern.Context := ⟨s, p⟩
    match ← lift (Pattern.firstMatch m (if anchored then 1 else 0) anchored (s.size + 1) init) with
    | none => return #[.nil]
    | some (start, stop, cs) =>
      let captured ← lift (Pattern.allCaptured m cs start stop (!find))
      let values := (captured.map ofCaptured).toArray
      return if find then #[.ofNat (start + 1), .ofNat stop] ++ values else values

def gmatch (args : Args) : Native (Array Value) := do
  let s ← args.text 1
  let p ← args.text 2
  let init := Pack.startPosition (← args.optInteger 3 1) s.size - 1
  update fun h =>
    let (id, h) := h.newSearch ⟨s, p, min init (s.size + 1), none⟩
    (#[.builtin (.matches id)], h)

/-- The first match from a position on that does not end where the last one did. -/
def freshMatch (m : Pattern.Context) (lastEnd : Option Nat) :
    Nat → Nat → Except Pattern.Fault (Option (Nat × Nat × Pattern.Captures))
  | 0, _ => .ok none
  | fuel + 1, s =>
    if s > m.text.size then .ok none
    else
      match Pattern.matchHere m s 0 with
      | .error e => .error e
      | .ok (some (e, cs)) =>
        if lastEnd == some e then freshMatch m lastEnd fuel (s + 1) else .ok (some (s, e, cs))
      | .ok none => freshMatch m lastEnd fuel (s + 1)

/-- The next match of a search. -/
def nextMatch (id : Nat) : Native (Array Value) := do
  let search ← read fun h => h.searches.getD id default
  let m : Pattern.Context := ⟨search.text, search.pattern⟩
  match ← lift (freshMatch m search.lastEnd (search.text.size + 2) search.next) with
  | none => return #[.nil]
  | some (start, stop, cs) =>
    modifyHeap fun h => { h with
      searches := h.searches.modify id fun s => { s with next := stop, lastEnd := some stop } }
    return ((← lift (Pattern.allCaptured m cs start stop true)).map ofCaptured).toArray

/-- A replacement text with its references to captures filled in. -/
def expand (m : Pattern.Context) (cs : Pattern.Captures) (start stop : Nat) (text : ByteArray) :
    Nat → Nat → ByteArray → Native ByteArray
  | 0, _, acc => return acc
  | fuel + 1, i, acc => do
    if i ≥ text.size then return acc
    else if text.byte i != 37 then expand m cs start stop text fuel (i + 1) (acc.push (text.byte i))
    else
      let c := text.byte (i + 1)
      if c == 37 && i + 1 < text.size then expand m cs start stop text fuel (i + 2) (acc.push 37)
      else if c == 48 then
        expand m cs start stop text fuel (i + 2) (acc ++ m.text.extract start stop)
      else if c.isDigit then
        match ← lift (Pattern.captured m cs start stop (c.toNat - 49)) with
        | .text s => expand m cs start stop text fuel (i + 2) (acc ++ s)
        | .position n => expand m cs start stop text fuel (i + 2) (acc ++ (toString n).toUTF8)
      else failAtCaller "invalid use of '%' in replacement string"

/-- What a match is replaced by; nothing to leave it as it is. -/
def replacement (m : Pattern.Context) (cs : Pattern.Captures) (start stop : Nat) (by_ : Value) :
    Native (Option ByteArray) := do
  let check (v : Value) : Native (Option ByteArray) := do
    if !v.isTruthy then return none
    match v.text? with
    | some s => return some s
    | none => failAtCaller ("invalid replacement value (a " ++ v.kind.name ++ ")")
  match by_ with
  | .table _ =>
    let key ← lift (Pattern.captured m cs start stop 0)
    check (← index by_ (ofCaptured key))
  | .closure _ | .builtin _ =>
    let all ← lift (Pattern.allCaptured m cs start stop true)
    check (← call1 by_ (all.map ofCaptured).toArray)
  | v => return some (← expand m cs start stop ((v.text?).getD ByteArray.empty)
      (((v.text?).getD ByteArray.empty).size + 1) 0 ByteArray.empty)

/-- Replaces matches from position `s` on: the text so far, the number of matches, and whether any was
replaced. -/
def replaceFrom (m : Pattern.Context) (p : Nat) (anchored : Bool) (limit : Int) (by_ : Value) :
    Nat → Nat → Option Nat → Nat → Bool → ByteArray → Native (ByteArray × Nat × Bool)
  | 0, _, _, n, changed, acc => return (acc, n, changed)
  | fuel + 1, s, lastEnd, n, changed, acc => do
    let finish (s n : Nat) (changed : Bool) (acc : ByteArray) : Native (ByteArray × Nat × Bool) :=
      return (acc ++ m.text.extract s m.text.size, n, changed)
    if (n : Int) ≥ limit then finish s n changed acc
    else
      let found ← lift (Pattern.matchHere m s p)
      let fresh := found.filter fun r => lastEnd != some r.1
      match fresh with
      | some (e, cs) =>
        let r ← replacement m cs s e by_
        let acc := acc ++ r.getD (m.text.extract s e)
        let changed := changed || r.isSome
        if anchored then finish e (n + 1) changed acc
        else replaceFrom m p anchored limit by_ fuel e (some e) (n + 1) changed acc
      | none =>
        if s < m.text.size then
          let acc := acc.push (m.text.byte s)
          if anchored then finish (s + 1) n changed acc
          else replaceFrom m p anchored limit by_ fuel (s + 1) lastEnd n changed acc
        else finish s n changed acc

def gsub (args : Args) : Native (Array Value) := do
  let s ← args.text 1
  let p ← args.text 2
  let by_ := args.value 3
  let limit ← args.optInteger 4 (Int64.ofNat (s.size + 1))
  match by_ with
  | .string _ | .int _ | .float _ | .table _ | .closure _ | .builtin _ => pure ()
  | _ => args.failKind 3 "string/function/table"
  let anchored := p.byte 0 == 94 && p.size > 0
  let (r, n, changed) ← replaceFrom ⟨s, p⟩ (if anchored then 1 else 0) anchored limit.toInt by_
    (2 * s.size + 4) 0 none 0 false ByteArray.empty
  return #[if changed then .string r else .string s, .ofNat n]

/-- The longest string there is. -/
def maxSize : Nat := 2147483647

def repeatText (s sep : ByteArray) (acc : ByteArray) : Nat → ByteArray
  | 0 => acc
  | 1 => acc ++ s
  | n + 1 => repeatText s sep (acc ++ s ++ sep) n

def rep (args : Args) : Native (Array Value) := do
  let s ← args.text 1
  let n ← args.integer 2
  let sep ← args.optText 3 ByteArray.empty
  if n ≤ 0 then text ByteArray.empty
  else
    let count := n.toInt.toNat
    if s.size + sep.size > maxSize / count then failAtCaller "resulting string too large"
    if s.size + sep.size == 0 then text ByteArray.empty
    else text (repeatText s sep ByteArray.empty count)

def sub (args : Args) : Native (Array Value) := do
  let s ← args.text 1
  let start := Pack.startPosition (← args.integer 2) s.size
  let stop ← endPosition args 3 (-1) s.size
  text (s.extract (start - 1) stop)

/-- The number a string or a number stands for, where an operator meets a string. -/
def operand? (v : Value) : Option Numeral := v.toNumeral?

/-- An operator one of whose operands is a string: it works on what the strings stand for, or leaves it
to the metatable of the second operand. -/
def arith (args : Args) (event : String) (apply : Numeral → Numeral → Native Value) :
    Native (Array Value) := do
  let a := args.value 1
  let b := args.value 2
  match operand? a, operand? b with
  | some m, some n => one (← apply m n)
  | _, _ =>
    let via ← match b with
      | .string _ => pure Value.nil
      | b => metamethod b ("__" ++ event).toUTF8
    if via.isNil then
      failAtCaller ("attempt to " ++ event ++ " a '" ++ a.kind.name ++ "' with a '" ++ b.kind.name ++ "'")
    else return #[← call1 via #[a, b]]

def run (f : StringFunction) (args : Args) : Native (Array Value) :=
  match f with
  | .byte => byte args
  | .char => do text (← charsFrom args args.size)
  | .dump => dump args
  | .find => search args true
  | .format => Format.run args
  | .gmatch => gmatch args
  | .gsub => gsub args
  | .len => do nat (← args.text 1).size
  | .lower => do text ((← args.text 1).mapBytes UInt8.toLower)
  | .match => search args false
  | .pack => Pack.pack args
  | .packsize => Pack.packsize args
  | .rep => rep args
  | .reverse => do text (← args.text 1).reversed
  | .sub => sub args
  | .unpack => Pack.unpack args
  | .upper => do text ((← args.text 1).mapBytes UInt8.toUpper)
  | .arith op => arith args op.name fun m n => Native.arith op (.ofNumeral m) (.ofNumeral n)
  | .minus => arith args "unm" fun m _ => pure (.ofNumeral m.negate)

end Gauge.Script.Text
