import Gauge.Script.Bytes

/-!
Patterns: matching with captures, by trying what comes first and going back where it fails. A pattern
is read as it is matched, so that a fault in it counts only when matching gets there.
-/

namespace Gauge.Script.Pattern

inductive Extent where
  /-- The capture is still open. -/
  | unfinished
  /-- The capture is of a position. -/
  | position
  | length (n : Nat)

structure Capture where
  start : Nat
  extent : Extent

structure Fault where
  message : String

/-- Text and pattern of a match. -/
structure Context where
  text : ByteArray
  pattern : ByteArray

abbrev Captures := Array Capture

/-- Where a match ends and what it has captured; none if there is none. -/
abbrev Outcome := Except Fault (Option (Nat × Captures))

def maxCaptures : Nat := 32
/-- How deep the search may go back. -/
def maxDepth : Nat := 200

def fault {α : Type} (message : String) : Except Fault α := .error ⟨message⟩

/-- Whether a byte is in the class of a letter; an upper-case letter is the opposite class. -/
def inClass (c letter : UInt8) : Bool :=
  let member : Option Bool :=
    match Char.ofNat letter.toLower.toNat with
    | 'a' => some c.isLetter
    | 'c' => some c.isControl
    | 'd' => some c.isDigit
    | 'g' => some c.isGraph
    | 'l' => some c.isLower
    | 'p' => some c.isPunct
    | 's' => some c.isSpace
    | 'u' => some c.isUpper
    | 'w' => some c.isAlphanumeric
    | 'x' => some c.isHexDigit
    | 'z' => some (c == 0)
    | _ => none
  match member with
  | some b => if letter.isUpper then !b else b
  | none => letter == c

/-- The end of a set in brackets, from behind its opening on; the first byte of a set is in it even if
it is a bracket. -/
def setEnd (p : ByteArray) : Nat → Nat → Bool → Except Fault Nat
  | 0, _, _ => fault "malformed pattern (missing ']')"
  | fuel + 1, i, first =>
    if i ≥ p.size then fault "malformed pattern (missing ']')"
    else if p.byte i == 93 && !first then .ok (i + 1)
    else if p.byte i == 37 then setEnd p fuel (i + 2) false
    else setEnd p fuel (i + 1) false

/-- The end of a single-byte item that starts at `i`. -/
def itemEnd (p : ByteArray) (i : Nat) : Except Fault Nat :=
  if p.byte i == 37 then
    if i + 1 ≥ p.size then fault "malformed pattern (ends with '%')" else .ok (i + 2)
  else if p.byte i == 91 then
    setEnd p (p.size + 1) (if p.byte (i + 1) == 94 then i + 2 else i + 1) true
  else .ok (i + 1)

/-- Whether a byte is in the members of a set from `i` up to `stop`. -/
def inMembers (p : ByteArray) (c : UInt8) (stop : Nat) : Nat → Nat → Bool
  | 0, _ => false
  | fuel + 1, i =>
    if i ≥ stop then false
    else if p.byte i == 37 then
      inClass c (p.byte (i + 1)) || inMembers p c stop fuel (i + 2)
    else if p.byte (i + 1) == 45 && i + 2 < stop then
      (p.byte i ≤ c && c ≤ p.byte (i + 2)) || inMembers p c stop fuel (i + 3)
    else p.byte i == c || inMembers p c stop fuel (i + 1)

/-- Whether a byte is in the set whose bracket is at `i` and closes before `stop`. -/
def inSet (p : ByteArray) (c : UInt8) (i stop : Nat) : Bool :=
  if p.byte (i + 1) == 94 then !inMembers p c (stop - 1) p.size (i + 2)
  else inMembers p c (stop - 1) p.size (i + 1)

/-- Whether the byte of the text at `s` matches the item from `p` up to `stop`. -/
def single (m : Context) (s p stop : Nat) : Bool :=
  if s ≥ m.text.size then false
  else
    let c := m.text.byte s
    match m.pattern.byte p with
    | 46 => true
    | 37 => inClass c (m.pattern.byte (p + 1))
    | 91 => inSet m.pattern c p stop
    | b => b == c

/-- The end of a balanced text that starts at `s` with the given opening and closing bytes. -/
def balanced (m : Context) (opening closing : UInt8) : Nat → Nat → Nat → Option Nat
  | 0, _, _ => none
  | fuel + 1, s, depth =>
    if s ≥ m.text.size then none
    else
      let c := m.text.byte s
      if c == closing then
        if depth == 1 then some (s + 1) else balanced m opening closing fuel (s + 1) (depth - 1)
      else if c == opening then balanced m opening closing fuel (s + 1) (depth + 1)
      else balanced m opening closing fuel (s + 1) depth

/-- How many bytes from `s` on match an item. -/
def repeats (m : Context) (p stop : Nat) : Nat → Nat → Nat
  | 0, _ => 0
  | fuel + 1, s => if single m s p stop then repeats m p stop fuel (s + 1) + 1 else 0

/-- The open capture that a closing parenthesis belongs to. -/
def openCapture (cs : Captures) : Except Fault Nat :=
  let isOpen (i : Nat) : Bool :=
    match cs[i]? with
    | some ⟨_, .unfinished⟩ => true
    | _ => false
  match (List.range cs.size).reverse.find? isOpen with
  | some i => .ok i
  | none => fault "invalid pattern capture"

/-- The finished capture that a digit refers to. -/
def referred (cs : Captures) (digit : UInt8) : Except Fault Capture :=
  let complaint := fault ("invalid capture index %" ++ toString ((digit.toNat : Int) - 48))
  if digit < 49 then complaint
  else
    match cs[digit.toNat - 49]? with
    | some ⟨_, .unfinished⟩ | none => complaint
    | some c => .ok c

mutual

/-- Matches the pattern from `p` on at position `s`. -/
def matchAt (m : Context) : Nat → Nat → Nat → Nat → Captures → Outcome
  | 0, _, _, _, _ => fault "pattern too complex"
  | fuel + 1, depth, s, p, cs =>
    if p ≥ m.pattern.size then .ok (some (s, cs))
    else
      match m.pattern.byte p with
      | 40 =>
        let isPosition := m.pattern.byte (p + 1) == 41
        if cs.size ≥ maxCaptures then fault "too many captures"
        else if depth == 0 then fault "pattern too complex"
        else if isPosition then matchAt m fuel (depth - 1) s (p + 2) (cs.push ⟨s, .position⟩)
        else matchAt m fuel (depth - 1) s (p + 1) (cs.push ⟨s, .unfinished⟩)
      | 41 =>
        match openCapture cs with
        | .error e => .error e
        | .ok i =>
          if depth == 0 then fault "pattern too complex"
          else
            matchAt m fuel (depth - 1) s (p + 1)
              (cs.modify i fun c => { c with extent := .length (s - c.start) })
      | 36 =>
        if p + 1 == m.pattern.size then .ok (if s == m.text.size then some (s, cs) else none)
        else item m fuel depth s p cs
      | 37 =>
        match m.pattern.byte (p + 1) with
        | 98 =>
          if p + 3 ≥ m.pattern.size then fault "malformed pattern (missing arguments to '%b')"
          else if s < m.text.size && m.text.byte s == m.pattern.byte (p + 2) then
            match balanced m (m.pattern.byte (p + 2)) (m.pattern.byte (p + 3)) m.text.size (s + 1) 1 with
            | some e => matchAt m fuel depth e (p + 4) cs
            | none => .ok none
          else .ok none
        | 102 =>
          if m.pattern.byte (p + 2) != 91 then fault "missing '[' after '%f' in pattern"
          else
            match itemEnd m.pattern (p + 2) with
            | .error e => .error e
            | .ok stop =>
              let before := if s == 0 then 0 else m.text.byte (s - 1)
              if !inSet m.pattern before (p + 2) stop && inSet m.pattern (m.text.byte s) (p + 2) stop
              then matchAt m fuel depth s stop cs
              else .ok none
        | c =>
          if c.isDigit then
            match referred cs c with
            | .error e => .error e
            | .ok capture =>
              match capture.extent with
              | .length n =>
                if m.text.matchesAt (m.text.extract capture.start (capture.start + n)) s then
                  matchAt m fuel depth (s + n) (p + 2) cs
                else .ok none
              | _ => .ok none
          else item m fuel depth s p cs
      | _ => item m fuel depth s p cs

/-- Matches a single-byte item with what says how often it may occur. -/
def item (m : Context) : Nat → Nat → Nat → Nat → Captures → Outcome
  | 0, _, _, _, _ => fault "pattern too complex"
  | fuel + 1, depth, s, p, cs =>
    match itemEnd m.pattern p with
    | .error e => .error e
    | .ok stop =>
      match m.pattern.byte stop with
      | 63 =>
        if single m s p stop then
          if depth == 0 then fault "pattern too complex"
          else
            match matchAt m fuel (depth - 1) (s + 1) (stop + 1) cs with
            | .ok none => matchAt m fuel depth s (stop + 1) cs
            | r => r
        else matchAt m fuel depth s (stop + 1) cs
      | 43 =>
        if single m s p stop then
          longest m fuel depth (s + 1) (repeats m p stop m.text.size (s + 1)) (stop + 1) cs
        else .ok none
      | 42 =>
        if single m s p stop then
          longest m fuel depth s (repeats m p stop m.text.size s) (stop + 1) cs
        else matchAt m fuel depth s (stop + 1) cs
      | 45 =>
        if single m s p stop then shortest m fuel depth s p stop cs
        else matchAt m fuel depth s (stop + 1) cs
      | _ => if single m s p stop then matchAt m fuel depth (s + 1) stop cs else .ok none

/-- Goes on after `count` repetitions, then after one less, and so on. -/
def longest (m : Context) : Nat → Nat → Nat → Nat → Nat → Captures → Outcome
  | 0, _, _, _, _, _ => fault "pattern too complex"
  | fuel + 1, depth, s, count, p, cs =>
    if depth == 0 then fault "pattern too complex"
    else
      match matchAt m fuel (depth - 1) (s + count) p cs with
      | .ok none => if count == 0 then .ok none else longest m fuel depth s (count - 1) p cs
      | r => r

/-- Goes on after as few repetitions as it takes. -/
def shortest (m : Context) : Nat → Nat → Nat → Nat → Nat → Captures → Outcome
  | 0, _, _, _, _, _ => fault "pattern too complex"
  | fuel + 1, depth, s, p, stop, cs =>
    if depth == 0 then fault "pattern too complex"
    else
      match matchAt m fuel (depth - 1) s (stop + 1) cs with
      | .ok none =>
        if single m s p stop then shortest m fuel depth (s + 1) p stop cs else .ok none
      | r => r

end

/-- Steps that a match may take one inside the other: each goes forward in the text or the pattern. -/
def fuelFor (m : Context) : Nat := 4 * (m.text.size + m.pattern.size + 8) * maxDepth

/-- Matches the pattern from `p` on at one position of the text. -/
def matchHere (m : Context) (s p : Nat) : Outcome :=
  matchAt m (fuelFor m) (maxDepth - 1) s p #[]

/-- The first match at position `s` or later, with the position it starts at. -/
def firstMatch (m : Context) (p : Nat) (anchored : Bool) :
    Nat → Nat → Except Fault (Option (Nat × Nat × Captures))
  | 0, _ => .ok none
  | fuel + 1, s =>
    match matchHere m s p with
    | .error e => .error e
    | .ok (some (e, cs)) => .ok (some (s, e, cs))
    | .ok none => if anchored || s ≥ m.text.size then .ok none else firstMatch m p anchored fuel (s + 1)

/-- Whether a pattern has no special bytes, so that it matches itself alone. -/
def isPlain (p : ByteArray) : Bool :=
  !p.toList.any fun b => "^$*+?.([%-".toUTF8.toList.contains b

/-- What a capture stands for: a part of the text or a position in it, counted from 1. -/
inductive Captured where
  | text (s : ByteArray)
  | position (n : Nat)

/-- The capture of a number; the whole match stands for the first one of none. -/
def captured (m : Context) (cs : Captures) (start stop i : Nat) : Except Fault Captured :=
  match cs[i]? with
  | none =>
    if i == 0 then .ok (.text (m.text.extract start stop))
    else fault ("invalid capture index %" ++ toString (i + 1))
  | some ⟨_, .unfinished⟩ => fault "unfinished capture"
  | some ⟨s, .position⟩ => .ok (.position (s + 1))
  | some ⟨s, .length n⟩ => .ok (.text (m.text.extract s (s + n)))

/-- All captures of a match; the whole match if there are none and `whole` says so. -/
def allCaptured (m : Context) (cs : Captures) (start stop : Nat) (whole : Bool) :
    Except Fault (List Captured) :=
  let count := if cs.isEmpty && whole then 1 else cs.size
  (List.range count).mapM (captured m cs start stop)

end Gauge.Script.Pattern
