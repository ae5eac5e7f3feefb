import Gauge.Text.Utf8
import Gauge.Yaml.Token
import Gauge.Yaml.Token.Cursor

/-!
Reading directives, tags, and the names of anchors.
-/

namespace Gauge.Yaml.Scan

open Cursor

/-! Tags. -/

/-- Characters of a tag; a bracket or a comma only where the tag has a definite end. -/
def isTagCharacter (bracketed : Bool) (c : Char) : Bool :=
  isWord c || ";/?:@&=+$.%!~*'()".toList.contains c || (bracketed && ",[]".toList.contains c)

def hexDigit? (c : Char) : Option Nat :=
  if c.isDigit then some (c.toNat - '0'.toNat)
  else if 'a' ≤ c.toLower && c.toLower ≤ 'f' then some (c.toLower.toNat - 'a'.toNat + 10)
  else none

/-- How many bytes a character has that begins with this byte. -/
def octetCount (b : UInt8) : Nat :=
  if b < 0x80 then 1
  else if b &&& 0xe0 == 0xc0 then 2
  else if b &&& 0xf0 == 0xe0 then 3
  else if b &&& 0xf8 == 0xf0 then 4
  else 0

/-- A byte written as a percent sign and two digits. -/
def octet (activity : Activity) (since : Mark) : Scan UInt8 := do
  match (← get).rest with
  | '%' :: high :: low :: _ =>
    match hexDigit? high, hexDigit? low with
    | some h, some l => return (h * 16 + l).toUInt8
    | _, _ => fail activity since .octetExpected
  | _ => fail activity since .octetExpected

/-- The other bytes of a character. -/
def octets (activity : Activity) (since : Mark) : Nat → Scan (List UInt8)
  | 0 => return []
  | n + 1 => do
    let b ← octet activity since
    if b &&& 0xc0 == 0x80 then
      skip 3
      return b :: (← octets activity since n)
    else fail activity since .octetNotTrailing

/-- A character that is written byte by byte. -/
def escapedCharacter (activity : Activity) (since : Mark) : Scan (List UInt8) := do
  let b ← octet activity since
  match octetCount b with
  | 0 => fail activity since .octetNotLeading
  | n + 1 =>
    skip 3
    return b :: (← octets activity since n)

def tagBytes (bracketed : Bool) (activity : Activity) (since : Mark) : Nat → Scan (List UInt8)
  | 0 => return []
  | fuel + 1 => do
    match ← next with
    | some '%' => return (← escapedCharacter activity since) ++ (← tagBytes bracketed activity since fuel)
    | some c =>
      if isTagCharacter bracketed c then
        skip 1
        return c.toString.toUTF8.toList ++ (← tagBytes bracketed activity since fuel)
      else return []
    | none => return []

/-- The rest of a tag of which `begun` has been read. Something has to be there in all. -/
def tagText (begun : List Char) (bracketed : Bool) (activity : Activity) (since : Mark) :
    Scan String := do
  let before ← mark
  let bytes ← tagBytes bracketed activity since (← size)
  if begun.isEmpty && (← mark) == before then fail activity since .tagExpected
  else return String.ofList (begun.drop 1) ++ Text.Utf8.lossy (ByteArray.mk bytes.toArray)

/-- The handle of a tag, which is not always told from the beginning of a tag without one. -/
def tagHandle (activity : Activity) (since : Mark) : Scan (List Char) := do
  if (← next) == some '!' then
    skip 1
    let name ← takeWhile isWord
    if (← next) == some '!' then
      skip 1
      return '!' :: name ++ ['!']
    else return '!' :: name
  else fail activity since .bangExpected

/-- A tag: its handle, and what follows it. One without a handle has an empty one. -/
def tag (inFlow : Bool) : Scan Lexeme := do
  let since ← mark
  let lexeme ←
    if (← get).second == some '<' then do
      skip 2
      let suffix ← tagText [] true .tagValue since
      if (← next) == some '>' then
        skip 1
        pure (Lexeme.tag "" suffix)
      else fail .tag since .closingExpected
    else do
      let handle ← tagHandle .tag since
      if 2 ≤ handle.length && handle.getLast? == some '!' then
        pure (Lexeme.tag (String.ofList handle) (← tagText [] false .tagValue since))
      else
        let suffix ← tagText handle false .tagValue since
        pure (if suffix.isEmpty then Lexeme.tag "" "!" else Lexeme.tag "!" suffix)
  let following ← next
  if isEnd following || (inFlow && following == some ',') then return lexeme
  else fail .tag since .blankOrLineEndExpected

/-! Anchors. -/

/-- The name of an anchor, after the character that marks it. -/
def anchorName (activity : Activity) : Scan String := do
  let since ← mark
  skip 1
  let name ← takeWhile isWord
  let following ← next
  if !name.isEmpty && (isEnd following || following.any ("?:,]\x7d%@`".toList.contains ·)) then
    return String.ofList name
  else fail activity since .nameExpected

/-! Directives. -/

/-- A number of a version, of at most nine digits. -/
def versionNumber (since : Mark) : Scan Nat := do
  let digits := ((← get).rest.takeWhile Char.isDigit)
  if digits.length > 9 then
    skip 9
    fail .versionDirective since .versionTooLong
  else if digits.isEmpty then fail .versionDirective since .versionMissing
  else
    skip digits.length
    return digits.foldl (fun n c => n * 10 + (c.toNat - '0'.toNat)) 0

def version (since : Mark) : Scan Lexeme := do
  skipWhile isBlank
  let major ← versionNumber since
  if (← next) == some '.' then
    skip 1
    return .versionDirective major (← versionNumber since)
  else fail .versionDirective since .versionDigitExpected

def handleDirective (since : Mark) : Scan Lexeme := do
  skipWhile isBlank
  let handle ← tagHandle .tagDirectiveHandle since
  if handle != ['!'] && !(2 ≤ handle.length && handle.getLast? == some '!') then
    fail .tagDirectiveName since .bangExpected
  else if !(← next).any isBlank then fail .tagDirective since .blankExpected
  else
    skipWhile isBlank
    let expansion ← tagText [] true .tagDirectiveValue since
    if isEnd (← next) then return .tagDirective (String.ofList handle) expansion
    else fail .tagDirective since .blankOrLineEndExpected

/-- A line that tells something about the document after it. -/
def directive : Scan Token := do
  let since ← mark
  skip 1
  let name ← takeWhile isWord
  if name.isEmpty then fail .directive since .directiveUnnamed
  else if !isEnd (← next) then fail .directive since .directiveNameBroken
  else
    let lexeme ← match String.ofList name with
      | "YAML" => version since
      | "TAG" => handleDirective since
      | _ => fail .directive since .directiveUnknown
    let last ← mark
    endOfLine .directive since
    return ⟨lexeme, since, last⟩

end Gauge.Yaml.Scan
