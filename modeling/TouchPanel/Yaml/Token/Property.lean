import TouchPanel.Yaml.Source
import TouchPanel.Yaml.Token.Basic
import TouchPanel.Decimal.Reading
import TouchPanel.Json.Token

/-!
# Anchors, tags and directives

The names, tags and directives of a document, without the character that introduces
them, and what follows them.
-/

namespace TouchPanel.Yaml

/-! ## Names -/

/-- The name of an anchor or an alias. Not every character may follow it. -/
def name? (s : Source) : Option (Text × Source) :=
  let (name, r) := Source.readWhile isWordChar s
  if name.isEmpty then none
  else if Source.atSeparator r || Source.next ("?:,]\x7d%@\x60".toList.contains ·) r then
    some (name, r)
  else none

/-! ## Tags -/

/-- A character of a tag. In a complete tag the flow indicators may stand, too. -/
def isTagChar (complete : Bool) (c : Char) : Bool :=
  isWordChar c || ";/?:@&=+$.%!~*'()".toList.contains c || (complete && ",[]".toList.contains c)

def octetsOf (t : Text) : Octets := (String.ofList t).toUTF8.toList

/-- How many octets a UTF-8 sequence has that begins with this one. -/
def sequenceLength? (octet : UInt8) : Option Nat :=
  if octet &&& 0x80 = 0 then some 1
  else if octet &&& 0xE0 = 0xC0 then some 2
  else if octet &&& 0xF0 = 0xE0 then some 3
  else if octet &&& 0xF8 = 0xF0 then some 4
  else none

/-- The octets of a tag. An octet may be written as a percent sign and two
hexadecimal digits; `pending` more octets have to continue a sequence that way. -/
def unescapeTag? : (pending : Nat) → Text → Option Octets
  | 0, [] => some []
  | _ + 1, [] => none
  | pending, '%' :: a :: b :: r => do
    let octet := UInt8.ofNat (16 * (← Json.Token.hexValue? a) + (← Json.Token.hexValue? b))
    let left ← match pending with
      | 0 => (sequenceLength? octet).map (· - 1)
      | left + 1 => if octet &&& 0xC0 = 0x80 then some left else none
    return octet :: (← unescapeTag? left r)
  | pending, c :: r =>
    if pending ≠ 0 ∨ c = '%' then none
    else (unescapeTag? 0 r).map (octetsOf [c] ++ ·)

/-- A tag ends at its first zero octet. -/
def tagOctets? (t : Text) : Option Octets := (unescapeTag? 0 t).map (·.takeWhile (· ≠ 0))

/-- The handle of a tag and the rest. What looks like a handle without a closing
exclamation mark belongs to the tag. -/
def handle (s : Source) : Text × Source :=
  let (word, r) := Source.readWhile isWordChar s
  match r with
  | g :: r' => if g.char = '!' then ('!' :: word ++ ['!'], r') else (['!'], s)
  | [] => (['!'], s)

/-- A tag without its exclamation mark. The mark alone is a complete tag. -/
def tag? (inFlow : Bool) (s : Source) : Option (Token × Source) := do
  let (token, r) ← match s with
    | { char := '<', .. } :: r =>
      let (t, r) := Source.readWhile (isTagChar true) r
      let octets ← tagOctets? t
      match r with
      | { char := '>', .. } :: r => if t.isEmpty then none else some (Token.tag [] octets, r)
      | _ => none
    | _ =>
      let (handle, r) := handle s
      let (t, r) := Source.readWhile (isTagChar false) r
      let octets ← tagOctets? t
      if handle.length > 1 then if t.isEmpty then none else some (Token.tag handle octets, r)
      else if octets.isEmpty then some (Token.tag [] (octetsOf ['!']), r)
      else some (Token.tag handle octets, r)
  if Source.atSeparator r || (inFlow && Source.next (· == ',') r) then some (token, r) else none

/-! ## Directives -/

/-- The number at the beginning, of at most nine digits. -/
def versionNumber? (s : Source) : Option (Nat × Source) :=
  let (ds, r) := Source.readWhile Char.isDigit s
  if ds.isEmpty || ds.length > 9 then none else some (Decimal.digitsValue ds, r)

def version? (s : Source) : Option (Token × Source) := do
  let (major, r) ← versionNumber? (Source.skipSpaces s)
  match r with
  | { char := '.', .. } :: r =>
    let (minor, r) ← versionNumber? r
    return (.version major minor, r)
  | _ => none

def tagPrefix? (s : Source) : Option (Token × Source) :=
  match Source.skipSpaces s with
  | { char := '!', .. } :: r => do
    let (handle, r) := handle r
    if !Source.next isSpace r then none
    else
      let (t, r) := Source.readWhile (isTagChar true) (Source.skipSpaces r)
      let octets ← tagOctets? t
      if t.isEmpty || !Source.atSeparator r then none else return (.tagPrefix handle octets, r)
  | _ => none

/-- A directive without its percent sign, up to the end of the line. -/
def directive? (s : Source) : Option (Token × Source) := do
  let (name, r) := Source.readWhile isWordChar s
  if !Source.atSeparator r then none
  else
    let (token, r) ←
      if name = "YAML".toList then version? r
      else if name = "TAG".toList then tagPrefix? r
      else none
    return (token, ← Source.nextLine? r)

end TouchPanel.Yaml
