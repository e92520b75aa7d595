import TouchPanel.Decimal.Reading

/-!
# JSON tokens

Numbers and strings keep what was written. Whether a number is too large for a
double or a string holds half of a surrogate pair only matters where the value is
used, so neither is refused here.
-/

namespace TouchPanel.Json

/-- A number as it was written. -/
structure Numeral where
  negative : Bool
  whole : Text
  fraction : Text
  /-- The sign and the digits of the exponent. -/
  exponent : Option (Bool × Text)

inductive Token where
  | openBrace
  | closeBrace
  | openBracket
  | closeBracket
  | comma
  | colon
  | null
  | bool (b : Bool)
  | number (n : Numeral)
  /-- A string, or nothing if it cannot be represented. -/
  | string (s : Option String)

namespace Token

def isSpace (c : Char) : Bool := c = ' ' || c = '\n' || c = '\t' || c = '\r'

def hexValue? (c : Char) : Option Nat :=
  if c.isDigit then some (c.toNat - 48)
  else if 'a' ≤ c && c ≤ 'f' then some (c.toNat - 87)
  else if 'A' ≤ c && c ≤ 'F' then some (c.toNat - 55)
  else none

/-- The value of four hexadecimal digits. -/
def hex4? (a b c d : Char) : Option Nat := do
  return ((← hexValue? a) * 16 + (← hexValue? b)) * 256 + ((← hexValue? c) * 16 + (← hexValue? d))

/-- The character that a backslash and a letter stand for. -/
def shortEscape? (c : Char) : Option Char :=
  if c = '"' ∨ c = '\\' ∨ c = '/' then some c
  else if c = 'b' then some '\x08'
  else if c = 'f' then some '\x0c'
  else if c = 'n' then some '\n'
  else if c = 'r' then some '\r'
  else if c = 't' then some '\t'
  else none

/-- The units of a string up to its closing quote, and what follows it. A unit is
a code point or half of a surrogate pair. -/
def units? : Text → Option (List Nat × Text)
  | [] => none
  | '"' :: r => some ([], r)
  | '\\' :: 'u' :: a :: b :: c :: d :: r =>
    match hex4? a b c d, units? r with
    | some n, some (us, rest) => some (n :: us, rest)
    | _, _ => none
  | '\\' :: c :: r =>
    match shortEscape? c, units? r with
    | some e, some (us, rest) => some (e.toNat :: us, rest)
    | _, _ => none
  | c :: r =>
    if c.toNat < 0x20 || c = '\\' then none
    else match units? r with
      | some (us, rest) => some (c.toNat :: us, rest)
      | none => none

def isHighSurrogate (n : Nat) : Bool := 0xD800 ≤ n && n < 0xDC00

def isLowSurrogate (n : Nat) : Bool := 0xDC00 ≤ n && n < 0xE000

/-- Joins surrogate pairs; half of a pair alone has no character. -/
def joinUnits? : List Nat → Option Text
  | [] => some []
  | u :: r =>
    if isHighSurrogate u then
      match r with
      | v :: r' =>
        if isLowSurrogate v then
          (joinUnits? r').map (Char.ofNat (0x10000 + (u - 0xD800) * 0x400 + (v - 0xDC00)) :: ·)
        else none
      | [] => none
    else if isLowSurrogate u then none
    else (joinUnits? r).map (Char.ofNat u :: ·)

/-- Digits and the rest, if there is at least one digit. -/
def digits1? (t : Text) : Option (Text × Text) :=
  let (ds, r) := Decimal.takeDigits t
  if ds.isEmpty then none else some (ds, r)

/-- A number of which the sign has been taken off. A leading zero stands alone. -/
def numeral? (negative : Bool) (t : Text) : Option (Numeral × Text) := do
  let (whole, r) ← match t with
    | '0' :: r => some (['0'], r)
    | _ => digits1? t
  let (fraction, r) ← match r with
    | '.' :: r => digits1? r
    | _ => some ([], r)
  match r with
  | c :: r' =>
    if c = 'e' ∨ c = 'E' then
      let (sign, r') := Decimal.takeSign r'
      let (ds, rest) ← digits1? r'
      return (⟨negative, whole, fraction, some (sign, ds)⟩, rest)
    else return (⟨negative, whole, fraction, none⟩, r)
  | [] => return (⟨negative, whole, fraction, none⟩, r)

/-- The first token of a text that begins with no white space. -/
def first? : Text → Option (Token × Text)
  | [] => none
  | c :: r =>
    if c = '\x7b' then some (.openBrace, r)
    else if c = '\x7d' then some (.closeBrace, r)
    else if c = '[' then some (.openBracket, r)
    else if c = ']' then some (.closeBracket, r)
    else if c = ',' then some (.comma, r)
    else if c = ':' then some (.colon, r)
    else if c = '"' then
      (units? r).map fun (us, rest) => (.string ((joinUnits? us).map String.ofList), rest)
    else if c = '-' then (numeral? true r).map fun (n, rest) => (.number n, rest)
    else if c.isDigit then (numeral? false (c :: r)).map fun (n, rest) => (.number n, rest)
    else if let some rest := Text.after? "null".toList (c :: r) then some (.null, rest)
    else if let some rest := Text.after? "true".toList (c :: r) then some (.bool true, rest)
    else if let some rest := Text.after? "false".toList (c :: r) then some (.bool false, rest)
    else none

/-- At most `fuel` tokens of a text. -/
def scan? : Nat → Text → Option (List Token)
  | fuel, t =>
    match t.dropWhile isSpace with
    | [] => some []
    | c :: r =>
      match fuel with
      | 0 => none
      | fuel + 1 =>
        match first? (c :: r) with
        | none => none
        | some (token, rest) => (scan? fuel rest).map (token :: ·)

/-- The tokens of a text. -/
def ofText? (t : Text) : Option (List Token) := scan? t.length t

end Token

end TouchPanel.Json
