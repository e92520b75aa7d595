import TouchPanel.Decimal.Layout
import TouchPanel.Text.Quoted

/-!
# JSON values

The values of JSON with integers and doubles told apart, and their compact text.
The fields of an object keep the order in which they are listed.
-/

namespace TouchPanel.Json

inductive Number where
  /-- An integer of at most 64 bits, with or without a sign. -/
  | int (n : Int)
  | float (x : Float)
  deriving Inhabited

inductive Value where
  | null
  | bool (b : Bool)
  | number (n : Number)
  | string (s : String)
  | array (items : List Value)
  | object (fields : List (String × Value))
  deriving Inhabited

/-- JSON text writes a number positionally from 0.00001 up to below 10^16. -/
def jsonNumber : Decimal.Layout :=
  { leastPlaces := -4, mostPlaces := 16, plusSign := true, tie := .even }

/-- A number that is not finite has no JSON text; it is written as null. -/
def Number.text : Number → Text
  | .int n => Decimal.ofInt n
  | .float x =>
    match Binary64.parts x with
    | .finite .. => jsonNumber.text x
    | _ => "null".toList

namespace Value

mutual

/-- The text of a value without any white space. -/
def text (v : Value) : Text :=
  match v with
  | .null => "null".toList
  | .bool b => if b then "true".toList else "false".toList
  | .number n => n.text
  | .string s => Text.quote s.toList
  | .array items => '[' :: (itemsText items ++ [']'])
  | .object fields => '{' :: (fieldsText fields ++ ['}'])

def itemsText (items : List Value) : Text :=
  match items with
  | [] => []
  | [v] => text v
  | v :: w :: r => text v ++ ',' :: itemsText (w :: r)

def fieldsText (fields : List (String × Value)) : Text :=
  match fields with
  | [] => []
  | [(k, v)] => Text.quote k.toList ++ ':' :: text v
  | (k, v) :: f :: r => Text.quote k.toList ++ ':' :: (text v ++ ',' :: fieldsText (f :: r))

end

/-- The string that a value is. -/
def string? : Value → Option String
  | .string s => some s
  | _ => none

end Value

end TouchPanel.Json
