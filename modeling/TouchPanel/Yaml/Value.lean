import TouchPanel.Yaml.Plain
import TouchPanel.Yaml.Term

/-!
# YAML values

The value of a document whose shape is not known. The keys of a mapping are
distinct; a tag that begins with an exclamation mark is kept, and the common tags
demand a kind of scalar.
-/

namespace TouchPanel.Yaml

namespace Tag

def common (name : String) : Octets := octetsOf ("tag:yaml.org,2002:" ++ name).toList

/-- The name of a tag that begins with an exclamation mark. The mark alone is a name. -/
def localName? (octets : Octets) : Option String :=
  match octets with
  | [0x21] => some "!"
  | 0x21 :: r => String.fromUTF8? ⟨r.toArray⟩
  | _ => none

end Tag

inductive Value where
  | null
  | bool (b : Bool)
  | int (n : Int)
  | float (x : Float)
  | string (s : String)
  | sequence (items : List Value)
  | mapping (pairs : List (Value × Value))
  | tagged (tag : String) (v : Value)
  deriving Inhabited

namespace Value

/-- A tag's name without one more exclamation mark. -/
def bareTag (tag : String) : Text :=
  match tag.toList with
  | '!' :: c :: r => c :: r
  | t => t

mutual

/-- Whether two values are the same key. The order of the pairs of a mapping carries
no meaning, and the undefined number is the same as itself. -/
def same : Value → Value → Bool
  | .null, .null => true
  | .bool a, .bool b => a == b
  | .int a, .int b => a == b
  | .float a, .float b => a == b || (a.isNaN && b.isNaN)
  | .string a, .string b => a == b
  | .sequence a, .sequence b => sameItems a b
  | .mapping a, .mapping b => a.length == b.length && samePairs a b
  | .tagged a v, .tagged b w => bareTag a == bareTag b && same v w
  | _, _ => false

def sameItems : List Value → List Value → Bool
  | [], [] => true
  | v :: r, w :: s => same v w && sameItems r s
  | _, _ => false

/-- Whether each of the pairs is among `others`. -/
def samePairs : List (Value × Value) → List (Value × Value) → Bool
  | [], _ => true
  | (k, v) :: r, others => others.any (fun (k', v') => same k k' && same v v') && samePairs r others

end

/-- The value of a plain scalar. An integer of more than 64 bits has none. -/
def ofPlain? (t : Text) : Option Value :=
  if Plain.isNull t then some .null
  else match Plain.bool? t with
    | some b => some (.bool b)
    | none =>
      match Plain.int? t with
      | some n => if Plain.fitsWord n then some (.int n) else none
      | none =>
        if Plain.hasLeadingZero t then some (.string (String.ofList t))
        else match Plain.float? t with
          | some x => some (.float x)
          | none => some (.string (String.ofList t))

/-- The value of a scalar regardless of its tag. -/
def ofUntagged? (style : Style) (t : Text) : Option Value :=
  if style = .plain then ofPlain? t else some (.string (String.ofList t))

/-- The value of a scalar whose tag is no local one. -/
def ofScalar? (tag : Option Octets) (style : Style) (t : Text) : Option Value :=
  match tag with
  | none => ofUntagged? style t
  | some tag =>
    if tag = Tag.common "bool" then (Plain.bool? t).map .bool
    else if tag = Tag.common "int" then ((Plain.int? t).filter Plain.fitsWord).map .int
    else if tag = Tag.common "float" then (Plain.float? t).map .float
    else if tag = Tag.common "null" then
      if Plain.isNull t && !t.isEmpty then some .null else none
    else if tag.head? = some 0x21 && style = .plain then ofPlain? t
    else some (.string (String.ofList t))

/-- Puts a local tag around a value. -/
def withTag (tag : Option Octets) (v : Value) : Value :=
  (tag.bind Tag.localName?).elim v (.tagged · v)

mutual

/-- The value of a term, of which the mappings may have a key several times. -/
def ofTerm? : Term → Option Value
  | .scalar tag style text =>
    match tag.bind Tag.localName? with
    | some name => (ofUntagged? style text).map (.tagged name)
    | none => ofScalar? tag style text
  | .sequence tag items => (ofItems? items).map fun vs => withTag tag (.sequence vs)
  | .mapping tag pairs => (ofPairs? pairs).map fun ps => withTag tag (.mapping ps)

def ofItems? : List Term → Option (List Value)
  | [] => some []
  | t :: r =>
    match ofTerm? t, ofItems? r with
    | some v, some vs => some (v :: vs)
    | _, _ => none

def ofPairs? : List (Term × Term) → Option (List (Value × Value))
  | [] => some []
  | (k, t) :: r =>
    match ofTerm? k, ofTerm? t, ofPairs? r with
    | some k, some v, some ps => some ((k, v) :: ps)
    | _, _, _ => none

end

mutual

/-- Whether no mapping has a key twice. -/
def hasDistinctKeys : Value → Bool
  | .sequence items => itemsHaveDistinctKeys items
  | .mapping pairs => pairsHaveDistinctKeys pairs
  | .tagged _ v => hasDistinctKeys v
  | _ => true

def itemsHaveDistinctKeys : List Value → Bool
  | [] => true
  | v :: r => hasDistinctKeys v && itemsHaveDistinctKeys r

def pairsHaveDistinctKeys : List (Value × Value) → Bool
  | [] => true
  | (k, v) :: r =>
    !r.any (same k ·.1) && hasDistinctKeys k && hasDistinctKeys v && pairsHaveDistinctKeys r

end

mutual

/-- Whether a tag is kept somewhere in a value. -/
def hasTag : Value → Bool
  | .sequence items => itemsHaveTag items
  | .mapping pairs => pairsHaveTag pairs
  | .tagged .. => true
  | _ => false

def itemsHaveTag : List Value → Bool
  | [] => false
  | v :: r => hasTag v || itemsHaveTag r

def pairsHaveTag : List (Value × Value) → Bool
  | [] => false
  | (k, v) :: r => hasTag k || hasTag v || pairsHaveTag r

end

/-- The value of the only document of a text. -/
def ofText? (t : Text) : Option Value :=
  ((Term.ofText? t).bind ofTerm?).filter hasDistinctKeys

/-- A value without its tags. -/
def untagged : Value → Value
  | .tagged _ v => untagged v
  | v => v

/-- What a mapping has under a key that is a string. -/
def get? (v : Value) (key : String) : Option Value :=
  match v.untagged with
  | .mapping pairs => (pairs.find? fun (k, _) => k.same (.string key)).map (·.2)
  | _ => none

def string? (v : Value) : Option String :=
  match v.untagged with
  | .string s => some s
  | _ => none

end Value

end TouchPanel.Yaml
