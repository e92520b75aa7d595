/-!
# Output tree

The document is built as a tree of nodes and written in one place. A mapping keeps
its keys in the order in which they were inserted.
-/

namespace TouchPanel

inductive Node where
  /-- A quoted string. -/
  | str (s : String)
  /-- A plain word written as it is: an id, an enumeration word, a unit. -/
  | ident (s : String)
  | int (n : Int)
  | float (x : Float)
  | bool (b : Bool)
  /-- An expression of the device's own language. -/
  | lambda (code : String)
  /-- Scalar text written as it is. -/
  | raw (s : String)
  /-- Text of several lines. -/
  | text (s : String)
  /-- Hand-written entries that are only re-indented. -/
  | fragment (s : String)
  | map (entries : List (String × Node))
  | list (items : List Node)
  deriving Inhabited

abbrev Mapping := List (String × Node)

namespace Mapping

/-- Replaces the value of a key in place, or adds the key at the end. -/
def insert (m : Mapping) (key : String) (node : Node) : Mapping :=
  match m with
  | [] => [(key, node)]
  | (k, v) :: r => if k = key then (k, node) :: r else (k, v) :: insert r key node

def get? (m : Mapping) (key : String) : Option Node :=
  (m.find? (·.1 = key)).map (·.2)

def contains (m : Mapping) (key : String) : Bool := (m.get? key).isSome

def erase (m : Mapping) (key : String) : Mapping := m.eraseP (·.1 = key)

/-- Replaces the value of a key if it is there. -/
def modify (m : Mapping) (key : String) (node : Node) : Mapping :=
  if m.contains key then m.insert key node else m

def keys (m : Mapping) : List String := m.map (·.1)

def ofList (entries : List (String × Node)) : Mapping :=
  entries.foldl (fun m (k, v) => m.insert k v) []

theorem keys_insert (m : Mapping) (key : String) (node : Node) :
    (m.insert key node).keys = if key ∈ m.keys then m.keys else m.keys ++ [key] := by
  induction m with
  | nil => rfl
  | cons e r ih =>
    obtain ⟨k, v⟩ := e
    by_cases h : k = key
    · simp [insert, keys, h]
    · have ih' : List.map (·.1) (insert r key node) =
          if key ∈ List.map (·.1) r then List.map (·.1) r else List.map (·.1) r ++ [key] := ih
      simp only [insert, h, if_false, keys, List.map_cons, ih', List.mem_cons, Ne.symm h, false_or]
      split <;> simp

theorem nodup_keys_insert {m : Mapping} (h : m.keys.Nodup) (key : String) (node : Node) :
    (m.insert key node).keys.Nodup := by
  rw [keys_insert]
  split
  · exact h
  · next hk =>
    refine List.nodup_append.2 ⟨h, by simp, ?_⟩
    intro a ha b hb hab
    rw [List.mem_singleton] at hb
    exact hk (hb ▸ hab ▸ ha)

end Mapping

/-- A mapping with a single key. -/
def Node.single (key : String) (value : Node) : Node := .map [(key, value)]

end TouchPanel
