import TouchPanel.Proofs.Output.Value

/-!
# Unquoted code in the output tree

What stands inside a tree, and which texts it writes as they are. The editor's values are always
written as strings, expressions or plain words, so none of them can pass for a statement about a
lock.
-/

namespace TouchPanel

namespace Node

/-! ## Inside a tree -/

/-- The tree itself or a node inside it. -/
inductive Within (u : Node) : Node → Prop
  | refl : Within u u
  | map {entries : Mapping} {e : String × Node} (mem : e ∈ entries) (h : Within u e.2) :
      Within u (.map entries)
  | list {items : List Node} {item : Node} (mem : item ∈ items) (h : Within u item) :
      Within u (.list items)

theorem Within.trans {u v node : Node} (huv : Within u v) (h : Within v node) :
    Within u node := by
  induction h with
  | refl => exact huv
  | map mem _ ih => exact .map mem ih
  | list mem _ ih => exact .list mem ih

/-- The tree and all nodes inside it have a property. -/
def Everywhere (P : Node → Prop) (node : Node) : Prop := ∀ u, Within u node → P u

section

variable {P : Node → Prop}

theorem Everywhere.map {entries : Mapping} (hself : P (.map entries))
    (h : ∀ e ∈ entries, Everywhere P e.2) : Everywhere P (.map entries) := by
  intro u hu
  cases hu with
  | refl => exact hself
  | map mem hin => exact h _ mem u hin

theorem Everywhere.list {items : List Node} (hself : P (.list items))
    (h : ∀ item ∈ items, Everywhere P item) : Everywhere P (.list items) := by
  intro u hu
  cases hu with
  | refl => exact hself
  | list mem hin => exact h _ mem u hin

theorem Everywhere.single {key : String} {node : Node} (hself : P (.single key node))
    (h : Everywhere P node) : Everywhere P (.single key node) := by
  refine .map hself fun e he => ?_
  rw [List.mem_singleton.1 he]
  exact h

/-- A node with nothing inside it. -/
def isLeaf : Node → Bool
  | .map _ | .list _ => false
  | _ => true

theorem Everywhere.of_isLeaf {node : Node} (hleaf : node.isLeaf = true) (hself : P node) :
    Everywhere P node := by
  intro u hu
  cases hu with
  | refl => exact hself
  | map mem hin => cases hleaf
  | list mem hin => cases hleaf

end

/-! ## Code -/

/-- A text that stands as it is somewhere in the tree. -/
inductive Holds (code : String) : Node → Prop
  | raw : Holds code (.raw code)
  | map {entries : Mapping} {e : String × Node} (mem : e ∈ entries) (h : Holds code e.2) :
      Holds code (.map entries)
  | list {items : List Node} {item : Node} (mem : item ∈ items) (h : Holds code item) :
      Holds code (.list items)

/-- All texts that stand as they are in the tree are of one sort. -/
def CodeIn (P : String → Prop) (node : Node) : Prop := ∀ code, node.Holds code → P code

theorem holds_iff_within {code : String} {node : Node} :
    node.Holds code ↔ Within (.raw code) node := by
  constructor
  · intro h
    induction h with
    | raw => exact .refl
    | map mem _ ih => exact .map mem ih
    | list mem _ ih => exact .list mem ih
  · intro h
    induction h with
    | refl => exact .raw
    | map mem _ ih => exact .map mem ih
    | list mem _ ih => exact .list mem ih

theorem Holds.of_within {code : String} {u node : Node} (h : u.Holds code)
    (hin : Within u node) : node.Holds code :=
  holds_iff_within.2 ((holds_iff_within.1 h).trans hin)

theorem codeIn_iff_everywhere {P : String → Prop} {node : Node} :
    node.CodeIn P ↔ Everywhere (fun u => ∀ code, u = .raw code → P code) node := by
  constructor
  · rintro h u hu code rfl
    exact h code (holds_iff_within.2 hu)
  · intro h code hcode
    exact h _ (holds_iff_within.1 hcode) code rfl

/-- A node without parts that is not a text written as it is. -/
def isQuoted : Node → Bool
  | .raw _ | .map _ | .list _ => false
  | _ => true

end Node

/-- All values of the mapping have code of one sort. -/
def Mapping.CodeIn (P : String → Prop) (m : Mapping) : Prop := ∀ e ∈ m, e.2.CodeIn P

variable {P : String → Prop}

namespace Node

theorem CodeIn.of_isQuoted {node : Node} (h : node.isQuoted = true) : node.CodeIn P := by
  intro code hcode
  cases hcode <;> cases h

theorem CodeIn.raw {code : String} (h : P code) : CodeIn P (.raw code) := by
  intro c hc
  cases hc
  exact h

theorem CodeIn.map {m : Mapping} (h : m.CodeIn P) : CodeIn P (.map m) := by
  intro code hcode
  cases hcode with
  | map mem hheld => exact h _ mem code hheld

theorem CodeIn.list {items : List Node} (h : ∀ node ∈ items, CodeIn P node) :
    CodeIn P (.list items) := by
  intro code hcode
  cases hcode with
  | list mem hheld => exact h _ mem code hheld

end Node

namespace Mapping

open Node

variable {m : Mapping}

theorem codeIn_nil : Mapping.CodeIn P [] := fun _ h => absurd h List.not_mem_nil

theorem codeIn_cons {e : String × Node} (he : e.2.CodeIn P) (hm : m.CodeIn P) :
    Mapping.CodeIn P (e :: m) :=
  List.forall_mem_cons.2 ⟨he, hm⟩

end Mapping

/-! ## Values -/

namespace Node

theorem CodeIn.single {key : String} {node : Node} (h : node.CodeIn P) :
    CodeIn P (.single key node) :=
  .map (Mapping.codeIn_cons h Mapping.codeIn_nil)

theorem isQuoted_ofText? {s : String} {node : Node} (h : ofText? s = some node) :
    node.isQuoted = true := by
  unfold ofText? at h
  split at h
  · cases h
  · split at h
    · cases h
      rfl
    · cases h
      split <;> rfl

theorem builds_codeIn : Builds (fun _ => True) (fun _ => True) (CodeIn P) where
  map h := .map fun e he => (h e he).2
  list := .list
  bool _ := .of_isQuoted rfl
  int _ := .of_isQuoted rfl
  float _ := .of_isQuoted rfl
  text _ h := .of_isQuoted (isQuoted_ofText? h)
  field _ := trivial

theorem codeIn_ofValue? {v : Json.Value} {node : Node} (h : ofValue? v = some node) :
    node.CodeIn P :=
  builds_codeIn.value (fun _ _ => trivial) h

end Node

end TouchPanel
