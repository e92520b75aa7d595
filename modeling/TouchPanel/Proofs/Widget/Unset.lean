import TouchPanel.Proofs.Output.Pruned
import TouchPanel.Proofs.Widget.Asset
import TouchPanel.Proofs.Widget.Emitted

/-!
# Unset values

A field whose value is null or the empty string writes nothing, or the default that the schema wants
written, as if there were no value. The one exception are colours: the empty string is written
where the name of the output ends in `color`.
-/

namespace TouchPanel

open Json

variable {assets : AssetTable} {withDefaults : Bool} {values : List (String × Value)} {f : Field}
  {node : Node}

/-! ## One field -/

/-- The value under a key. -/
def storedValue? (values : List (String × Value)) (key : String) : Option Value :=
  (values.find? (·.1 = key)).map (·.2)

/-- Whether the texts of a field are colours. -/
def Field.isColor (f : Field) : Bool := Text.endsWith "color".toList f.output.toList

/-- The node of the default that is written where there is no value. -/
def Field.emitted? (f : Field) : Option Node :=
  if f.emitDefault then f.default.bind Node.ofValue? else none

/-- A field has no value, or a null or empty one that is no colour. -/
def Field.IsIdle (f : Field) (values : List (String × Value)) : Prop :=
  ∀ v ∈ storedValue? values f.key, v.isUnset = true ∧ (f.isColor = true → v ≠ .string "")

/-- What a field writes. -/
inductive Field.Writes (assets : AssetTable) (withDefaults : Bool) (f : Field)
    (values : List (String × Value)) : Node → Prop
  | value {v : Value} {node : Node} (stored : storedValue? values f.key = some v)
      (set : v.isUnset = false) (node_eq : valueNode? assets f.output v = some node) :
      Writes assets withDefaults f values node
  | emptyColor (stored : storedValue? values f.key = some (.string ""))
      (color : f.isColor = true) : Writes assets withDefaults f values (.str "")
  | default {node : Node} (idle : f.IsIdle values) (allowed : withDefaults = true)
      (node_eq : f.emitted? = some node) : Writes assets withDefaults f values node

/-- A field writes its value, or else the default that the schema wants written. -/
theorem fieldNode?_eq (assets : AssetTable) (withDefaults : Bool)
    (values : List (String × Value)) (f : Field) :
    fieldNode? assets withDefaults values f =
      ((storedValue? values f.key).bind (valueNode? assets f.output)).or
        (if withDefaults then f.emitted? else none) := by
  have hbind : ((values.find? (·.1 = f.key)).bind fun e => valueNode? assets f.output e.2) =
      (storedValue? values f.key).bind (valueNode? assets f.output) := by
    rw [storedValue?, Option.bind_map]
    rfl
  have hdefault : (if withDefaults && f.emitDefault then f.default.bind Node.ofValue? else none) =
      if withDefaults then f.emitted? else none := by
    unfold Field.emitted?
    cases withDefaults <;> rfl
  unfold fieldNode?
  rw [hbind, hdefault]
  cases (storedValue? values f.key).bind (valueNode? assets f.output) <;> rfl

/-- Without a value there is the default, if the schema wants it written. -/
theorem Field.IsIdle.writes_iff (h : f.IsIdle values) :
    f.Writes assets withDefaults values node ↔ withDefaults = true ∧ f.emitted? = some node := by
  constructor
  · intro hwrites
    cases hwrites with
    | value stored set =>
      rw [(h _ stored).1] at set
      cases set
    | emptyColor stored color => exact absurd rfl ((h _ stored).2 color)
    | default idle allowed node_eq => exact ⟨allowed, node_eq⟩
  · exact fun ⟨allowed, node_eq⟩ => .default h allowed node_eq

/-- The empty text refers to nothing. -/
theorem AssetTable.idOf?_empty (p : Project) : (ofProject p).idOf? "" = none := by
  rw [Option.eq_none_iff_forall_ne_some]
  intro id h
  rw [idOf?, ofProject_eq] at h
  have hmem := Table.mem_of_mem_ofList (Table.get?_eq_some_iff.1 h)
  obtain ⟨a, w, -, href⟩ : ∃ a, p.Refers (trimmed "") a := by
    rcases List.mem_append.1 hmem with hmem | hmem
    · obtain ⟨file, hrefers, -⟩ := mem_imageIds.1 hmem
      exact ⟨_, hrefers⟩
    · obtain ⟨key, hrefers, -⟩ := mem_fontIds.1 hmem
      exact ⟨_, hrefers⟩
  obtain ⟨e, he⟩ := Widget.exists_of_mem_references href
  obtain ⟨s, -, hs⟩ := Option.bind_eq_some_iff.1 he
  obtain ⟨b, hb, heq⟩ := Option.map_eq_some_iff.1 hs
  rw [(Prod.mk.inj heq).1] at hb
  cases hb

section

variable (hassets : assets.idOf? "" = none)

include hassets

/-- Null and the empty string are not written, but for the empty colour. -/
theorem valueNode?_eq_none_iff {output : String} {v : Value} :
    valueNode? assets output v = none ↔ v.isUnset = true ∧
      (Text.endsWith "color".toList output.toList = true → v ≠ .string "") := by
  cases v with
  | string s =>
    unfold valueNode?
    dsimp only
    generalize Text.endsWith "color".toList output.toList = isColor
    by_cases hs : s = ""
    · subst hs
      rw [hassets]
      cases isColor <;> simp [Node.ofText?_eq_none_iff, Value.isUnset]
    · cases assets.idOf? s <;> cases isColor <;>
        simp [Node.ofText?_eq_none_iff, Value.isUnset, hs]
  | _ => simp [valueNode?, Node.ofValue?_eq_none_iff]

theorem valueNode?_emptyColor (h : f.isColor = true) :
    valueNode? assets f.output (.string "") = some (.str "") := by
  unfold Field.isColor at h
  unfold valueNode?
  dsimp only
  rw [hassets, h]
  rfl

theorem fieldNode?_eq_some_iff :
    fieldNode? assets withDefaults values f = some node ↔
      f.Writes assets withDefaults values node := by
  rw [fieldNode?_eq]
  cases hnode : (storedValue? values f.key).bind (valueNode? assets f.output) with
  | some written =>
    obtain ⟨v, hv, hwritten⟩ := Option.bind_eq_some_iff.1 hnode
    have hset : f.IsIdle values → False := by
      intro hidle
      rw [(valueNode?_eq_none_iff hassets).2 (hidle v hv)] at hwritten
      cases hwritten
    constructor
    · intro h
      obtain rfl := Option.some.inj h
      by_cases hunset : v.isUnset = true
      · -- an unset value that is written is the empty colour
        have hcolor : f.isColor = true ∧ v = .string "" := by
          by_contra hnot
          refine hset fun v' hv' => ?_
          obtain rfl := Option.some.inj (hv.symm.trans hv')
          exact ⟨hunset, fun hcolor heq => hnot ⟨hcolor, heq⟩⟩
        obtain ⟨hcolor, rfl⟩ := hcolor
        obtain rfl := Option.some.inj (hwritten.symm.trans (valueNode?_emptyColor hassets hcolor))
        exact .emptyColor hv hcolor
      · exact .value hv (Bool.eq_false_of_not_eq_true hunset) hwritten
    · intro h
      cases h with
      | value stored set node_eq =>
        obtain rfl := Option.some.inj (hv.symm.trans stored)
        exact hwritten.symm.trans node_eq
      | emptyColor stored color =>
        obtain rfl := Option.some.inj (hv.symm.trans stored)
        exact hwritten.symm.trans (valueNode?_emptyColor hassets color)
      | default idle => exact (hset idle).elim
  | none =>
    have hidle : f.IsIdle values := by
      intro v hv
      rw [Option.mem_def.1 hv, Option.bind_some] at hnode
      exact (valueNode?_eq_none_iff hassets).1 hnode
    constructor
    · intro h
      obtain ⟨hallowed, hemitted⟩ := Option.ite_none_right_eq_some.1 h
      exact .default hidle hallowed hemitted
    · intro h
      cases h with
      | value stored set node_eq =>
        rw [stored, Option.bind_some, node_eq] at hnode
        cases hnode
      | emptyColor stored color =>
        rw [stored, Option.bind_some, valueNode?_emptyColor hassets color] at hnode
        cases hnode
      | default idle allowed node_eq =>
        rw [allowed, if_pos rfl]
        exact node_eq

end

/-! ## Fields of one mapping -/

/-- Fields with the values that they are looked up in, in the order in which they are written. -/
abbrev Slots := List (Field × List (String × Value))

def putSlot (assets : AssetTable) (withDefaults : Bool) (m : Mapping)
    (s : Field × List (String × Value)) : Mapping :=
  match fieldNode? assets withDefaults s.2 s.1 with
  | some node => m.insert s.1.output node
  | none => m

/-- No field is written under the key. -/
def Slots.Silent (assets : AssetTable) (withDefaults : Bool) (slots : Slots) (key : String) :
    Prop :=
  ∀ s ∈ slots, s.1.output = key → ∀ node, ¬ s.1.Writes assets withDefaults s.2 node

/-- The last field that is written under the key has the node. -/
inductive Slots.LastWrites (assets : AssetTable) (withDefaults : Bool) (key : String)
    (node : Node) : Slots → Prop
  | here {s : Field × List (String × Value)} {rest : Slots} (output : s.1.output = key)
      (writes : s.1.Writes assets withDefaults s.2 node)
      (silent : rest.Silent assets withDefaults key) :
      LastWrites assets withDefaults key node (s :: rest)
  | later {s : Field × List (String × Value)} {rest : Slots}
      (last : LastWrites assets withDefaults key node rest) :
      LastWrites assets withDefaults key node (s :: rest)

theorem Slots.lastWrites_cons_iff {s : Field × List (String × Value)} {rest : Slots}
    {key : String} : LastWrites assets withDefaults key node (s :: rest) ↔
      rest.LastWrites assets withDefaults key node ∨ s.1.output = key ∧
        s.1.Writes assets withDefaults s.2 node ∧ rest.Silent assets withDefaults key := by
  constructor
  · rintro (⟨output, writes, silent⟩ | last)
    · exact Or.inr ⟨output, writes, silent⟩
    · exact Or.inl last
  · rintro (last | ⟨output, writes, silent⟩)
    · exact .later last
    · exact .here output writes silent

theorem putFields_eq_foldl (fields : List Field) (m : Mapping) :
    putFields assets withDefaults values fields m =
      (fields.map (·, values)).foldl (putSlot assets withDefaults) m := by
  rw [putFields, List.foldl_map]
  rfl

section

variable (hassets : assets.idOf? "" = none)

include hassets

theorem get?_putSlot_iff {s : Field × List (String × Value)} {key : String} (m : Mapping) :
    (putSlot assets withDefaults m s).get? key = some node ↔
      s.1.output = key ∧ s.1.Writes assets withDefaults s.2 node ∨
        (s.1.output = key → ∀ node, ¬ s.1.Writes assets withDefaults s.2 node) ∧
          m.get? key = some node := by
  simp only [← fieldNode?_eq_some_iff hassets]
  rw [putSlot]
  cases fieldNode? assets withDefaults s.2 s.1 with
  | none => simp
  | some written =>
    by_cases hkey : s.1.output = key
    · simp [hkey, Mapping.get?_insert_self]
    · simp [hkey, Mapping.get?_insert_of_ne m (Ne.symm hkey)]

/-- What stands under a key once all fields are written. -/
theorem get?_putSlots_iff {slots : Slots} {key : String} (m : Mapping) :
    (slots.foldl (putSlot assets withDefaults) m).get? key = some node ↔
      slots.LastWrites assets withDefaults key node ∨
        slots.Silent assets withDefaults key ∧ m.get? key = some node := by
  induction slots generalizing m with
  | nil =>
    constructor
    · exact fun h => Or.inr ⟨by simp [Slots.Silent], h⟩
    · rintro (h | ⟨-, h⟩)
      · cases h
      · exact h
  | cons s rest ih =>
    rw [List.foldl_cons, ih, get?_putSlot_iff hassets, Slots.lastWrites_cons_iff, Slots.Silent,
      Slots.Silent, List.forall_mem_cons]
    tauto

end

/-! ## Widgets -/

/-- The fields of a widget's properties and style. -/
def Schema.slots (schema : Schema) (w : Widget) : Slots :=
  schema.props.map (·, w.props.entries) ++ schema.style.map (·, w.style.entries)

/-- What stands under a key of a widget that belongs to no part, event or list of styles. -/
theorem Widget.get?_body_iff {c : PageContext} (hassets : c.assets.idOf? "" = none) (w : Widget)
    {schema : Schema} (hschema : c.registry.resolve? w.kind = some schema) {key : String}
    (hstyles : key ≠ "styles") (hparts : ∀ part ∈ schema.parts, part.1 ≠ key)
    (hevents : key ∉ schema.events) :
    Mapping.get? (w.body c) key = some node ↔
      (schema.slots w).LastWrites c.assets true key node ∨
        (schema.slots w).Silent c.assets true key ∧
          Mapping.get? (w.geometry (c.policy.emitted w.id)) key = some node := by
  have hevent : ∀ event ∈ schema.events, event ≠ key :=
    fun event hevent heq => hevents (heq ▸ hevent)
  have hfields : ∀ m, putFields c.assets true w.style.entries schema.style
      (putFields c.assets true w.props.entries schema.props m) =
        (schema.slots w).foldl (putSlot c.assets true) m := fun m => by
    rw [putFields_eq_foldl, putFields_eq_foldl, Schema.slots, List.foldl_append]
  unfold body
  dsimp only
  rw [hschema]
  dsimp only
  rw [Mapping.get?_foldl schema.events fun m event hmem =>
      get?_putEvent_of_ne w c.handlers _ m (hevent event hmem),
    Mapping.get?_foldl schema.parts fun m part hpart =>
      get?_putPart w c.assets m part (hparts part hpart),
    get?_putStyles w c.styles _ hstyles, hfields]
  exact get?_putSlots_iff hassets _

end TouchPanel
