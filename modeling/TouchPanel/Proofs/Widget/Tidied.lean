import TouchPanel.Proofs.Document.Relevant
import TouchPanel.Proofs.Widget.Unset

/-!
# Projects without unset values

A project is compiled like the same project without its null and empty values: those among the
properties, styles and parts of widgets and in style definitions, and those in arrays and objects
at any depth. Kept are the empty colours, and the empty text that names no styles.
-/

namespace TouchPanel

open Json

variable {assets : AssetTable} {withDefaults : Bool} {values : List (String × Value)} {f : Field}
  {blank : String → Bool} {key : String}

/-! ## Entries -/

/-- Null, or the empty string where that is not shown. -/
def Json.Value.isIdle (blank : Bool) : Value → Bool
  | .null => true
  | .string s => s = "" && !blank
  | _ => false

/-- Whether anything is stored under a key. The empty string counts under the keys `blank`. -/
def isSet (blank : String → Bool) (values : List (String × Value)) (key : String) : Bool :=
  values.any fun e => e.1 = key && !e.2.isIdle (blank key)

/-- The entries under the keys that have a value, without null and empty strings in them. -/
def tidied (blank : String → Bool) (values : List (String × Value)) : List (String × Value) :=
  (values.filter fun e => isSet blank values e.1).map fun e => (e.1, e.2.pruned)

def Table.tidied (blank : String → Bool) (t : Table String Value) : Table String Value :=
  (t.keep fun e => isSet blank t.entries e.1).mapWithKey fun _ v => v.pruned

theorem Table.get?_tidied (blank : String → Bool) (t : Table String Value) (key : String) :
    (t.tidied blank).get? key =
      if isSet blank t.entries key then (t.get? key).map Value.pruned else none := by
  rw [Table.tidied, get?_mapWithKey, get?_keep]
  dsimp only
  cases isSet blank t.entries key <;> cases t.get? key <;> rfl

/-- The keys whose empty text is written as a colour. -/
def colorKeys (fields : List Field) (key : String) : Bool :=
  fields.any fun f => f.key = key && f.isColor

theorem storedValue?_tidied (blank : String → Bool) (values : List (String × Value))
    (key : String) : storedValue? (tidied blank values) key =
      if isSet blank values key then (storedValue? values key).map Value.pruned else none := by
  have hfind : (values.filter fun e => isSet blank values e.1).find? (·.1 = key) =
      if isSet blank values key then values.find? (·.1 = key) else none := by
    rw [List.find?_filter]
    cases hset : isSet blank values key with
    | true =>
      rw [if_pos rfl]
      congr 1
      funext e
      by_cases he : e.1 = key <;> simp [he, hset]
    | false =>
      rw [if_neg (by decide), List.find?_eq_none]
      intro e _
      by_cases he : e.1 = key <;> simp [he, hset]
  unfold storedValue? tidied
  rw [List.find?_map, Option.map_map]
  refine (congrArg (Option.map _) hfind).trans ?_
  cases isSet blank values key with
  | false => rfl
  | true =>
    rw [if_pos rfl, if_pos rfl, Option.map_map]
    rfl

theorem valueNode?_pruned (assets : AssetTable) (output : String) (v : Value) :
    valueNode? assets output v.pruned = valueNode? assets output v := by
  cases v with
  | array | object => exact Node.ofValue?_pruned _
  | _ => rw [Value.pruned]

theorem isIdle_of_not_isSet (h : isSet blank values key = false) {v : Value}
    (hv : storedValue? values key = some v) : v.isIdle (blank key) = true := by
  obtain ⟨e, he, rfl⟩ := Option.map_eq_some_iff.1 hv
  have hkey : e.1 = key := by simpa using List.find?_some he
  have hidle := List.any_eq_false.1 h e (List.mem_of_find?_eq_some he)
  simpa [hkey] using hidle

section

variable (hassets : assets.idOf? "" = none)

include hassets

/-- Fields do not see entries that are not set. -/
theorem fieldNode?_tidied (hblank : f.isColor = true → blank f.key = true) :
    fieldNode? assets withDefaults (tidied blank values) f =
      fieldNode? assets withDefaults values f := by
  have hsame : (storedValue? (tidied blank values) f.key).bind (valueNode? assets f.output) =
      (storedValue? values f.key).bind (valueNode? assets f.output) := by
    rw [storedValue?_tidied]
    cases hset : isSet blank values f.key with
    | true =>
      rw [if_pos rfl, Option.bind_map]
      exact congrArg _ (funext fun v => valueNode?_pruned assets f.output v)
    | false =>
      rw [if_neg (by decide), Option.bind_none]
      cases hv : storedValue? values f.key with
      | none => rfl
      | some v =>
        have hidle := isIdle_of_not_isSet hset hv
        refine ((valueNode?_eq_none_iff hassets).2 ⟨?_, fun hcolor heq => ?_⟩).symm
        · cases v <;> simp_all [Value.isIdle, Value.isUnset]
        · rw [heq, hblank hcolor] at hidle
          cases hidle
  rw [fieldNode?_eq, fieldNode?_eq, hsame]

theorem putFields_tidied {fields : List Field}
    (hblank : ∀ f ∈ fields, f.isColor = true → blank f.key = true) (m : Mapping) :
    putFields assets withDefaults (tidied blank values) fields m =
      putFields assets withDefaults values fields m := by
  unfold putFields
  refine List.foldl_ext _ _ _ fun m f hf => ?_
  rw [fieldNode?_tidied hassets (hblank f hf)]

end

theorem colorKeys_of_isColor {fields : List Field} :
    ∀ f ∈ fields, f.isColor = true → colorKeys fields f.key = true := fun f hf hcolor =>
  List.any_eq_true.2 ⟨f, hf, by simpa using hcolor⟩

/-! ## References -/

theorem Asset.referenceOf?_pruned (key : String) (v : Value) :
    referenceOf? (key, v.pruned) = referenceOf? (key, v) := by
  rw [referenceOf?, referenceOf?, Value.string?_pruned]

theorem isSet_of_reference {e : String × Value} (he : e ∈ values)
    (h : Asset.isReference e = true) : isSet blank values e.1 = true := by
  refine List.any_eq_true.2 ⟨e, he, ?_⟩
  obtain ⟨key, v⟩ := e
  cases v with
  | string s =>
    have hs : s ≠ "" := by
      rintro rfl
      cases h
    simp [Value.isIdle, hs]
  | _ => simp [Asset.isReference, Asset.referenceOf?, Value.string?] at h

theorem filterMap_referenceOf?_tidied (blank : String → Bool) (values : List (String × Value)) :
    (tidied blank values).filterMap Asset.referenceOf? = values.filterMap Asset.referenceOf? := by
  unfold tidied
  rw [List.filterMap_map, List.filterMap_filter]
  refine List.filterMap_congr fun e he => ?_
  rw [Function.comp_apply, Asset.referenceOf?_pruned]
  by_cases hset : isSet blank values e.1 = true
  · rw [if_pos hset]
  · rw [if_neg hset, eq_comm, ← Option.not_isSome_iff_eq_none]
    exact fun h => hset (isSet_of_reference he h)

/-! ## Widgets -/

/-- The value of a part without entries that are not set. -/
def Schema.tidiedPart (s : Schema) (name : String) : Value → Value
  | .object values =>
    .object (tidied (fun key => s.parts.any fun part => part.1 = name && colorKeys part.2 key)
      values)
  | v => v

/-- A widget of known kind without unset values. -/
def Widget.tidied (registry : Registry) (w : Widget) : Widget :=
  match registry.resolve? w.kind with
  | none => w
  | some s =>
    { w with
      props := w.props.tidied fun key => key = "styles" || colorKeys s.props key
      style := w.style.tidied (colorKeys s.style)
      extra := w.extra.mapWithKey s.tidiedPart }

namespace Widget

variable {registry : Registry} {w : Widget} {s : Schema}

theorem tidied_eq (hs : registry.resolve? w.kind = some s) : w.tidied registry =
    { w with
      props := w.props.tidied fun key => key = "styles" || colorKeys s.props key
      style := w.style.tidied (colorKeys s.style)
      extra := w.extra.mapWithKey s.tidiedPart } := by
  unfold tidied
  rw [hs]

theorem bare_tidied (registry : Registry) (w : Widget) : (w.tidied registry).bare = w.bare := by
  unfold tidied
  split <;> rfl

theorem references_tidied (registry : Registry) (w : Widget) :
    (w.tidied registry).references = w.references := by
  cases hs : registry.resolve? w.kind with
  | none =>
    unfold tidied
    rw [hs]
  | some s =>
    have hextra : ∀ (name : String) (v : Value),
        referencesInValue (s.tidiedPart name v) = referencesInValue v := by
      intro name v
      cases v with
      | object values => exact filterMap_referenceOf?_tidied _ values
      | _ => rfl
    rw [tidied_eq hs]
    unfold references
    dsimp only [Table.tidied, Table.keep, Table.mapWithKey]
    rw [List.flatMap_map, List.flatMap_congr fun e _ => hextra e.1 e.2]
    exact congrArg₂ (· ++ · ++ _) (filterMap_referenceOf?_tidied _ _)
      (filterMap_referenceOf?_tidied _ _)

/-- What an array names is left when its unset items are not. -/
theorem stylesOf?_pruned (v : Value) : stylesOf? v.pruned = stylesOf? v := by
  cases v with
  | array items =>
    have hitem : ∀ v : Value, v.isUnset = true → filled? v.string? = none := by
      intro v hv
      rcases Value.isUnset_iff.1 hv with rfl | rfl <;> rfl
    rw [Value.pruned, stylesOf?, stylesOf?, Value.prunedItems_eq, List.filterMap_map,
      List.filterMap_filter]
    refine congrArg some (List.filterMap_congr fun v _ => ?_)
    rw [Function.comp_apply, Value.string?_pruned]
    cases hv : v.isUnset with
    | true => exact (hitem v hv).symm
    | false => rfl
  | _ => rw [Value.pruned] <;> rfl

theorem styleNames?_tidied (registry : Registry) (w : Widget) :
    (w.tidied registry).styleNames? = w.styleNames? := by
  cases hs : registry.resolve? w.kind with
  | none =>
    unfold tidied
    rw [hs]
  | some s =>
    rw [tidied_eq hs, styleNames?_eq, styleNames?_eq]
    dsimp only
    rw [Table.get?_tidied]
    cases hv : w.props.get? "styles" with
    | none => exact congrArg (·.bind stylesOf?) (ite_self none)
    | some v =>
      split
      · exact stylesOf?_pruned v
      · next hset =>
        -- only null is not set here
        have hidle := List.any_eq_false.1 (Bool.eq_false_of_not_eq_true hset) _
          (Table.get?_eq_some_iff.1 hv)
        have hnull : v = .null := by
          cases v <;> simp_all [Value.isIdle]
        rw [hnull]
        rfl

section

variable {c : PageContext} (hassets : c.assets.idOf? "" = none)

include hassets

theorem putPart_tidied (hs : registry.resolve? w.kind = some s) (m : Mapping)
    {part : String × List Field} (hpart : part ∈ s.parts) :
    (w.tidied registry).putPart c.assets m part = w.putPart c.assets m part := by
  have hget : (w.tidied registry).extra.get? part.1 =
      (w.extra.get? part.1).map (s.tidiedPart part.1) := by
    rw [tidied_eq hs, Table.get?_mapWithKey]
  have hblank : ∀ f ∈ part.2, f.isColor = true →
      (s.parts.any fun other => other.1 = part.1 && colorKeys other.2 f.key) = true := by
    intro f hf hcolor
    refine List.any_eq_true.2 ⟨part, hpart, ?_⟩
    simp [colorKeys_of_isColor f hf hcolor]
  unfold putPart
  rw [hget]
  cases w.extra.get? part.1 with
  | none => rfl
  | some v =>
    cases v with
    | object values =>
      rw [Option.map_some, Schema.tidiedPart]
      dsimp only
      rw [putFields_tidied hassets hblank]
    | _ => rfl

/-- The entries of a widget are those without its unset values. -/
theorem body_tidied (w : Widget) : (w.tidied c.registry).body c = w.body c := by
  cases hs : c.registry.resolve? w.kind with
  | none =>
    unfold tidied
    rw [hs]
  | some s =>
    have hevents : (w.tidied c.registry).events = w.events := by rw [tidied_eq hs]
    refine ReadAlike.body ⟨bare_tidied c.registry w, ?_, ?_, styleNames?_tidied c.registry w,
      fun m _ => putPart_tidied hassets hs m, fun _ m _ _ => ?_⟩ hs
    · rw [tidied_eq hs]
      refine putFields_tidied hassets fun f hf hcolor => ?_
      rw [colorKeys_of_isColor f hf hcolor, Bool.or_true]
    · rw [tidied_eq hs]
      exact putFields_tidied hassets colorKeys_of_isColor
    · unfold putEvent eventNode?
      rw [hevents]

end

end Widget

/-! ## The whole project -/

/-- A theme whose style definitions have no unset values. -/
def Theme.tidied (registry : Registry) (t : Theme) : Theme :=
  { t with styles := t.styles.mapWithKey fun _ values =>
      values.tidied (colorKeys registry.sharedStyle) }

theorem Theme.styleNode_tidied {c : PageContext} (hassets : c.assets.idOf? "" = none)
    (name : String) (values : Table String Value) :
    styleNode c name (values.tidied (colorKeys c.registry.sharedStyle)) =
      styleNode c name values :=
  congrArg Node.map (putFields_tidied hassets colorKeys_of_isColor _)

/-- A project without the unset values of its widgets and style definitions. -/
def Project.tidied (registry : Registry) (p : Project) : Project :=
  { p.mapWidgets (Widget.tidied registry) with theme := p.theme.tidied registry }

theorem Project.lvgl_tidiedTheme {c : PageContext} (hassets : c.assets.idOf? "" = none)
    (p : Project) : Project.lvgl { p with theme := p.theme.tidied c.registry } c = p.lvgl c := by
  have hstyles : (p.theme.tidied c.registry).styles.entries.map
      (fun e => Theme.styleNode c e.1 e.2) =
        p.theme.styles.entries.map fun e => Theme.styleNode c e.1 e.2 := by
    dsimp only [Theme.tidied, Table.mapWithKey]
    rw [List.map_map]
    exact List.map_congr_left fun e _ => Theme.styleNode_tidied hassets e.1 e.2
  unfold lvgl
  rw [hstyles]
  rfl

namespace Fragments

variable (p : Project) (registry : Registry) (options : Options)

theorem contextOf_tidiedTheme :
    contextOf { p with theme := p.theme.tidied registry } registry options =
      contextOf p registry options := by
  have hkeys : (p.theme.tidied registry).styles.keys = p.theme.styles.keys := by
    dsimp only [Theme.tidied, Table.mapWithKey, Table.keys]
    rw [List.map_map]
    rfl
  unfold contextOf
  rw [hkeys]
  rfl

theorem ofProject_tidiedTheme :
    (ofProject { p with theme := p.theme.tidied registry } registry options).1 =
      (ofProject p registry options).1 := by
  refine ofProject_congr ?_ rfl rfl rfl
  rw [contextOf_tidiedTheme]
  exact Project.lvgl_tidiedTheme (c := contextOf p registry options)
    (AssetTable.idOf?_empty p) p

/-- Unset values change nothing in what a project is compiled to. -/
theorem ofProject_tidied :
    (ofProject (p.tidied registry) registry options).1 = (ofProject p registry options).1 := by
  refine (ofProject_tidiedTheme (p.mapWidgets (Widget.tidied registry)) registry options).trans
    (ofProject_mapWidgets (Widget.bare_tidied registry) p registry options
      (Widget.references_tidied registry) fun w c hregistry hassets => ?_)
  subst hregistry
  refine Widget.body_tidied ?_ w
  rw [hassets]
  exact AssetTable.idOf?_empty p

/-- A project is compiled like the same project without its null and empty values, at any depth. In
the entries of its widgets, parts and style definitions a field that has no such value writes
nothing, or in widgets the default that the schema wants written; only the empty colour is written
as it is. -/
theorem unset_left_out :
    let lvgl := (ofProject p registry options).1.lvgl
    let assets := (contextOf p registry options).assets
    (ofProject (p.tidied registry) registry options).1 = (ofProject p registry options).1 ∧
    (∀ w ∈ p.widgets, ∃ entries, lvgl.Emits entries ∧
      ∀ schema, registry.resolve? w.kind = some schema →
        ∀ key ∉ ["widgets", "styles"] ++ schema.parts.map (·.1) ++ schema.events, ∀ node,
          entries.get? key = some node ↔ (schema.slots w).LastWrites assets true key node ∨
            (schema.slots w).Silent assets true key ∧
              Mapping.get? (w.geometry (options.idPolicy.emitted w.id)) key = some node) ∧
    (∀ values fields start key node,
      Mapping.get? (putFields assets false values fields start) key = some node ↔
        Slots.LastWrites assets false key node (fields.map (·, values)) ∨
          Slots.Silent assets false (fields.map (·, values)) key ∧
            Mapping.get? start key = some node) ∧
    (∀ (f : Field) (values : List (String × Value)), f.IsIdle values → ∀ withDefaults node,
      f.Writes assets withDefaults values node ↔
        withDefaults = true ∧ f.emitted? = some node) ∧
    (∀ v : Value, (Node.ofValue? v = none ↔ v.isUnset = true) ∧
      Node.ofValue? v.pruned = Node.ofValue? v) ∧
    (∀ items, (Node.ofValues items).length = items.countP (!·.isUnset)) ∧
    ∀ fields, (Node.ofFields fields).map (·.1) =
      (fields.filter (!·.2.isUnset)).map (·.1) := by
  intro lvgl assets
  have hassets : assets.idOf? "" = none := AssetTable.idOf?_empty p
  refine ⟨ofProject_tidied p registry options, fun w hw => ?_, fun values fields start key node => ?_,
    fun f values h withDefaults node => h.writes_iff,
    fun v => ⟨Node.ofValue?_eq_none_iff, Node.ofValue?_pruned v⟩, Node.length_ofValues,
    Node.keys_ofFields⟩
  · obtain ⟨page, hpage, hwpage⟩ := List.mem_flatMap.1 hw
    obtain ⟨entries, hemits, hwritten⟩ :=
      p.exists_emitted (contextOf p registry options) hpage hwpage
    have hlvgl : lvgl = p.lvgl (contextOf p registry options) := by
      show (ofProject p registry options).1.lvgl = _
      rw [ofProject_eq]
    refine ⟨entries, hlvgl ▸ hemits, fun schema hschema key hkey node => ?_⟩
    simp only [List.mem_append, List.mem_cons, List.not_mem_nil, or_false, not_or,
      List.mem_map, not_exists, not_and] at hkey
    obtain ⟨⟨⟨hwidgets, hstyles⟩, hparts⟩, hevents⟩ := hkey
    rw [hwritten key hwidgets]
    exact w.get?_body_iff hassets hschema hstyles hparts hevents
  · rw [putFields_eq_foldl]
    exact get?_putSlots_iff hassets start

/-- A label whose background is the empty text is written with that text. -/
theorem empty_color_written :
    let w : Widget := { Compilation.label with
      style := Table.empty.insert "bg_color" (.string "") }
    let p : Project := { Project.empty with pages := [⟨"main", none, none, [w]⟩] }
    (Registry.builtin.resolve? w.kind).any (·.style.any fun f =>
      f.key = "bg_color" && f.output = "bg_color" && !f.emitDefault) = true ∧
      w.style.get? "bg_color" = some (.string "") ∧
      ∃ entries, (ofProject p .builtin {}).1.lvgl.Emits entries ∧
        entries.get? "bg_color" = some (.str "") := by
  intro w p
  refine ⟨by decide +kernel, rfl, ?_⟩
  obtain ⟨entries, hemits, hwritten⟩ := p.exists_emitted (contextOf p .builtin {}) (w := w)
    List.mem_cons_self List.mem_cons_self
  refine ⟨entries, hemits, ?_⟩
  let isEmptyText : Node → Bool := fun | .str s => s = "" | _ => false
  have hbody : (Mapping.get? (w.body (contextOf p .builtin {})) "bg_color").any isEmptyText =
      true := by decide +kernel
  obtain ⟨node, hnode, hempty⟩ := (Option.any_eq_true _ _).1 hbody
  rw [hwritten "bg_color" (by decide), hnode]
  cases node with
  | str s => rw [of_decide_eq_true hempty]
  | _ => cases hempty

end Fragments

end TouchPanel
