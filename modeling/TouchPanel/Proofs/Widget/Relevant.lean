import Mathlib.Data.List.Basic
import TouchPanel.Proofs.Widget.Asset
import TouchPanel.Widget.Page

/-!
# What is read of a widget

Of a widget of known kind a page shows the values that its schema lists. All references to
files are collected, and styles are looked up, whether the schema lists their keys or not.
Nothing else of a widget is read.
-/

namespace TouchPanel

/-! ## Entries that are read -/

/-- Whether an entry refers to a file. -/
def Asset.isReference (e : String × Json.Value) : Bool := (referenceOf? e).isSome

/-- The style definitions that a value names. -/
def stylesOf? : Json.Value → Option (List String)
  | .string s => some (filled? (some s)).toList
  | .array items => some (items.filterMap fun v => filled? v.string?)
  | _ => none

namespace Schema

variable (s : Schema)

def readsProp (e : String × Json.Value) : Bool :=
  s.props.any (·.key = e.1) || Asset.isReference e || (e.1 = "styles" && (stylesOf? e.2).isSome)

def readsStyle (e : String × Json.Value) : Bool :=
  s.style.any (·.key = e.1) || Asset.isReference e

def readsEvent (e : String × Json.Value) : Bool := s.events.contains e.1

/-- Whether an entry of the part with the name is read. -/
def readsField (name : String) (e : String × Json.Value) : Bool :=
  s.parts.any (fun part => part.1 = name && part.2.any (·.key = e.1)) || Asset.isReference e

/-- Whether anything is read of a field that is none of the widget's own. -/
def readsExtra (e : String × Json.Value) : Bool :=
  s.parts.any (·.1 = e.1) ||
    match e.2 with
    | .object fields => fields.any Asset.isReference
    | _ => false

/-- What is read of the part with the name. -/
def relevantPart (name : String) : Json.Value → Json.Value
  | .object fields => .object (fields.filter (s.readsField name))
  | v => v

end Schema

/-- A widget without the entries that nothing reads. -/
def Widget.relevant (registry : Registry) (w : Widget) : Widget :=
  match registry.resolve? w.kind with
  | none => w
  | some s =>
    { w with
      props := w.props.keep s.readsProp
      style := w.style.keep s.readsStyle
      events := w.events.keep s.readsEvent
      extra := (w.extra.keep s.readsExtra).mapWithKey s.relevantPart }

def Page.relevant (registry : Registry) (page : Page) : Page :=
  { page with widgets := page.widgets.map (Widget.relevant registry) }

def Project.relevant (registry : Registry) (p : Project) : Project :=
  { p with pages := p.pages.map (Page.relevant registry) }

/-! ## Entries of a node -/

variable {assets : AssetTable}

/-- Fields do not see entries with other keys. -/
theorem putFields_filter {test : String × Json.Value → Bool} {fields : List Field}
    (h : ∀ f ∈ fields, ∀ v, test (f.key, v) = true) (withDefaults : Bool)
    (values : List (String × Json.Value)) (m : Mapping) :
    putFields assets withDefaults (values.filter test) fields m =
      putFields assets withDefaults values fields m := by
  have hnode : ∀ f ∈ fields, fieldNode? assets withDefaults (values.filter test) f =
      fieldNode? assets withDefaults values f := by
    intro f hf
    have hfind : (values.filter test).find? (·.1 = f.key) = values.find? (·.1 = f.key) := by
      rw [List.find?_filter]
      congr 1
      funext e
      by_cases hkey : e.1 = f.key
      · have htest : test e = true := by
          have hv := h f hf e.2
          rwa [← hkey] at hv
        simp [hkey, htest]
      · simp [hkey]
    unfold fieldNode?
    rw [hfind]
  unfold putFields
  refine List.foldl_ext _ _ _ fun m f hf => ?_
  rw [hnode f hf]

namespace Widget

variable {registry : Registry} {w : Widget} {s : Schema}

theorem relevant_eq (hs : registry.resolve? w.kind = some s) : w.relevant registry =
    { w with
      props := w.props.keep s.readsProp
      style := w.style.keep s.readsStyle
      events := w.events.keep s.readsEvent
      extra := (w.extra.keep s.readsExtra).mapWithKey s.relevantPart } := by
  unfold relevant
  rw [hs]

/-- A widget apart from its entries. -/
def bare (w : Widget) : Widget :=
  { w with props := .empty, style := .empty, events := .empty, extra := .empty }

theorem bare_relevant (registry : Registry) (w : Widget) : (w.relevant registry).bare = w.bare := by
  unfold relevant
  split <;> rfl

theorem styleNames?_eq (w : Widget) : w.styleNames? = (w.props.get? "styles").bind stylesOf? := by
  unfold styleNames? stylesOf?
  cases w.props.get? "styles" with
  | none => rfl
  | some v => cases v <;> rfl

theorem styleNames?_relevant (w : Widget) :
    (w.relevant registry).styleNames? = w.styleNames? := by
  cases hs : registry.resolve? w.kind with
  | none =>
    unfold relevant
    rw [hs]
  | some s =>
    rw [relevant_eq hs, styleNames?_eq, styleNames?_eq]
    dsimp only
    rw [Table.get?_keep]
    cases w.props.get? "styles" with
    | none => rfl
    | some v =>
      -- a value that names styles is read, and any other names none
      cases hv : stylesOf? v with
      | none => by_cases h : s.readsProp ("styles", v) <;> simp [Option.filter, h, hv]
      | some names =>
        have hread : s.readsProp ("styles", v) = true := by simp [Schema.readsProp, hv]
        simp [Option.filter, hread]

theorem putPart_relevant (hs : registry.resolve? w.kind = some s) (m : Mapping)
    {part : String × List Field} (hpart : part ∈ s.parts) :
    (w.relevant registry).putPart assets m part = w.putPart assets m part := by
  have hget : (w.relevant registry).extra.get? part.1 =
      (w.extra.get? part.1).map (s.relevantPart part.1) := by
    rw [relevant_eq hs, Table.get?_mapWithKey, Table.get?_keep_of_all]
    intro v
    unfold Schema.readsExtra
    rw [Bool.or_eq_true, List.any_eq_true]
    exact Or.inl ⟨part, hpart, decide_eq_true rfl⟩
  have hfields : ∀ f ∈ part.2, ∀ v, s.readsField part.1 (f.key, v) = true := by
    intro f hf v
    unfold Schema.readsField
    rw [Bool.or_eq_true, List.any_eq_true]
    exact Or.inl ⟨part, hpart, by simpa using ⟨f, hf, rfl⟩⟩
  unfold putPart
  rw [hget]
  cases w.extra.get? part.1 with
  | none => rfl
  | some v =>
    cases v with
    | object fields =>
      rw [Option.map_some, Schema.relevantPart]
      dsimp only
      rw [putFields_filter hfields]
    | _ => rfl

theorem putEvent_relevant (hs : registry.resolve? w.kind = some s) (handlers : List Handler)
    (outId : String) (m : Mapping) {event : String} (hevent : event ∈ s.events) :
    (w.relevant registry).putEvent handlers outId m event = w.putEvent handlers outId m event := by
  have hget : (w.relevant registry).events.get? event = w.events.get? event := by
    rw [relevant_eq hs, Table.get?_keep_of_all]
    intro v
    simpa [Schema.readsEvent] using hevent
  unfold putEvent eventNode?
  rw [hget]

/-- Widgets that differ only in values that the page does not tell apart. -/
structure ReadAlike (c : PageContext) (s : Schema) (w w' : Widget) : Prop where
  bare : w'.bare = w.bare
  props (m : Mapping) : putFields c.assets true w'.props.entries s.props m =
    putFields c.assets true w.props.entries s.props m
  style (m : Mapping) : putFields c.assets true w'.style.entries s.style m =
    putFields c.assets true w.style.entries s.style m
  names : w'.styleNames? = w.styleNames?
  parts (m : Mapping) : ∀ part ∈ s.parts, w'.putPart c.assets m part = w.putPart c.assets m part
  events (outId : String) (m : Mapping) : ∀ event ∈ s.events,
    w'.putEvent c.handlers outId m event = w.putEvent c.handlers outId m event

theorem ReadAlike.body {c : PageContext} {w' : Widget} (h : ReadAlike c s w w')
    (hs : c.registry.resolve? w.kind = some s) : w'.body c = w.body c := by
  have hkind : w'.kind = w.kind := congrArg (·.kind) h.bare
  have hid : w'.id = w.id := congrArg (·.id) h.bare
  have hgeometry : ∀ outId, w'.geometry outId = w.geometry outId :=
    fun outId => congrArg (·.geometry outId) h.bare
  have hstyles : ∀ m, w'.putStyles c.styles m = w.putStyles c.styles m := by
    intro m
    unfold putStyles
    rw [h.names]
  unfold Widget.body
  dsimp only
  rw [hkind, hs, hid]
  dsimp only
  rw [hgeometry, h.props, h.style, hstyles, List.foldl_ext _ _ _ fun m part => h.parts m part]
  exact List.foldl_ext _ _ _ fun m event => h.events _ m event

/-- The entries of a widget do not depend on what is not read. -/
theorem body_relevant (c : PageContext) (w : Widget) :
    (w.relevant c.registry).body c = w.body c := by
  cases hs : c.registry.resolve? w.kind with
  | none =>
    unfold relevant
    rw [hs]
  | some s =>
    refine ReadAlike.body ⟨bare_relevant c.registry w, ?_, ?_, styleNames?_relevant w,
      fun m _ => putPart_relevant hs m, fun _ m _ => putEvent_relevant hs _ _ m⟩ hs
    · rw [relevant_eq hs]
      refine putFields_filter (fun f hf v => ?_) true w.props.entries
      simp only [Schema.readsProp, Bool.or_eq_true, List.any_eq_true]
      exact Or.inl (Or.inl ⟨f, hf, decide_eq_true rfl⟩)
    · rw [relevant_eq hs]
      refine putFields_filter (fun f hf v => ?_) true w.style.entries
      simp only [Schema.readsStyle, Bool.or_eq_true, List.any_eq_true]
      exact Or.inl ⟨f, hf, decide_eq_true rfl⟩

end Widget

/-! ## References to files -/

/-- Leaving out what is no reference loses none. -/
theorem filterMap_referenceOf?_filter {test : String × Json.Value → Bool}
    (h : ∀ e, Asset.isReference e = true → test e = true) (entries : List (String × Json.Value)) :
    (entries.filter test).filterMap Asset.referenceOf? = entries.filterMap Asset.referenceOf? := by
  rw [List.filterMap_filter]
  refine List.filterMap_congr fun e _ => ?_
  by_cases htest : test e = true
  · rw [if_pos htest]
  · have hno : ¬ Asset.isReference e = true := fun hread => htest (h e hread)
    rw [if_neg htest]
    exact (Option.not_isSome_iff_eq_none.1 hno).symm

theorem flatMap_filter {α β : Type} (test : α → Bool) (f : α → List β) (l : List α) :
    (l.filter test).flatMap f = l.flatMap fun a => if test a then f a else [] := by
  induction l with
  | nil => rfl
  | cons a l ih => by_cases h : test a <;> simp [h, ih]

namespace Widget

theorem references_relevant (registry : Registry) (w : Widget) :
    (w.relevant registry).references = w.references := by
  cases hs : registry.resolve? w.kind with
  | none =>
    unfold relevant
    rw [hs]
  | some s =>
    have hextra : ∀ e : String × Json.Value,
        (if s.readsExtra e then referencesInValue (s.relevantPart e.1 e.2) else []) =
          referencesInValue e.2 := by
      rintro ⟨name, v⟩
      cases v with
      | object fields =>
        dsimp only [Schema.relevantPart, referencesInValue]
        split
        · refine filterMap_referenceOf?_filter (fun e he => ?_) fields
          simp [Schema.readsField, he]
        · next hskip =>
          -- a field without references that is no part
          unfold Schema.readsExtra at hskip
          rw [Bool.or_eq_true, not_or, List.any_eq_true] at hskip
          rw [eq_comm, List.filterMap_eq_nil_iff]
          intro e he
          apply Option.not_isSome_iff_eq_none.1
          exact fun hread => hskip.2 (List.any_eq_true.2 ⟨e, he, hread⟩)
      | _ => simp [Schema.relevantPart, referencesInValue]
    rw [relevant_eq hs]
    unfold references
    dsimp only [Table.keep, Table.mapWithKey]
    rw [filterMap_referenceOf?_filter fun e he => by simp [Schema.readsProp, he],
      filterMap_referenceOf?_filter fun e he => by simp [Schema.readsStyle, he], List.flatMap_map,
      flatMap_filter, List.flatMap_congr fun e _ => hextra e]

end Widget

/-- A project with every widget changed. -/
def Project.mapWidgets (f : Widget → Widget) (p : Project) : Project :=
  { p with pages := p.pages.map fun page => { page with widgets := page.widgets.map f } }

theorem AssetTable.ofProject_mapWidgets {f : Widget → Widget}
    (hf : ∀ w, (f w).references = w.references) (p : Project) :
    ofProject (p.mapWidgets f) = ofProject p := by
  have hrefs : referencesOf (p.mapWidgets f) = referencesOf p := by
    rw [referencesOf_eq, referencesOf_eq]
    unfold Project.widgets Project.mapWidgets
    dsimp only
    rw [List.flatMap_map, List.flatMap_assoc, List.flatMap_assoc]
    refine List.flatMap_congr fun page _ => ?_
    dsimp only
    rw [List.flatMap_map]
    exact List.flatMap_congr fun w _ => hf w
  unfold ofProject
  rw [hrefs]

end TouchPanel
