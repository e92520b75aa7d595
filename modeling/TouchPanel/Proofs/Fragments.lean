import TouchPanel.Proofs.Identifier
import TouchPanel.Proofs.Ingress.Link
import TouchPanel.Proofs.Output.Entry

/-!
# Compiled sections

Every section that a project compiles to has entries, and each of them is a mapping whose
rows are lines. Whatever a project says stands behind an indentation.
-/

namespace TouchPanel

open Text Recipe Node

theorem Node.OneLine.single {key : String} {node : Node} (hkey : IsLineText key)
    (h : OneLine node) : OneLine (.single key node) := by
  refine .map (fun e he => ?_) fun e he => ?_
  · rw [List.mem_singleton.1 he]
    exact hkey
  · rw [List.mem_singleton.1 he]
    exact h

theorem Node.LastClean.single {key : String} {node : Node} (h : LastClean node) :
    LastClean (.single key node) :=
  .map [] h

/-! ## Locks -/

namespace Lock

theorem isLineText_name (entity : String) {widgetId : String} (h : IsLineText widgetId) :
    IsLineText (name entity widgetId) :=
  (((by decide : IsLineText "etd_lock_").append (Identifier.isLineText_slug entity)).append
    (by decide)).append h

theorem oneLine_guarded {lock : String} (h : IsLineText lock) {actions : List Node}
    (hactions : ∀ node ∈ actions, OneLine node) : OneLine (guarded lock actions) := by
  have hcode : IsLineText s!"return millis() > id({lock});" :=
    ((by decide : IsLineText "return millis() > id(").append h).append (by decide)
  refine .single (by decide) (.map (by simp) ?_)
  simp only [List.forall_mem_cons, List.not_mem_nil, false_imp_iff, implies_true, and_true]
  exact ⟨.single (by decide) (.raw hcode), .list hactions⟩

theorem lastClean_guarded (lock : String) {action : Node} (h : LastClean action) :
    LastClean (guarded lock [action]) :=
  .single (.map [("condition", _)] (.list [] h))

theorem isEntry_global {lock : String} (h : IsLineText lock) : IsEntry (global lock) where
  is_map := ⟨_, _, rfl⟩
  oneLine := by
    refine .map (by simp) ?_
    simp only [List.forall_mem_cons, List.not_mem_nil, false_imp_iff, implies_true, and_true]
    exact ⟨.ident h, .ident (by decide), .ident (by decide), .raw (by decide)⟩
  lastClean := .map [("id", _), ("type", _), ("restore_value", _)] (.raw ⟨'\'', rfl, rfl⟩)

/-- Every declared lock is one of those that are used. -/
theorem exists_of_mem_globals {locks : List String} {node : Node} (h : node ∈ globals locks) :
    ∃ lock ∈ locks, node = global lock := by
  obtain ⟨lock, hlock, rfl⟩ := List.mem_map.1 h
  obtain ⟨e, he, rfl⟩ := List.mem_map.1 hlock
  obtain ⟨name, hname, rfl⟩ := List.mem_map.1 (Table.mem_of_mem_ofList he)
  exact ⟨name, hname, rfl⟩

end Lock

/-! ## Updates of widgets -/

namespace LinkUpdate

variable {link : Link} {action : LinkAction} {i : Nat} {target : IndexedWidget}

theorem endsClean_scaled (source : DataKind) (scale : Option Float) :
    EndsClean (scaled source scale).toList := by
  unfold scaled
  split
  · exact endsClean_append _ ⟨')', rfl, rfl⟩
  · cases source
    · exact ⟨'x', rfl, rfl⟩
    · exact ⟨')', rfl, rfl⟩
    · exact ⟨')', rfl, rfl⟩
    · exact ⟨')', rfl, rfl⟩

theorem formatted_spec (format : String) {argument : String} (h : EndsClean argument.toList) :
    OneLine (formatted format argument) ∧ LastClean (formatted format argument) := by
  refine ⟨.map (by simp) ?_, .map [("format", _)] (.list [] (.str fun _ => h))⟩
  simp only [List.forall_mem_cons, List.not_mem_nil, false_imp_iff, implies_true, and_true]
  exact ⟨.str _, .list (by simpa using OneLine.str argument)⟩

theorem text_spec (source : DataKind) (t : LinkTarget) :
    OneLine (text source t) ∧ LastClean (text source t) := by
  unfold text
  split
  · exact formatted_spec _ ⟨')', rfl, rfl⟩
  · exact formatted_spec _ ⟨')', rfl, rfl⟩
  · exact ⟨.lambda _, .lambda ⟨';', rfl, rfl⟩⟩
  · exact ⟨.lambda _, .lambda ⟨';', rfl, rfl⟩⟩
  · exact formatted_spec _ (endsClean_scaled _ _)
  · exact formatted_spec _ ⟨'"', rfl, rfl⟩
  · exact ⟨.lambda _, .lambda ⟨';', rfl, rfl⟩⟩

/-- An expression that ends with a semicolon. -/
theorem lambda_spec (code : String) :
    OneLine (.lambda (code ++ ";")) ∧ LastClean (.lambda (code ++ ";")) :=
  ⟨.lambda _, .lambda (endsClean_append code ⟨';', rfl, rfl⟩)⟩

theorem Carries.spec {e : String × Node} (h : Carries link i action e) :
    IsLineText e.1 ∧ OneLine e.2 ∧ LastClean e.2 := by
  cases h with
  | checked =>
    obtain ⟨hone, hclean⟩ := lambda_spec (s!"return {truth link.source.kind}")
    exact ⟨(by decide : IsLineText "state"), .single (by decide) hone, .single hclean⟩
  | value => exact ⟨(by decide : IsLineText "value"), lambda_spec _⟩
  | labelText => exact ⟨(by decide : IsLineText "text"), text_spec _ _⟩
  | selectedIndex => exact ⟨(by decide : IsLineText "selected_index"), lambda_spec _⟩
  | @hidden p =>
    have hclean : EndsClean (s!"return ({p});").toList := endsClean_append _ ⟨';', rfl, rfl⟩
    exact ⟨(by decide : IsLineText "hidden"), .lambda _, .lambda hclean⟩

theorem isLineText_update (kind : WidgetKind) : IsLineText (action.update kind) := by
  unfold LinkAction.update
  split
  · decide
  · decide
  · decide
  · split <;> decide
  · split <;> decide
  · decide
  · decide

theorem node_spec (hid : IsLineText target.outId) {update : Node}
    (h : LinkUpdate.node link action target i = .ok update) :
    OneLine update ∧ LastClean update := by
  rcases node_cases h with ⟨text, htext, rfl⟩ | ⟨-, kind, e, hcarries, rfl⟩
  · rw [nonBlank?, Option.filter_eq_some_iff] at htext
    exact ⟨.fragment _, .fragment (by simpa using htext.2)⟩
  · obtain ⟨hkey, hone, hclean⟩ := hcarries.spec
    refine ⟨.single (isLineText_update _) (.map ?_ ?_), .single (.map [("id", _)] hclean)⟩
    · simp only [List.forall_mem_cons, List.not_mem_nil, false_imp_iff, implies_true, and_true]
      exact ⟨by decide, hkey⟩
    · simp only [List.forall_mem_cons, List.not_mem_nil, false_imp_iff, implies_true, and_true]
      exact ⟨.ident hid, hone⟩

end LinkUpdate

/-! ## Declared values -/

namespace SourceKey

/-- What a declaration writes of its key stands on one line and ends clean. -/
structure IsWritable (k : SourceKey) : Prop where
  entity_line : IsLineText k.entityId
  entity_clean : EndsClean k.entityId.toList
  attr_clean : k.attr = "" ∨ EndsClean k.attr.toList

theorem isPlain_id (k : SourceKey) : Identifier.IsPlain k.id := by
  have hentity := Identifier.isPlain_plain k.entityId
  have hattr : Identifier.IsPlain (if k.attr = "" then "attr" else Identifier.plain k.attr) := by
    split
    · decide
    · exact Identifier.isPlain_plain _
  unfold id
  cases k.kind
  · exact (((by decide : Identifier.IsPlain "ha_num_").append hentity).append
      (by decide)).append hattr
  · exact (((by decide : Identifier.IsPlain "ha_txt_").append hentity).append
      (by decide)).append hattr
  · exact (by decide : Identifier.IsPlain "ha_bin_").append hentity
  · exact (by decide : Identifier.IsPlain "ha_state_").append hentity

theorem isLineText_trigger (k : SourceKey) : IsLineText k.trigger := by
  unfold trigger
  split <;> decide

theorem isWritable_key {s : Source} (h : Identifier.isEntityReference (trimmed s.entityId) = true) :
    s.key.IsWritable := by
  obtain ⟨hline, hclean⟩ := Identifier.isEntityReference_spec h
  refine ⟨hline, hclean, ?_⟩
  unfold Source.key
  dsimp only
  split
  · cases s.attr with
    | none => exact Or.inl rfl
    | some a => exact trimmed_cases a
  · exact Or.inl rfl

end SourceKey

namespace Declarations

/-- Updates that can be written as entries. -/
def AreUpdates (updates : List Node) : Prop := ∀ u ∈ updates, OneLine u ∧ LastClean u

def IsWritable (ds : Declarations) : Prop := ∀ e ∈ ds.entries, e.1.IsWritable ∧ AreUpdates e.2

/-- An entry in the declaration of a value. -/
inductive Field (key : SourceKey) (updates : List Node) : String × Node → Prop
  | platform : Field key updates ("platform", .ident "homeassistant")
  | id : Field key updates ("id", .ident key.id)
  | entityId : Field key updates ("entity_id", .ident key.entityId)
  | attrWord (plain : Identifier.plain key.attr = key.attr) :
      Field key updates ("attribute", .ident key.attr)
  | attrText : Field key updates ("attribute", .str key.attr)
  | initial : Field key updates ("publish_initial_state", .bool true)
  | trigger : Field key updates (key.trigger, .single "then" (.list updates))

theorem field_of_mem (key : SourceKey) (updates : List Node) {fields : Mapping}
    (h : entry key updates = .map fields) : ∀ f ∈ fields, Field key updates f := by
  obtain rfl := Node.map.inj h
  simp only [List.forall_mem_append, List.forall_mem_cons]
  refine ⟨⟨⟨⟨.platform, .id, .entityId, List.forall_mem_nil _⟩, ?_⟩, ?_⟩, ?_⟩
  · split
    · exact List.forall_mem_nil _
    · refine List.forall_mem_singleton.2 ?_
      split
      · next hplain => exact .attrWord hplain
      · exact .attrText
  · split
    · exact List.forall_mem_singleton.2 .initial
    · exact List.forall_mem_nil _
  · split
    · exact List.forall_mem_nil _
    · exact List.forall_mem_singleton.2 .trigger

theorem isEntry_entry {key : SourceKey} {updates : List Node} (hkey : key.IsWritable)
    (hupdates : AreUpdates updates) : IsEntry (entry key updates) where
  is_map := ⟨_, _, rfl⟩
  oneLine := by
    have hline : ∀ f : String × Node, Field key updates f → IsLineText f.1 ∧ OneLine f.2 := by
      intro f hf
      cases hf with
      | platform => exact ⟨(by decide : IsLineText "platform"), .ident (by decide)⟩
      | id => exact ⟨(by decide : IsLineText "id"), .ident key.isPlain_id.isLineText⟩
      | entityId => exact ⟨(by decide : IsLineText "entity_id"), .ident hkey.entity_line⟩
      | attrWord plain =>
        exact ⟨(by decide : IsLineText "attribute"),
          .ident (plain ▸ Identifier.isLineText_plain key.attr)⟩
      | attrText => exact ⟨(by decide : IsLineText "attribute"), .str _⟩
      | initial => exact ⟨(by decide : IsLineText "publish_initial_state"), .bool true⟩
      | trigger =>
        exact ⟨key.isLineText_trigger, .single (by decide) (.list fun u hu => (hupdates u hu).1)⟩
    have hfields := field_of_mem key updates rfl
    exact .map (fun f hf => (hline f (hfields f hf)).1) fun f hf => (hline f (hfields f hf)).2
  lastClean := by
    unfold entry
    dsimp only
    -- the last entry is the first of these that is there
    by_cases hempty : updates = []
    · rw [hempty, List.isEmpty_nil, if_pos rfl, List.append_nil]
      by_cases hbinary : key.kind = .binary
      · rw [if_pos hbinary]
        exact .map _ (.bool true)
      · rw [if_neg hbinary, List.append_nil]
        rcases hkey.attr_clean with hattr | hattr
        · rw [if_pos hattr, List.append_nil]
          exact .map [("platform", _), ("id", _)] (.ident hkey.entity_clean)
        · have hne : key.attr ≠ "" := by
            rintro h
            rw [h] at hattr
            exact hattr.ne_nil rfl
          rw [if_neg hne]
          refine .map _ ?_
          split
          · exact .ident hattr
          · exact .str fun _ => hattr
    · obtain ⟨init, u, rfl⟩ := (List.eq_nil_or_concat' updates).resolve_left hempty
      rw [if_neg (show ¬ (init ++ [u]).isEmpty = true by simp)]
      exact .map _ (.single (.list init (hupdates u (by simp)).2))

theorem IsWritable.declare {ds : Declarations} (h : ds.IsWritable) {key : SourceKey}
    (hkey : key.IsWritable) : (ds.declare key).1.IsWritable := by
  unfold Declarations.declare
  split
  · exact h
  · split
    · exact h
    · intro e he
      rcases Table.mem_place he with rfl | he
      · exact ⟨hkey, by simp [AreUpdates]⟩
      · exact h e he

theorem IsWritable.attach {ds : Declarations} (h : ds.IsWritable) (key : SourceKey) {update : Node}
    (hupdate : OneLine update ∧ LastClean update) : (ds.attach key update).IsWritable := by
  intro e he
  obtain ⟨old, hold, rfl⟩ := List.mem_map.1 he
  obtain ⟨hkey, hupdates⟩ := h old hold
  split
  · refine ⟨hkey, fun u hu => ?_⟩
    rcases List.mem_append.1 hu with hu | hu
    · exact hupdates u hu
    · rw [List.mem_singleton.1 hu]
      exact hupdate
  · exact ⟨hkey, hupdates⟩

/-- What every declaration of a valid source keeps holds after all bindings. -/
theorem ofBindings_induction {motive : Declarations → Prop} (empty : motive .empty)
    (bindings : List Source)
    (declare : ∀ (ds : Declarations), ∀ source ∈ bindings, motive ds →
      Identifier.isEntityReference (trimmed source.entityId) = true →
      motive (ds.declare source.key).1) :
    motive (ofBindings bindings).1 := by
  refine List.foldlRecOn (motive := fun s : Declarations × List Diagnostic => motive s.1)
    bindings.zipIdx addBinding empty ?_
  rintro ⟨ds, found⟩ hds ⟨source, i⟩ hsource
  unfold addBinding
  dsimp only
  split
  · next href =>
    have hmem := List.mem_of_getElem? (List.mk_mem_zipIdx_iff_getElem?.1 hsource)
    exact declare ds source hmem hds href
  · exact hds

theorem isWritable_ofBindings (bindings : List Source) : (ofBindings bindings).1.IsWritable :=
  ofBindings_induction (by simp [IsWritable, Table.empty]) bindings
    fun _ _ _ hds href => hds.declare (SourceKey.isWritable_key href)

theorem map_fst_filterMap_sublist {β : Type} {f : String → Option (String × β)}
    (h : ∀ name, ∀ s ∈ f name, s.1 = name) (names : List String) :
    ((names.filterMap f).map (·.1)).Sublist names := by
  induction names with
  | nil => exact .slnil
  | cons name r ih =>
    cases hf : f name with
    | none =>
      rw [List.filterMap_cons_none hf]
      exact ih.cons name
    | some s =>
      rw [List.filterMap_cons_some hf, List.map_cons, h name s hf]
      exact ih.cons_cons name

/-- The names of the sections of inbound data are different. -/
theorem names_sections (ds : Declarations) : (ds.sections.map (·.1)).Sublist sectionNames := by
  refine map_fst_filterMap_sublist (fun name s hs => ?_) sectionNames
  split at hs
  · cases hs
  · obtain rfl := Option.some.inj hs
    rfl

/-- The entries of a section are those of declarations. -/
theorem exists_of_mem_sections {ds : Declarations} {s : String × List Node} (hs : s ∈ ds.sections)
    {node : Node} (hnode : node ∈ s.2) : ∃ e ∈ ds.entries, node = entry e.1 e.2 := by
  obtain ⟨name, -, hs⟩ := List.mem_filterMap.1 hs
  split at hs
  · cases hs
  · obtain rfl := Option.some.inj hs
    obtain ⟨e, he, rfl⟩ := List.mem_map.1 hnode
    exact ⟨e, List.mem_of_mem_filter he, rfl⟩

theorem isGenerated_sections {ds : Declarations} (h : ds.IsWritable) :
    ∀ s ∈ ds.sections, Document.IsGenerated s := by
  intro s hs
  have hentry : ∀ node ∈ s.2, IsEntry node := by
    intro node hnode
    obtain ⟨e, he, rfl⟩ := exists_of_mem_sections hs hnode
    exact isEntry_entry (h e he).1 (h e he).2
  obtain ⟨name, hname, hs⟩ := List.mem_filterMap.1 hs
  have hkey : ∀ name ∈ sectionNames,
      name.toList.all isKeyChar = true ∧ name.toList.head?.any isKeyStart = true := by decide
  split at hs
  · cases hs
  · next hne =>
    obtain rfl := Option.some.inj hs
    exact ⟨(hkey name hname).1, (hkey name hname).2, fun hnil => hne (List.map_eq_nil_iff.1 hnil),
      hentry⟩

end Declarations

/-! ## Links -/

namespace LinkRun

theorem attaches_spec {link : Link} {i : Nat} {index : WidgetIndex} {ds : Declarations}
    {target : IndexedWidget} {a : Attachment} (hindex : ∀ w ∈ index, IsLineText w.outId)
    (h : link.Attaches i index ds target a) :
    IsLineText a.lock ∧ OneLine a.update ∧ LastClean a.update := by
  have hid := hindex target (List.mem_of_find?_eq_some h.fits.target_found)
  rw [h.lock]
  exact ⟨Lock.isLineText_name _ hid, LinkUpdate.node_spec hid h.update⟩

/-- What links leave behind can be written. -/
structure IsWritable (run : LinkRun) : Prop where
  declarations : run.declarations.IsWritable
  locks : ∀ lock ∈ run.locks, IsLineText lock

theorem isWritable_ofLinks (links : List Link) {index : WidgetIndex} {ds : Declarations}
    (hindex : ∀ w ∈ index, IsLineText w.outId) (hds : ds.IsWritable) :
    (ofLinks links index ds).IsWritable := by
  induction links using List.reverseRecOn with
  | nil => exact ⟨hds, by simp [ofLinks, locks]⟩
  | append_singleton links link ih =>
    rcases ofLinks_concat_cases links link index ds with ⟨d, -, hrun⟩ | ⟨a, target, ha, hrun⟩
    · rw [hrun]
      exact ⟨ih.declarations, ih.locks⟩
    · rw [hrun]
      obtain ⟨hlock, hone, hclean⟩ := attaches_spec hindex ha
      refine ⟨ih.declarations.attach _ ⟨?_, Lock.lastClean_guarded _ hclean⟩, ?_⟩
      · exact Lock.oneLine_guarded hlock (by simpa using hone)
      · exact List.forall_mem_cons.2 ⟨hlock, ih.locks⟩

end LinkRun

/-! ## Scripts -/

theorem ite_some_eq_none_iff {α : Type} {p : Prop} [Decidable p] {a : α} {o : Option α} :
    (if p then some a else o) = none ↔ ¬ p ∧ o = none := by
  by_cases h : p <;> simp [h]

/-- What a script must have to be written. -/
theorem SetpointScript.fault?_eq_none_iff {s : SetpointScript} {taken : List String} :
    s.fault? taken = none ↔ s.outId ≠ "" ∧
      Identifier.isEntityReference (trimmed s.entityId) = true ∧
      (s.step.isFinite && !(s.step <= 0.0)) = true ∧ s.outId ∉ taken := by
  unfold fault?
  rw [ite_some_eq_none_iff, ite_some_eq_none_iff, ite_some_eq_none_iff, ite_some_eq_none_iff]
  simp

namespace ScriptRun

/-- What every declaration of a script's value keeps holds after all scripts. -/
theorem ofScripts_induction {motive : Declarations → Prop} {ds : Declarations} (start : motive ds)
    (declare : ∀ (ds : Declarations) (s : SetpointScript), motive ds →
      Identifier.isEntityReference (trimmed s.entityId) = true → motive (ds.declare s.sensor).1)
    (scripts : List SetpointScript) : motive (ofScripts scripts ds).declarations := by
  refine List.foldlRecOn (motive := fun run : ScriptRun => motive run.declarations)
    scripts add start ?_
  intro run hrun s _
  unfold add
  cases hfault : s.fault? (run.scripts.map (·.outId)) with
  | some reason => exact hrun
  | none => exact declare run.declarations s hrun (SetpointScript.fault?_eq_none_iff.1 hfault).2.1

theorem isWritable_ofScripts (scripts : List SetpointScript) {ds : Declarations}
    (hds : ds.IsWritable) : (ofScripts scripts ds).declarations.IsWritable :=
  ofScripts_induction hds
    (fun _ _ hds href => hds.declare (SourceKey.isWritable_key href)) scripts

theorem isEntry_node (s : SetpointScript) : IsEntry s.node := by
  have hid : IsLineText s.outId := Identifier.isLineText_plain _
  unfold SetpointScript.node
  dsimp only
  refine ⟨⟨_, _, rfl⟩, .map (by simp) ?_, ?_⟩
  · simp only [List.forall_mem_cons, List.not_mem_nil, false_imp_iff, implies_true, and_true]
    refine ⟨.ident hid, .list ?_⟩
    simp only [List.forall_mem_cons, List.not_mem_nil, false_imp_iff, implies_true, and_true]
    refine .single (by decide) (.map (by simp) ?_)
    simp only [List.forall_mem_cons, List.not_mem_nil, false_imp_iff, implies_true, and_true]
    refine ⟨.ident (by decide), .map (by simp) ?_⟩
    simp only [List.forall_mem_cons, List.not_mem_nil, false_imp_iff, implies_true, and_true]
    exact ⟨.str _, .lambda _⟩
  · refine .map [("id", _)] (.list [] (.single (.map [("action", _)] (.map [("entity_id", _)] ?_))))
    exact .lambda (endsClean_append _ ⟨';', rfl, rfl⟩)

end ScriptRun

/-! ## Assets -/

namespace AssetTable

theorem isLineText_fontId (key : FontKey) (n : Nat) : IsLineText (Asset.fontId key n) :=
  (((((by decide : IsLineText "font_").append (Identifier.isLineText_plain _)).append
    (by decide)).append (isLineText_repr key.size)).append (by decide)).append (isLineText_repr n)

theorem imageId_spec (file : String) :
    IsLineText (Asset.imageId file) ∧ EndsClean (Asset.imageId file).toList := by
  refine ⟨(by decide : IsLineText "asset_").append (Identifier.isLineText_plain file), ?_⟩
  have hne : (Asset.imageId file).toList ≠ [] := by
    simp [Asset.imageId, String.toList_append]
  refine ⟨_, List.getLast?_eq_some_getLast hne, ?_⟩
  have hmem : (Asset.imageId file).toList.getLast hne ∈
      "asset_".toList ++ (Identifier.plain file).toList := by
    rw [← String.toList_append]
    exact List.getLast_mem hne
  rcases List.mem_append.1 hmem with h | h
  · have hword : ("asset_".toList.all fun c => !isBlank c) = true := by decide
    exact Bool.not_eq_true' _ ▸ List.all_eq_true.1 hword _ h
  · exact Identifier.isBlank_of_mem_plain h

theorem isEntry_fontNodes (p : Project) (options : Options) :
    ∀ node ∈ (ofProject p).fontNodes options, IsEntry node := by
  intro node hnode
  obtain ⟨⟨key, id⟩, he, rfl⟩ := List.mem_map.1 hnode
  obtain ⟨⟨k, n⟩, -, hk⟩ := List.mem_map.1 (Table.mem_of_mem_ofList he)
  obtain ⟨rfl, rfl⟩ := Prod.mk.inj hk
  refine ⟨⟨_, _, rfl⟩, .map (by simp) ?_, .map [("file", _), ("id", _)] (.int _)⟩
  simp only [List.forall_mem_cons, List.not_mem_nil, false_imp_iff, implies_true, and_true]
  exact ⟨.str _, .ident (isLineText_fontId _ _), .int _⟩

theorem isEntry_imageNodes (p : Project) (options : Options) :
    ∀ node ∈ (ofProject p).imageNodes options, IsEntry node := by
  intro node hnode
  obtain ⟨⟨id, file⟩, he, rfl⟩ := List.mem_map.1 hnode
  obtain ⟨⟨ref, f⟩, -, hf⟩ := List.mem_map.1 (Table.mem_of_mem_ofList he)
  obtain ⟨rfl, rfl⟩ := Prod.mk.inj hf
  obtain ⟨hline, hclean⟩ := imageId_spec f
  refine ⟨⟨_, _, rfl⟩, .map (by simp) ?_, .map [("file", _)] (.ident hclean)⟩
  simp only [List.forall_mem_cons, List.not_mem_nil, false_imp_iff, implies_true, and_true]
  exact ⟨.str _, .ident hline⟩

end AssetTable

/-! ## Event handlers -/

namespace Handlers

theorem isLineText_resolve {b : ActionBinding} {i : Nat} {index : WidgetIndex} {options : Options}
    (hindex : ∀ w ∈ index, IsLineText w.outId) {h : Handler}
    (hresolve : (b.resolve i index options).2 = some h) : ∀ lock ∈ h.lock, IsLineText lock := by
  unfold ActionBinding.resolve at hresolve
  split at hresolve
  · cases hresolve
  · next target htarget =>
    have hid := hindex target (List.mem_of_find?_eq_some htarget)
    dsimp only at hresolve
    split at hresolve
    · cases hresolve
    · split at hresolve
      · obtain rfl := Option.some.inj hresolve
        simp
      · next call _ =>
        obtain rfl := Option.some.inj hresolve
        intro lock hlock
        obtain ⟨entity, -, rfl⟩ := Option.map_eq_some_iff.1 hlock
        exact Lock.isLineText_name _ hid
      · cases hresolve

theorem isLineText_locks (bindings : List ActionBinding) {index : WidgetIndex} {options : Options}
    (hindex : ∀ w ∈ index, IsLineText w.outId) :
    ∀ lock ∈ (ofBindings bindings index options).locks, IsLineText lock := by
  have hlist : ∀ h ∈ (ofBindings bindings index options).list, ∀ lock ∈ h.lock,
      IsLineText lock := by
    refine List.foldlRecOn
      (motive := fun hs : Handlers => ∀ h ∈ hs.list, ∀ lock ∈ h.lock, IsLineText lock)
      bindings.zipIdx (add index options) (by simp) ?_
    rintro hs hlocks ⟨b, i⟩ -
    unfold add
    dsimp only
    cases hresolve : b.resolve i index options with
    | mk notes handler =>
      cases handler with
      | none => exact hlocks
      | some h =>
        exact List.forall_mem_cons.2 ⟨isLineText_resolve hindex (by rw [hresolve]), hlocks⟩
  intro lock hlock
  obtain ⟨h, hmem, hh⟩ := List.mem_filterMap.1 hlock
  exact hlist h hmem lock hh

end Handlers

/-! ## The sections of a project -/

namespace Fragments

def trailingNames : List String := ["globals", "script", "font", "image"]

/-- The generated sections can be written, and their names are different. -/
structure IsWritable (f : Fragments) : Prop where
  sensors : ∀ s ∈ f.sensors, Document.IsGenerated s
  trailing : ∀ s ∈ f.trailing, Document.IsGenerated s
  sensor_names : (f.sensors.map (·.1)).Sublist Declarations.sectionNames

theorem names_trailing (f : Fragments) : (f.trailing.map (·.1)).Sublist trailingNames :=
  List.filter_sublist.map _

theorem isEntry_globals {locks : List String} (h : ∀ lock ∈ locks, IsLineText lock) :
    ∀ node ∈ Lock.globals locks, IsEntry node := by
  intro node hnode
  obtain ⟨lock, hlock, rfl⟩ := Lock.exists_of_mem_globals hnode
  exact Lock.isEntry_global (h lock hlock)

section OfProject

variable (p : Project) (registry : Registry) (options : Options)

def indexOf : WidgetIndex := WidgetIndex.ofProject p registry options.idPolicy

def handlersOf : Handlers :=
  Handlers.ofBindings p.actionBindings (indexOf p registry options) options

def linksOf : LinkRun :=
  LinkRun.ofLinks p.links (indexOf p registry options) (Declarations.ofBindings p.bindings).1

def scriptsOf : ScriptRun :=
  ScriptRun.ofScripts p.scripts (linksOf p registry options).declarations

def contextOf : PageContext :=
  ⟨registry, AssetTable.ofProject p, (handlersOf p registry options).list, options.idPolicy,
    p.theme.styles.keys⟩

theorem ofProject_eq : ofProject p registry options =
    ({ lvgl := p.lvgl (contextOf p registry options)
       sensors := (scriptsOf p registry options).declarations.sections
       globals := Lock.globals
        ((handlersOf p registry options).locks ++ (linksOf p registry options).locks)
       scripts := (scriptsOf p registry options).nodes
       fonts := (AssetTable.ofProject p).fontNodes options
       images := (AssetTable.ofProject p).imageNodes options },
     (indexOf p registry options).findings p.pages options.idPolicy ++
       (handlersOf p registry options).diagnostics ++
       p.pageFindings (indexOf p registry options) (contextOf p registry options) ++
       (Declarations.ofBindings p.bindings).2 ++ (linksOf p registry options).diagnostics ++
       (scriptsOf p registry options).diagnostics) := by
  unfold ofProject scriptsOf linksOf contextOf handlersOf indexOf
  generalize Declarations.ofBindings p.bindings = declared
  cases declared
  rfl

end OfProject

/-- The fragments of a project are known by its pages, the values and scripts that are left,
its locks and its assets. -/
theorem ofProject_congr {p p' : Project} {registry : Registry} {options : Options}
    (hlvgl : p'.lvgl (contextOf p' registry options) = p.lvgl (contextOf p registry options))
    (hscripts : scriptsOf p' registry options = scriptsOf p registry options)
    (hglobals : Lock.globals ((handlersOf p' registry options).locks ++
      (linksOf p' registry options).locks) =
        Lock.globals ((handlersOf p registry options).locks ++ (linksOf p registry options).locks))
    (hassets : AssetTable.ofProject p' = AssetTable.ofProject p) :
    (ofProject p' registry options).1 = (ofProject p registry options).1 := by
  rw [ofProject_eq p' registry options, ofProject_eq p registry options]
  dsimp only
  rw [hlvgl, hscripts, hglobals, hassets]

theorem isLineText_indexOf (p : Project) (registry : Registry) {options : Options}
    (hoptions : IsLineText options.reservedIdReplacement) :
    ∀ w ∈ indexOf p registry options, IsLineText w.outId := by
  have hpolicy : IsLineText options.idPolicy.replacement := hoptions
  intro w hw
  obtain ⟨⟨page, n⟩, -, hw⟩ := List.mem_flatMap.1 hw
  obtain ⟨v, -, rfl⟩ := List.mem_map.1 hw
  dsimp only
  exact Identifier.isLineText_emitted hpolicy v.id

theorem isWritable_linksOf (p : Project) (registry : Registry) {options : Options}
    (hoptions : IsLineText options.reservedIdReplacement) :
    (linksOf p registry options).IsWritable :=
  LinkRun.isWritable_ofLinks p.links (isLineText_indexOf p registry hoptions)
    (Declarations.isWritable_ofBindings p.bindings)

theorem isWritable_scriptsOf (p : Project) (registry : Registry) {options : Options}
    (hoptions : IsLineText options.reservedIdReplacement) :
    (scriptsOf p registry options).declarations.IsWritable :=
  ScriptRun.isWritable_ofScripts p.scripts (isWritable_linksOf p registry hoptions).declarations

/-- No identifier that the options bring in may break a line. -/
theorem isWritable_ofProject (p : Project) (registry : Registry) {options : Options}
    (hoptions : IsLineText options.reservedIdReplacement) :
    (ofProject p registry options).1.IsWritable := by
  have hindex := isLineText_indexOf p registry hoptions
  have hlinks := isWritable_linksOf p registry hoptions
  have hscripts := isWritable_scriptsOf p registry hoptions
  rw [ofProject_eq]
  refine ⟨Declarations.isGenerated_sections hscripts, fun s hs => ?_,
    Declarations.names_sections _⟩
  have hkey : ∀ name ∈ trailingNames,
      name.toList.all isKeyChar = true ∧ name.toList.head?.any isKeyStart = true := by decide
  obtain ⟨hchars, hstart⟩ := hkey s.1 ((names_trailing _).subset (List.mem_map_of_mem hs))
  obtain ⟨hmem, hne⟩ := List.mem_filter.1 hs
  refine ⟨hchars, hstart, by simpa using hne, ?_⟩
  simp only [List.mem_cons, List.not_mem_nil, or_false] at hmem
  rcases hmem with rfl | rfl | rfl | rfl
  · refine isEntry_globals fun lock hlock => ?_
    rcases List.mem_append.1 hlock with hlock | hlock
    · exact Handlers.isLineText_locks p.actionBindings hindex lock hlock
    · exact hlinks.locks lock hlock
  · intro node hnode
    obtain ⟨script, -, rfl⟩ := List.mem_map.1 hnode
    exact ScriptRun.isEntry_node script
  · exact AssetTable.isEntry_fontNodes p options
  · exact AssetTable.isEntry_imageNodes p options

end Fragments

end TouchPanel
