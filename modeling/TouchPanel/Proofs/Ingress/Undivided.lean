import TouchPanel.Proofs.Ingress.Setpoint
import TouchPanel.Proofs.Ingress.Update
import TouchPanel.Proofs.Widget.Undivided

/-!
# Generated sections without a line that begins or ends a document

Declared values, scripts, locks and files show strings of the project, ids and numbers. So the
generated sections have such a line only if a string of the project has one.
-/

namespace TouchPanel

open Text Node

/-! ## Updates of widgets -/

namespace LinkUpdate

variable {link : Link} {action : LinkAction} {i : Nat} {target : IndexedWidget}

theorem isOrdinaryLine_scaled (source : DataKind) (scale : Option Float) :
    IsOrdinaryLine (scaled source scale).toList := by
  have hnumeric : IsOrdinaryLine (numeric source).toList := by
    cases source <;> exact ⟨by decide, 'x', by decide, by decide⟩
  unfold scaled
  split
  · next s _ =>
    have hscale := (isOrdinaryLine_documentFloat s).1
    have hline := hnumeric.around (a := ['(']) (b := " * ".toList ++ documentFloat s ++ [')'])
      (by decide) (by simp [hscale])
    simpa [toString] using hline
  · exact hnumeric

theorem undivided_formatted {format argument : String} (hformat : IsUndividedString format)
    (hargument : IsUndividedString argument) : Undivided (formatted format argument) :=
  builds_undivided.map (.cons (by decide) (.str hformat)
    (.cons (by decide) (.list (List.forall_mem_singleton.2 (.str hargument))) Mapping.each_nil))

/-- An expression that returns a value. -/
theorem undivided_return {front code : String} (hfront : '\n' ∉ front.toList)
    (hcode : IsOrdinaryLine code.toList) : Undivided (.lambda (front ++ code ++ ";")) := by
  have hline := hcode.around (b := [';']) hfront (by decide)
  refine .lambda (IsOrdinaryLine.isUndivided ?_)
  simpa using hline

theorem undivided_text (source : DataKind) {t : LinkTarget}
    (hformat : ∀ format ∈ t.format, IsUndividedString format) : Undivided (text source t) := by
  have hfilled : ∀ format ∈ filled? t.format, IsUndividedString format := by
    intro format h
    obtain ⟨raw, hraw, rfl⟩ := Option.map_eq_some_iff.1 (Option.filter_eq_some_iff.1 h).1
    exact isUndivided_trimmed (hformat raw hraw)
  unfold text
  split
  · next f hf => exact undivided_formatted (hfilled f hf) (by decide)
  · next f hf => exact undivided_formatted (hfilled f hf) (by decide)
  · exact .lambda (by decide)
  · exact .lambda (by decide)
  · refine undivided_formatted ?_ (isOrdinaryLine_scaled _ _).isUndivided
    cases hf : filled? t.format with
    | none => decide
    | some f => exact hfilled f hf
  · next f hf => exact undivided_formatted (hfilled f hf) (by decide)
  · exact .lambda (by decide)

theorem isUndivided_predicate {source : DataKind} {t : LinkTarget} {p : String}
    (hcondition : ∀ s ∈ t.condition, IsUndividedString s) (h : predicate source t i = .ok p) :
    IsUndividedString p := by
  unfold predicate at h
  split at h
  · next expression heq =>
    split at h
    · cases h
    · cases h
      exact isUndivided_trimmed (hcondition expression heq)
  · split at h
    · cases h
      decide
    · cases h

theorem Carries.undivided (ht : ∀ s ∈ link.target.strings, IsWhole s) {e : String × Node}
    (h : Carries link i action e) : IsUndividedString e.1 ∧ Undivided e.2 := by
  simp only [LinkTarget.strings, List.forall_mem_append, List.forall_mem_cons,
    Option.mem_toList] at ht
  obtain ⟨⟨⟨-, -, hformat⟩, hcondition⟩, -⟩ := ht
  have hscaled := isOrdinaryLine_scaled link.source.kind link.target.scale
  cases h with
  | checked =>
    have htruth : IsOrdinaryLine (truth link.source.kind).toList := by
      cases link.source.kind <;> exact ⟨by decide, 'x', by decide, by decide⟩
    exact ⟨(by decide : IsUndividedString "state"),
      builds_undivided.single (by decide) (undivided_return (by decide) htruth)⟩
  | value => exact ⟨(by decide : IsUndividedString "value"), undivided_return (by decide) hscaled⟩
  | selectedIndex =>
    exact ⟨(by decide : IsUndividedString "selected_index"), undivided_return (by decide) hscaled⟩
  | labelText =>
    exact ⟨(by decide : IsUndividedString "text"), undivided_text _ fun f hf => (hformat f hf).text⟩
  | hidden hp =>
    have hpredicate := isUndivided_predicate (fun s hs => (hcondition s hs).text) hp
    have hcode := Lock.isUndivided_named "return ".toList (by decide)
      (by decide : IsUndivided [';']) hpredicate
    exact ⟨(by decide : IsUndividedString "hidden"), .lambda (by simpa [toString] using hcode)⟩

theorem isUndivided_update (kind : WidgetKind) : IsUndividedString (action.update kind) := by
  unfold LinkAction.update
  split
  · decide
  · decide
  · decide
  · split <;> decide
  · split <;> decide
  · decide
  · decide

theorem undivided_node (ht : ∀ s ∈ link.target.strings, IsWhole s)
    (hid : IsUndividedString target.outId) {update : Node}
    (h : node link action target i = .ok update) : Undivided update := by
  rcases node_cases h with ⟨text, hliteral, rfl⟩ | ⟨-, kind, e, hcarries, rfl⟩
  · have htext := (Option.filter_eq_some_iff.1 hliteral).1
    have hwhole := ht text (List.mem_append_right _ (Option.mem_toList.2 htext))
    exact .fragment hwhole.text
  · obtain ⟨hkey, hvalue⟩ := hcarries.undivided ht
    exact builds_undivided.single (isUndivided_update _) (builds_undivided.map
      (.cons (by decide) (.ident hid) (.cons hkey hvalue Mapping.each_nil)))

end LinkUpdate

theorem Lock.undivided_guarded {lock : String} (h : IsUndividedString lock) {update : Node}
    (hupdate : Undivided update) : Undivided (guarded lock [update]) := by
  have hcode := isUndivided_named "return millis() > id".toList (by decide)
    (by decide : IsUndivided [';']) h
  refine builds_undivided.single (by decide) (builds_undivided.map (.cons (by decide) ?_
    (.cons (by decide) (.list (List.forall_mem_singleton.2 hupdate)) Mapping.each_nil)))
  exact builds_undivided.single (by decide) (.raw (by simpa [toString] using hcode))

theorem Lock.undivided_globals {locks : List String} (h : ∀ lock ∈ locks, IsUndividedString lock) :
    ∀ node ∈ globals locks, Undivided node := by
  intro node hnode
  obtain ⟨lock, hlock, rfl⟩ := exists_of_mem_globals hnode
  exact builds_undivided.map (.cons (by decide) (.ident (h lock hlock)) (.cons (by decide)
    (.ident (by decide)) (.cons (by decide) (.ident (by decide)) (.cons (by decide)
      (.raw (by decide)) Mapping.each_nil))))

/-! ## Declared values -/

/-- A declared value whose attribute has no line that begins or ends a document. -/
structure SourceKey.IsWhole (k : SourceKey) : Prop where
  entity : Identifier.isEntityReference k.entityId = true
  attr : IsUndividedString k.attr

theorem isOrdinaryLine_of_isEntityReference {s : String}
    (h : Identifier.isEntityReference s = true) : IsOrdinaryLine s.toList := by
  refine ⟨(Identifier.isEntityReference_spec h).1, ?_⟩
  unfold Identifier.isEntityReference at h
  split at h
  · cases h
  · next domain object hsplit =>
    simp only [Bool.and_eq_true, Bool.not_eq_true', List.isEmpty_eq_false_iff] at h
    obtain ⟨⟨⟨hne, hdomain⟩, -⟩, -⟩ := h
    obtain ⟨c, r, rfl⟩ := List.exists_cons_of_ne_nil hne
    have hc : Identifier.isSlugChar c = true := List.all_eq_true.1 hdomain c List.mem_cons_self
    exact ⟨c, by simp [splitAt?_eq_some hsplit],
      isOrdinary_of_isPlainChar (Identifier.isPlainChar_of_isSlugChar hc)⟩

theorem Source.isWhole_key {s : Source} (hs : ∀ t ∈ s.strings, IsWhole t)
    (h : Identifier.isEntityReference (trimmed s.entityId) = true) : s.key.IsWhole where
  entity := h
  attr := by
    unfold key
    dsimp only
    split
    · cases hattr : s.attr with
      | none => decide
      | some attr =>
        refine isUndivided_trimmed (hs attr (List.mem_cons_of_mem _ ?_)).text
        exact Option.mem_toList.2 hattr
    · decide

theorem Declarations.undivided_entry {key : SourceKey} {updates : List Node} (hkey : key.IsWhole)
    (h : ∀ u ∈ updates, Undivided u) : Undivided (entry key updates) := by
  refine builds_undivided.map fun f hf => ?_
  cases field_of_mem key updates rfl f hf with
  | platform => exact ⟨(by decide : IsUndividedString "platform"), .ident (by decide)⟩
  | id => exact ⟨(by decide : IsUndividedString "id"), .ident key.isPlain_id.isUndivided⟩
  | entityId =>
    exact ⟨(by decide : IsUndividedString "entity_id"),
      .ident (isOrdinaryLine_of_isEntityReference hkey.entity).isUndivided⟩
  | attrWord => exact ⟨(by decide : IsUndividedString "attribute"), .ident hkey.attr⟩
  | attrText => exact ⟨(by decide : IsUndividedString "attribute"), .str hkey.attr⟩
  | initial => exact ⟨(by decide : IsUndividedString "publish_initial_state"), .bool true⟩
  | trigger =>
    have htrigger : IsUndividedString key.trigger := by
      unfold SourceKey.trigger
      split <;> decide
    exact ⟨htrigger, builds_undivided.single (by decide) (.list h)⟩

/-! ## Scripts -/

theorem SetpointScript.undivided_node {s : SetpointScript} (hs : IsUndividedString s.entityId) :
    Undivided s.node := by
  have hstep : IsLineText (String.ofList (documentFloat s.step)) := by
    rw [IsLineText, String.toList_ofList]
    exact (isOrdinaryLine_documentFloat s.step).1
  have hcode : ∀ sign : String, IsLineText sign → Undivided (.lambda
      s!"return id({s.sensor.id}).state {sign} {String.ofList (documentFloat s.step)}f;") := by
    intro sign hsign
    have hline : IsLineText
        s!"return id({s.sensor.id}).state {sign} {String.ofList (documentFloat s.step)}f;" :=
      ((((((by decide : IsLineText "return id(").append s.sensor.isPlain_id.isLineText).append
        (by decide)).append hsign).append (by decide)).append hstep).append (by decide)
    exact .lambda (IsOrdinaryLine.isUndivided ⟨hline, 'r', by simp [toString], by decide⟩)
  have hdata := fun sign hsign => builds_undivided.map (Mapping.Each.cons
    (by decide : IsUndividedString "entity_id") (.str (isUndivided_trimmed hs))
      (.cons (by decide : IsUndividedString "temperature") (hcode sign hsign) Mapping.each_nil))
  have haction := fun sign hsign => builds_undivided.map (Mapping.Each.cons
    (by decide : IsUndividedString "action") (.ident (s := "climate.set_temperature") (by decide))
      (.cons (by decide : IsUndividedString "data") (hdata sign hsign) Mapping.each_nil))
  unfold node
  refine builds_undivided.map (.cons (by decide) (.ident (Identifier.isPlain_plain _).isUndivided)
    (.cons (by decide) (.list (List.forall_mem_singleton.2
      (builds_undivided.single (by decide) ?_))) Mapping.each_nil))
  cases s.direction with
  | up => exact haction "+" (by decide)
  | down => exact haction "-" (by decide)

theorem ScriptRun.scripts_subset (scripts : List SetpointScript) (ds : Declarations) :
    (ofScripts scripts ds).scripts ⊆ scripts := by
  obtain ⟨fates, hall, hwritten, -⟩ := exists_accounts scripts ds
  rw [hwritten]
  conv_rhs => rw [← hall]
  exact List.map_subset _ (List.filter_subset_self _)

/-! ## Files -/

namespace AssetTable

variable {p : Project} {options : Options}

theorem undivided_imageNodes
    (h : ∀ file ∈ (ofProject p).files, IsUndividedString (options.assetPath file)) :
    ∀ node ∈ (ofProject p).imageNodes options, Undivided node := by
  intro node hnode
  obtain ⟨⟨id, file⟩, he, rfl⟩ := List.mem_map.1 hnode
  obtain ⟨rfl, -⟩ := exists_imageId (Table.get?_eq_some_iff.2 he)
  have hfile : file ∈ (ofProject p).files := List.mem_append_left _ (List.mem_map_of_mem he)
  exact builds_undivided.map (.cons (by decide) (.str (h file hfile))
    (.cons (by decide) (.ident (Asset.isOrdinaryLine_imageId file).isUndivided) Mapping.each_nil))

theorem undivided_fontNodes
    (h : ∀ file ∈ (ofProject p).files, IsUndividedString (options.assetPath file)) :
    ∀ node ∈ (ofProject p).fontNodes options, Undivided node := by
  intro node hnode
  obtain ⟨⟨key, id⟩, he, rfl⟩ := List.mem_map.1 hnode
  have hid := isOrdinaryLine_of_fonts (Table.get?_eq_some_iff.2 he)
  have hkey : key ∈ (ofProject p).fonts.keys := List.mem_map_of_mem he
  have hfile : key.file ∈ (ofProject p).files :=
    List.mem_append_right _ (List.mem_map_of_mem hkey)
  exact builds_undivided.map (.cons (by decide) (.str (h _ hfile)) (.cons (by decide)
    (.ident hid.isUndivided) (.cons (by decide) (.int _) Mapping.each_nil)))

end AssetTable

/-! ## The sections of a project -/

namespace Fragments

/-- Fragments without a line that begins or ends a document. -/
structure AreUndivided (f : Fragments) : Prop where
  lvgl : f.lvgl.Each IsUndividedString Undivided
  sections : ∀ s ∈ f.sensors ++ f.trailing, IsUndividedString s.1 ∧ ∀ node ∈ s.2, Undivided node

namespace AreWhole

variable {p : Project} {registry : Registry} {options : Options}

theorem isWhole_keys (h : AreWhole p registry options) :
    ∀ k ∈ (scriptsOf p registry options).declarations.keys, k.IsWhole := by
  have hstrings := h.strings
  simp only [Project.strings, List.forall_mem_append, List.forall_mem_flatMap] at hstrings
  obtain ⟨⟨⟨⟨⟨⟨-, hbindings⟩, -⟩, -⟩, -⟩, -⟩, -⟩ := hstrings
  have hdeclared : ∀ k ∈ (Declarations.ofBindings p.bindings).1.keys, k.IsWhole := by
    refine Declarations.ofBindings_induction
      (motive := fun ds => ∀ k ∈ ds.keys, k.IsWhole) (fun _ hk => absurd hk List.not_mem_nil)
      p.bindings fun ds source hsource hds href k hk => ?_
    rcases Declarations.mem_keys_of_mem_declare hk with rfl | hk
    · exact source.isWhole_key (hbindings source hsource) href
    · exact hds k hk
  have hlinked : ∀ k ∈ (linksOf p registry options).declarations.keys, k.IsWhole := by
    intro k hk
    rw [← Table.contains_iff, linksOf, LinkRun.contains_ofLinks, Table.contains_iff] at hk
    exact hdeclared k hk
  refine ScriptRun.ofScripts_induction (motive := fun ds => ∀ k ∈ ds.keys, k.IsWhole) hlinked
    (fun ds s hds href k hk => ?_) p.scripts
  rcases Declarations.mem_keys_of_mem_declare hk with rfl | hk
  · exact ⟨href, (by decide : IsUndividedString (trimmed "temperature"))⟩
  · exact hds k hk

theorem undivided_updates (h : AreWhole p registry options) {e : SourceKey × List Node}
    (he : e ∈ (scriptsOf p registry options).declarations.entries) : ∀ u ∈ e.2, Undivided u := by
  have hstrings := h.strings
  simp only [Project.strings, List.forall_mem_append, List.forall_mem_flatMap] at hstrings
  obtain ⟨⟨⟨⟨⟨⟨-, -⟩, hlinks⟩, -⟩, -⟩, -⟩, -⟩ := hstrings
  intro u hu
  obtain ⟨link, i, target, a, hlink, -, hattaches, rfl⟩ :=
    exists_attached p registry options he hu
  have hid : IsUndividedString target.outId := by
    rw [WidgetIndex.outId_of_get? _ hattaches.fits.target_found]
    exact h.isUndivided_outputId _
  refine Lock.undivided_guarded ?_ (LinkUpdate.undivided_node ?_ hid hattaches.update)
  · rw [hattaches.lock]
    exact Lock.isUndivided_name _ hid
  · exact (hlinks link (List.mem_of_getElem? hlink)).2

theorem isUndivided_locks (h : AreWhole p registry options) :
    ∀ lock ∈ (handlersOf p registry options).locks ++ (linksOf p registry options).locks,
      IsUndividedString lock := by
  intro lock hlock
  rcases List.mem_append.1 hlock with hlock | hlock
  · obtain ⟨handler, hhandler, hsome⟩ := List.mem_filterMap.1 hlock
    obtain ⟨b, -, hmade⟩ := Handlers.isMade_ofBindings _ _ _ handler hhandler
    obtain ⟨raw, hid⟩ := exists_emitted_widgetId handler hhandler
    cases hmade with
    | literal _ _ hnone | unlocked _ _ _ _ hnone =>
      rw [hnone] at hsome
      cases hsome
    | locked _ _ _ _ hlocked =>
      rw [hlocked] at hsome
      obtain rfl := Option.some.inj hsome
      rw [hid]
      exact Lock.isUndivided_name _ (h.isUndivided_outputId raw)
  · obtain ⟨⟨a, i⟩, ha, rfl⟩ := List.mem_map.1 hlock
    obtain ⟨link, target, -, hattaches⟩ := LinkRun.exists_attaches p.links ha
    rw [hattaches.lock, WidgetIndex.outId_of_get? _ hattaches.fits.target_found]
    exact Lock.isUndivided_name _ (h.isUndivided_outputId _)

theorem undivided_trailing (h : AreWhole p registry options) :
    ∀ s ∈ (ofProject p registry options).1.trailing, ∀ node ∈ s.2, Undivided node := by
  have hstrings := h.strings
  simp only [Project.strings, List.forall_mem_append, List.forall_mem_flatMap] at hstrings
  obtain ⟨⟨⟨-, hscripts⟩, -⟩, -⟩ := hstrings
  rw [ofProject_eq]
  intro s hs
  have hmem := List.mem_of_mem_filter hs
  simp only [List.mem_cons, List.not_mem_nil, or_false] at hmem
  rcases hmem with rfl | rfl | rfl | rfl
  · exact Lock.undivided_globals h.isUndivided_locks
  · intro node hnode
    obtain ⟨script, hscript, rfl⟩ := List.mem_map.1 hnode
    have hentity := hscripts script (ScriptRun.scripts_subset _ _ hscript) script.entityId
      (List.mem_cons_of_mem _ List.mem_cons_self)
    exact SetpointScript.undivided_node hentity.text
  · dsimp only
    exact AssetTable.undivided_fontNodes h.files
  · dsimp only
    exact AssetTable.undivided_imageNodes h.files

theorem undivided_sensors (h : AreWhole p registry options) :
    ∀ s ∈ (ofProject p registry options).1.sensors, ∀ node ∈ s.2, Undivided node := by
  rw [ofProject_eq]
  intro s hs node hnode
  obtain ⟨e, he, rfl⟩ := Declarations.exists_of_mem_sections hs hnode
  exact Declarations.undivided_entry (h.isWhole_keys e.1 (List.mem_map_of_mem he))
    (h.undivided_updates he)

theorem name_mem_sectionNames {s : String × List Node}
    (hs : s ∈ (ofProject p registry options).1.sensors) : s.1 ∈ Declarations.sectionNames := by
  rw [ofProject_eq] at hs
  exact (Declarations.names_sections _).subset (List.mem_map_of_mem hs)

/-- What is made of whole strings has no line that begins or ends a document. -/
theorem areUndivided (h : AreWhole p registry options) :
    (ofProject p registry options).1.AreUndivided where
  lvgl := h.undivided_lvgl
  sections := by
    have hnames : ∀ name ∈ Declarations.sectionNames ++ trailingNames, IsUndividedString name := by
      decide
    intro s hs
    rcases List.mem_append.1 hs with hs | hs
    · exact ⟨hnames _ (List.mem_append_left _ (name_mem_sectionNames hs)),
        h.undivided_sensors s hs⟩
    · have hname := (names_trailing _).subset (List.mem_map_of_mem hs)
      exact ⟨hnames _ (List.mem_append_right _ hname), h.undivided_trailing s hs⟩

end AreWhole

end Fragments

end TouchPanel
