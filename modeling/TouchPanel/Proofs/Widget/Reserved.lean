import TouchPanel.Proofs.Ingress.Update
import TouchPanel.Proofs.Widget.Emitted

/-!
# The reserved identifier

The id of a page or a widget is plain, and writing it again changes nothing. It is the reserved
one in one case only: a blank name is written as `w`, also where that is reserved.
-/

namespace TouchPanel

open Text

/-! ## Plain names -/

namespace Identifier

theorem plain_plain (raw : String) : plain (plain raw) = plain raw := by
  unfold plain
  rw [String.toList_ofList, List.map_map]
  refine congrArg String.ofList (List.map_congr_left fun c _ => ?_)
  have hunderscore : isPlainChar '_' = true := rfl
  cases hc : isPlainChar c with
  | true => simp [hc]
  | false => simp [hc, hunderscore]

theorem plain_eq_empty_iff {raw : String} : plain raw = "" ↔ raw = "" := by
  rw [← String.toList_inj, plain, String.toList_ofList, ← String.toList_inj]
  exact List.map_eq_nil_iff

theorem trimmed_plain (raw : String) : trimmed (plain raw) = plain raw := by
  have hfree : ∀ c ∈ (plain raw).toList, ¬ isBlank c = true := fun c hc => by
    simp [isBlank_of_mem_plain hc]
  have hstart : trimStart (plain raw).toList = (plain raw).toList :=
    List.dropWhile_eq_self_iff.2 fun hlen => hfree _ (List.getElem_mem hlen)
  have hend : trimEnd (plain raw).toList = (plain raw).toList :=
    List.rdropWhile_eq_self_iff.2 fun hne => hfree _ (List.getLast_mem hne)
  rw [trimmed, trim, hstart, hend, String.ofList_toList]

end Identifier

open Identifier

/-! ## The policy of valid options -/

namespace Options

variable {options : Options}

theorem isPlain_iff {s : String} : isPlain s = true ↔ s ≠ "" ∧ plain s = s := by
  simp [isPlain]

theorem spelled_of_isPlain {s : String} (h : isPlain s = true) :
    s ≠ "" ∧ ∀ c ∈ s.toList, isPlainChar c = true := by
  obtain ⟨hne, hplain⟩ := isPlain_iff.1 h
  exact ⟨hne, fun c hc => isPlain_plain s c (hplain.symm ▸ hc)⟩

/-- What is checked of the reserved id and of the one that takes its place. -/
theorem ids_of_valid (hvalid : options.fault? = none) :
    isPlain options.reservedId = true ∧ isPlain options.reservedIdReplacement = true ∧
      options.reservedId ≠ options.reservedIdReplacement := by
  unfold fault? at hvalid
  split at hvalid
  · cases hvalid
  · split at hvalid
    · cases hvalid
    · next hreserved =>
      split at hvalid
      · cases hvalid
      · next hreplacement =>
        split at hvalid
        · cases hvalid
        · next hne => exact ⟨by simpa using hreserved, by simpa using hreplacement, hne⟩

/-- The three ways in which an id comes about. -/
theorem emitted_cases (options : Options) (raw : String) :
    let id := options.idPolicy.emitted raw
    plain (trimmed raw) = options.reservedId ∧ id = options.reservedIdReplacement ∨
      trimmed raw = "" ∧ options.reservedId ≠ "" ∧ id = "w" ∨
      trimmed raw ≠ "" ∧ plain (trimmed raw) ≠ options.reservedId ∧ id = plain (trimmed raw) := by
  intro id
  have hid : id = if plain (trimmed raw) = options.reservedId then options.reservedIdReplacement
      else if plain (trimmed raw) = "" then "w" else plain (trimmed raw) := rfl
  rw [hid]
  split
  · next h => exact Or.inl ⟨h, rfl⟩
  · next h =>
    split
    · next hempty =>
      exact Or.inr (Or.inl ⟨plain_eq_empty_iff.1 hempty, fun hr => h (hempty.trans hr.symm), rfl⟩)
    · next hne => exact Or.inr (Or.inr ⟨fun hr => hne (plain_eq_empty_iff.2 hr), h, rfl⟩)

/-- A plain name other than the reserved id is written as it is. -/
theorem emitted_of_isPlain {id : String} (h : isPlain id = true) (hne : id ≠ options.reservedId) :
    options.idPolicy.emitted id = id := by
  obtain ⟨hempty, hplain⟩ := isPlain_iff.1 h
  have htrim : plain (trimmed id) = id := by
    conv_lhs => rw [← hplain, trimmed_plain, plain_plain]
    exact hplain
  unfold Policy.emitted idPolicy
  dsimp only
  rw [htrim, if_neg hne, if_neg hempty]

variable (hvalid : options.fault? = none) (raw : String)

include hvalid

theorem isPlain_emitted : isPlain (options.idPolicy.emitted raw) = true := by
  rcases options.emitted_cases raw with ⟨-, hid⟩ | ⟨-, -, hid⟩ | ⟨hne, -, hid⟩
  · rw [hid]
    exact (ids_of_valid hvalid).2.1
  · rw [hid]
    decide
  · rw [hid]
    exact isPlain_iff.2 ⟨fun h => hne (plain_eq_empty_iff.1 h), plain_plain _⟩

theorem emitted_eq_reserved_iff :
    options.idPolicy.emitted raw = options.reservedId ↔
      options.reservedId = "w" ∧ trimmed raw = "" := by
  obtain ⟨hreserved, -, hne⟩ := ids_of_valid hvalid
  have hempty : options.reservedId ≠ "" := (isPlain_iff.1 hreserved).1
  rcases options.emitted_cases raw with ⟨hplain, hid⟩ | ⟨hblank, -, hid⟩ | ⟨hfilled, hother, hid⟩
  · rw [hid]
    refine ⟨fun h => absurd h.symm hne, fun ⟨_, hblank⟩ => ?_⟩
    rw [hblank] at hplain
    exact absurd hplain.symm hempty
  · rw [hid]
    exact ⟨fun h => ⟨h.symm, hblank⟩, fun h => h.1.symm⟩
  · rw [hid]
    exact ⟨fun h => absurd h hother, fun h => absurd h.2 hfilled⟩

theorem emitted_emitted_iff :
    options.idPolicy.emitted (options.idPolicy.emitted raw) = options.idPolicy.emitted raw ↔
      ¬ (options.reservedId = "w" ∧ trimmed raw = "") := by
  rw [← emitted_eq_reserved_iff hvalid raw]
  refine ⟨fun h heq => ?_, emitted_of_isPlain (isPlain_emitted hvalid raw)⟩
  -- the reserved id itself is replaced when it is written, so it does not stay
  rw [heq, emitted_eq_reserved_iff hvalid] at h
  rw [h.1] at h
  exact absurd h.2 (by decide)

theorem outId_ne_reserved (page : Page) :
    page.outId options.idPolicy ≠ options.reservedId := by
  unfold Page.outId
  dsimp only
  rw [Ne, emitted_eq_reserved_iff hvalid]
  rintro ⟨-, hblank⟩
  split at hblank
  · exact absurd hblank (by decide)
  · next hfilled => exact hfilled ((trimmed_trimmed _).symm.trans hblank)

end Options

/-! ## Entries of the output -/

/-- A schema under which only the children of a widget are written as `widgets`. -/
structure Schema.KeepsChildren (s : Schema) : Prop where
  fields : ∀ f ∈ s.props ++ s.style, f.output ≠ "widgets"
  parts : ∀ part ∈ s.parts, part.1 ≠ "widgets"

theorem Registry.keepsChildren_builtin : ∀ s ∈ builtin.schemas, s.KeepsChildren := by
  have h : ∀ s ∈ builtin.schemas, (∀ f ∈ s.props ++ s.style, f.output ≠ "widgets") ∧
      ∀ part ∈ s.parts, part.1 ≠ "widgets" := by decide +kernel
  exact fun s hs => ⟨(h s hs).1, (h s hs).2⟩

variable {c : PageContext}

/-- A widget lists its children and nothing else. -/
theorem Widget.children_of_get? {w : Widget}
    (hkeeps : ∀ s ∈ c.registry.schemas, s.KeepsNames ∧ s.KeepsChildren) {children : List Node}
    {key : String} {entries : Mapping} (hnode : w.node c children = .single key (.map entries))
    {listed : List Node} (h : entries.get? "widgets" = some (.list listed)) :
    listed = children := by
  have hbody : Mapping.get? (w.body c) "widgets" = none := by
    rw [w.get?_body (by decide) fun s hs => ⟨(hkeeps s hs).2.fields, (hkeeps s hs).2.parts,
      (hkeeps s hs).1.widgets_not_event⟩]
    rfl
  unfold Widget.node at hnode
  dsimp only at hnode
  obtain ⟨-, hentries⟩ := Node.single_inj hnode
  obtain rfl := Node.map.inj hentries
  split at h
  · rw [Mapping.get?_insert_self] at h
    exact (Node.list.inj (Option.some.inj h)).symm
  · rw [hbody] at h
    cases h

open PlacedTree

/-- What stands below a list of widgets are the entries of its widgets and of those below. -/
theorem Mapping.Shows.exists_node
    (hkeeps : ∀ s ∈ c.registry.schemas, s.KeepsNames ∧ s.KeepsChildren) {m entries : Mapping}
    (h : m.Shows entries) {ts : List PlacedTree}
    (hm : ∀ listed, m.get? "widgets" = some (.list listed) → listed = ts.map (emitted c)) :
    ∃ t ∈ nodesAll ts, IsWrittenAs c t.widget entries := by
  have hlists : ∀ {m entries : Mapping} {ts : List PlacedTree},
      (∀ listed, m.get? "widgets" = some (.list listed) → listed = ts.map (emitted c)) →
      m.Lists entries → ∃ t ∈ ts, IsWrittenAs c t.widget entries ∧
        ∀ listed, entries.get? "widgets" = some (.list listed) →
          listed = t.children.map (emitted c) := by
    rintro m entries ts hm ⟨listed, key, hget, hmem⟩
    rw [hm listed hget] at hmem
    obtain ⟨t, ht, hnode⟩ := List.mem_map.1 hmem
    rw [emitted_eq] at hnode
    obtain ⟨key', entries', hentries, hbody, -⟩ :=
      t.widget.exists_entries c (t.children.map (emitted c))
    obtain ⟨-, heq⟩ := Node.single_inj (hnode.symm.trans hentries)
    obtain rfl := Node.map.inj heq
    exact ⟨t, ht, hbody, fun _ => Widget.children_of_get? hkeeps hnode⟩
  induction h generalizing ts with
  | direct listed =>
    obtain ⟨t, ht, hwritten, -⟩ := hlists hm listed
    refine ⟨t, ?_, hwritten⟩
    rw [nodesAll_eq_flatMap]
    exact List.mem_flatMap.2 ⟨t, ht, by cases t; exact List.mem_cons_self⟩
  | deeper listed _ ih =>
    obtain ⟨t, ht, -, hbelow⟩ := hlists hm listed
    obtain ⟨s, hs, hwritten⟩ := ih hbelow
    refine ⟨s, ?_, hwritten⟩
    rw [nodesAll_eq_flatMap]
    exact List.mem_flatMap.2 ⟨t, ht, by cases t; exact List.mem_cons_of_mem _ hs⟩

/-- Every widget entry of the output is that of a widget of the project. -/
theorem Project.exists_widget_of_emits (p : Project)
    (hkeeps : ∀ s ∈ c.registry.schemas, s.KeepsNames ∧ s.KeepsChildren) {entries : Mapping}
    (h : (p.lvgl c).Emits entries) : ∃ w ∈ p.widgets, IsWrittenAs c w entries := by
  obtain ⟨pages, m, hpages, hm, hshows⟩ := h
  obtain rfl : p.shownPages.map (fun page => page.node p.theme c) = pages :=
    Node.list.inj (Option.some.inj ((p.get?_pages_lvgl c).symm.trans hpages))
  obtain ⟨page, hpage, hnode⟩ := List.mem_map.1 hm
  obtain ⟨forest, hroots, hgrown, hdepth⟩ := WidgetTree.exists_forest page
  have hforest := WidgetTree.isForest_of_grown hroots hgrown
  have hwidgets : ∀ listed, Mapping.get? m "widgets" = some (.list listed) →
      listed = forest.map (emitted c) := by
    intro listed hlisted
    obtain ⟨entries', hentries, hget⟩ := WidgetTree.get?_widgets_page page p.theme c
    have hofPage : WidgetTree.ofPage page = forgetAll forest := hdepth _ (Nat.le_refl _)
    obtain rfl := Node.map.inj (hnode.symm.trans hentries)
    rw [hofPage, toNodes_forgetAll] at hget
    exact Node.list.inj (Option.some.inj (hlisted.symm.trans hget))
  obtain ⟨t, ht, hwritten⟩ := hshows.exists_node hkeeps hwidgets
  have hmem : t.widget ∈ page.widgets := List.mem_of_getElem? (hforest.widget t ht)
  refine ⟨t.widget, List.mem_flatMap.2 ⟨page, ?_, hmem⟩, hwritten⟩
  unfold shownPages at hpage
  split at hpage
  · rw [List.mem_singleton.1 hpage] at hmem
    cases hmem
  · exact hpage

/-! ## Ids of the output -/

namespace Fragments

/-- The ids of a project's pages and widgets are plain words, written again as they are, and none
of them is the reserved one but that of a widget with a blank id where `w` is reserved. -/
theorem reserved_only_for_blank {options : Options} (hvalid : options.fault? = none)
    {registry : Registry} (hkeeps : ∀ s ∈ registry.schemas, s.KeepsNames ∧ s.KeepsChildren)
    (p : Project) :
    let emitted := options.idPolicy.emitted
    let lvgl := (ofProject p registry options).1.lvgl
    let Slips (raw : String) : Prop := options.reservedId = "w" ∧ trimmed raw = ""
    (∀ raw, (emitted raw ≠ "" ∧ ∀ c ∈ (emitted raw).toList, isPlainChar c = true) ∧
      (emitted raw = options.reservedId ↔ Slips raw) ∧
      (emitted (emitted raw) = emitted raw ↔ ¬ Slips raw)) ∧
    (∃ pages, lvgl.get? "pages" = some (.list pages) ∧ ∀ page ∈ pages, ∃ entries id,
      page = .map entries ∧ Mapping.get? entries "id" = some (.ident id) ∧
        id ≠ options.reservedId) ∧
    (∀ entries, lvgl.Emits entries → ∃ w ∈ p.widgets, ∃ id,
      entries.get? "id" = some (.ident id) ∧ (id = options.reservedId ↔ Slips w.id)) := by
  intro emitted lvgl Slips
  refine ⟨fun raw => ?_, ?_, fun entries hentries => ?_⟩
  · exact ⟨Options.spelled_of_isPlain (Options.isPlain_emitted hvalid raw),
      Options.emitted_eq_reserved_iff hvalid raw, Options.emitted_emitted_iff hvalid raw⟩
  · refine ⟨_, p.get?_pages_lvgl _, fun node hnode => ?_⟩
    obtain ⟨page, -, rfl⟩ := List.mem_map.1 hnode
    exact ⟨_, page.outId options.idPolicy, rfl, rfl, Options.outId_ne_reserved hvalid page⟩
  · obtain ⟨w, hw, hwritten⟩ := p.exists_widget_of_emits hkeeps hentries
    refine ⟨w, hw, emitted w.id, ?_, Options.emitted_eq_reserved_iff hvalid w.id⟩
    rw [hwritten "id" (by decide)]
    exact w.get?_id_body fun s hs => (hkeeps s hs).1

/-- A project with one page that has one label. -/
def labelled (id : String) : Project :=
  { Project.empty with
    pages := [⟨"main", none, none,
      [⟨id, "label", 0, 0, 100, 50, none, .empty, .empty, .empty, .empty⟩]⟩] }

theorem keepsNames_and_children_builtin :
    ∀ s ∈ Registry.builtin.schemas, s.KeepsNames ∧ s.KeepsChildren :=
  fun s hs => ⟨Registry.keepsNames_builtin s hs, Registry.keepsChildren_builtin s hs⟩

theorem reserved_only_for_blank_home :
    let options : Options := { reservedId := "home", reservedIdReplacement := "start" }
    options.fault? = none ∧
      ∀ entries, (ofProject (labelled " home ") .builtin options).1.lvgl.Emits entries →
        ∃ id, entries.get? "id" = some (.ident id) ∧ id ≠ "home" := by
  intro options
  have hvalid : options.fault? = none := by decide
  obtain ⟨-, -, hwidgets⟩ :=
    reserved_only_for_blank hvalid keepsNames_and_children_builtin (labelled " home ")
  refine ⟨hvalid, fun entries hentries => ?_⟩
  obtain ⟨w, -, id, hid, hreserved⟩ := hwidgets entries hentries
  exact ⟨id, hid, fun h => absurd (hreserved.1 h).1 (by decide)⟩

/-- Where `w` is reserved, a label with a blank id is written with it. -/
theorem blank_gets_reserved :
    let options : Options := { reservedId := "w" }
    let emitted := options.idPolicy.emitted
    options.fault? = none ∧ emitted " " = options.reservedId ∧ emitted (emitted " ") ≠ emitted " " ∧
      ∃ entries, (ofProject (labelled " ") .builtin options).1.lvgl.Emits entries ∧
        entries.get? "id" = some (.ident options.reservedId) := by
  intro options emitted
  have hreserved : emitted " " = options.reservedId := by decide
  refine ⟨by decide, hreserved, by decide, ?_⟩
  obtain ⟨entries, hemits, hwritten⟩ := (labelled " ").exists_emitted
    ⟨.builtin, _, _, options.idPolicy, _⟩ List.mem_cons_self List.mem_cons_self
  refine ⟨entries, hemits, ?_⟩
  rw [hwritten "id" (by decide), Widget.get?_id_body _ Registry.keepsNames_builtin]
  exact congrArg (fun id => some (Node.ident id)) hreserved

end Fragments

end TouchPanel
