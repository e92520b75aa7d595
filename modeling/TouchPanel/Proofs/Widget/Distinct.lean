import TouchPanel.Widget.Index

/-!
# Ids written once

Pages and widgets of a document share one space of ids. Building the index of a project reports
an id that two of them would have, and reports nothing of the kind when all of them differ.
-/

namespace TouchPanel

/-- The ids that a project's document has for its pages and then for its widgets. -/
def Project.outIds (p : Project) (policy : Identifier.Policy) : List String :=
  p.pages.map (·.outId policy) ++
    p.pages.flatMap fun page => page.widgets.map fun w => policy.emitted w.id

/-- Whether a finding is about an id that two pages or widgets have. -/
def Diagnostic.isIdClash : Diagnostic → Bool
  | .duplicatePageId _ | .widgetIdTakenByPage .. | .duplicateWidgetId _ => true
  | _ => false

/-- Findings none of which is about an id that two pages or widgets have. -/
def IdsApart (found : List Diagnostic) : Prop := ∀ d ∈ found, d.isIdClash = false

namespace IdsApart

variable {a b : List Diagnostic} {d : Diagnostic}

theorem append_iff : IdsApart (a ++ b) ↔ IdsApart a ∧ IdsApart b := List.forall_mem_append

theorem cons_iff : IdsApart (d :: a) ↔ d.isIdClash = false ∧ IdsApart a := List.forall_mem_cons

theorem nil : IdsApart [] := fun _ h => nomatch h

/-- A finding made on a condition. -/
theorem ite_iff {q : Prop} [Decidable q] (hd : d.isIdClash = true) :
    IdsApart (if q then [d] else []) ↔ ¬ q := by
  split
  · next hq => simp [IdsApart, hd, hq]
  · next hq => simp [IdsApart, hq]

end IdsApart

namespace WidgetIndex

variable (policy : Identifier.Policy)

/-- The ids of the index are those of the widgets, page by page. -/
theorem map_outId_ofProject (p : Project) (registry : Registry) :
    (ofProject p registry policy).map (·.outId) =
      p.pages.flatMap fun page => page.widgets.map fun w => policy.emitted w.id := by
  calc
    _ = p.pages.zipIdx.flatMap fun x => x.1.widgets.map fun w => policy.emitted w.id := by
      rw [ofProject, List.map_flatMap]
      simp only [List.map_map, Function.comp_def]
    _ = (p.pages.zipIdx.map Prod.fst).flatMap fun page =>
          page.widgets.map fun w => policy.emitted w.id := by rw [List.flatMap_map]
    _ = _ := by rw [List.zipIdx_map_fst]

theorem outId_of_mem_ofProject {p : Project} {registry : Registry} {w : IndexedWidget}
    (h : w ∈ ofProject p registry policy) : w.outId = policy.emitted w.widget.id := by
  simp only [ofProject, List.mem_flatMap, List.mem_map] at h
  obtain ⟨x, -, y, -, h⟩ := h
  rw [← h]

theorem outId_of_get? {p : Project} {registry : Registry} {id : String} {w : IndexedWidget}
    (h : (ofProject p registry policy).get? id = some w) :
    w.outId = policy.emitted w.widget.id :=
  outId_of_mem_ofProject policy (List.mem_of_find?_eq_some h)

/-- Blanks around an editor id do not show in the id that is written. -/
theorem outId_congr {p : Project} {registry : Registry} {v w : IndexedWidget}
    (hv : v ∈ ofProject p registry policy) (hw : w ∈ ofProject p registry policy)
    (h : trimmed v.widget.id = trimmed w.widget.id) : v.outId = w.outId := by
  rw [outId_of_mem_ofProject policy hv, outId_of_mem_ofProject policy hw]
  unfold Identifier.Policy.emitted
  rw [h]

theorem idsApart_pageFindings_iff (seen : List String) (pages : List Page) :
    IdsApart (pageFindings policy seen pages) ↔
      (pages.map (·.outId policy)).Nodup ∧ ∀ page ∈ pages, page.outId policy ∉ seen := by
  induction pages generalizing seen with
  | nil => simp [pageFindings, IdsApart.nil]
  | cons page r ih =>
    rw [pageFindings, IdsApart.append_iff, IdsApart.ite_iff rfl, ih, List.map_cons,
      List.nodup_cons, List.forall_mem_cons]
    simp only [List.contains_iff_mem, List.mem_cons, List.mem_map, not_exists, not_and, not_or]
    constructor
    · rintro ⟨hpage, hnodup, hrest⟩
      exact ⟨⟨fun x hx => (hrest x hx).1, hnodup⟩, hpage, fun x hx => (hrest x hx).2⟩
    · rintro ⟨⟨hfresh, hnodup⟩, hpage, hrest⟩
      exact ⟨hpage, hnodup, fun x hx => ⟨hfresh x hx, hrest x hx⟩⟩

/-- The widgets of an index after widgets with the ids `outIds` and the editor ids `ids`. An
editor id met before needs no report of its own: its widget had the same id in the document. -/
theorem idsApart_widgetFindings_iff {pageIds outIds ids : List String} {index : WidgetIndex}
    (hsame : ∀ v ∈ index, ∀ w ∈ index,
      trimmed v.widget.id = trimmed w.widget.id → v.outId = w.outId)
    (hids : ∀ w ∈ index, trimmed w.widget.id ∈ ids → w.outId ∈ pageIds ∨ w.outId ∈ outIds) :
    IdsApart (widgetFindings pageIds outIds ids index) ↔
      (index.map (·.outId)).Nodup ∧ ∀ w ∈ index, w.outId ∉ pageIds ∧ w.outId ∉ outIds := by
  induction index generalizing outIds ids with
  | nil => simp [widgetFindings, IdsApart.nil]
  | cons w r ih =>
    have hsame' : ∀ v ∈ r, ∀ x ∈ r, trimmed v.widget.id = trimmed x.widget.id →
        v.outId = x.outId := fun v hv x hx =>
      hsame v (List.mem_cons_of_mem _ hv) x (List.mem_cons_of_mem _ hx)
    have hkind : IdsApart (if w.schema.isNone then
        [.unknownWidgetKind w.widget.id w.widget.kind] else []) := by
      split
      · exact IdsApart.cons_iff.2 ⟨rfl, .nil⟩
      · exact .nil
    rw [widgetFindings, IdsApart.append_iff, List.map_cons, List.nodup_cons,
      List.forall_mem_cons]
    by_cases hpage : w.outId ∈ pageIds
    · simp [hpage, IdsApart.cons_iff, Diagnostic.isIdClash]
    · have hmet : trimmed w.widget.id ∈ ids → w.outId ∈ outIds := fun h =>
        (hids w List.mem_cons_self h).resolve_left hpage
      have hids' : ∀ v ∈ r, trimmed v.widget.id ∈ trimmed w.widget.id :: ids →
          v.outId ∈ pageIds ∨ v.outId ∈ w.outId :: outIds := by
        intro v hv h
        rcases List.mem_cons.1 h with h | h
        · right
          rw [hsame v (List.mem_cons_of_mem _ hv) w List.mem_cons_self h]
          exact List.mem_cons_self
        · exact (hids v (List.mem_cons_of_mem _ hv) h).imp_right (List.mem_cons_of_mem _)
      have hclash : IdsApart (if outIds.contains w.outId || ids.contains (trimmed w.widget.id) then
          [.duplicateWidgetId w.widget.id] else []) ↔ w.outId ∉ outIds := by
        rw [IdsApart.ite_iff rfl, Bool.or_eq_true, List.contains_iff_mem, List.contains_iff_mem]
        exact not_congr ⟨fun h => h.elim id hmet, Or.inl⟩
      rw [if_neg (mt List.contains_iff_mem.1 hpage), IdsApart.append_iff, hclash,
        ih hsame' hids']
      simp only [List.mem_cons, List.mem_map, not_exists, not_and, not_or]
      constructor
      · rintro ⟨-, hout, hnodup, hrest⟩
        exact ⟨⟨fun v hv => (hrest v hv).2.1, hnodup⟩, ⟨hpage, hout⟩,
          fun v hv => ⟨(hrest v hv).1, (hrest v hv).2.2⟩⟩
      · rintro ⟨⟨hfresh, hnodup⟩, ⟨-, hout⟩, hrest⟩
        exact ⟨hkind, hout, hnodup, fun v hv => ⟨(hrest v hv).1, hfresh v hv, (hrest v hv).2⟩⟩

end WidgetIndex

/-- An id that pages or widgets share is reported exactly when there is one. -/
theorem nodup_outIds_iff (p : Project) (registry : Registry) (policy : Identifier.Policy) :
    (p.outIds policy).Nodup ↔
      ∀ d ∈ (WidgetIndex.ofProject p registry policy).findings p.pages policy,
        d.isIdClash = false := by
  have hsame : ∀ v ∈ WidgetIndex.ofProject p registry policy,
      ∀ w ∈ WidgetIndex.ofProject p registry policy,
        trimmed v.widget.id = trimmed w.widget.id → v.outId = w.outId :=
    fun _ hv _ hw => WidgetIndex.outId_congr policy hv hw
  rw [← IdsApart, WidgetIndex.findings, IdsApart.append_iff,
    WidgetIndex.idsApart_pageFindings_iff, WidgetIndex.idsApart_widgetFindings_iff hsame (by simp),
    Project.outIds, ← WidgetIndex.map_outId_ofProject policy p registry, List.nodup_append]
  constructor
  · rintro ⟨hpages, hwidgets, hapart⟩
    refine ⟨⟨hpages, fun _ _ => List.not_mem_nil⟩, hwidgets, fun w hw => ⟨fun h => ?_,
      List.not_mem_nil⟩⟩
    exact hapart _ h _ (List.mem_map_of_mem hw) rfl
  · rintro ⟨⟨hpages, -⟩, hwidgets, hrest⟩
    refine ⟨hpages, hwidgets, fun id hid other hother h => ?_⟩
    obtain ⟨w, hw, rfl⟩ := List.mem_map.1 hother
    exact (hrest w hw).1 (h ▸ hid)

end TouchPanel
