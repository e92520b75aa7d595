import TouchPanel.Proofs.Document.MarkerAtEnd
import TouchPanel.Proofs.Document.Relevant
import TouchPanel.Proofs.Recipe.Commute

/-!
# The two insertion points of a document

The pages and the sections of inbound data go to insertion points of their own. It makes no
difference which of them are put in first, unless a line of the pages or of the sections looks
like an insertion point itself.
-/

namespace TouchPanel.Document

open Text Recipe

/-- Sections of inbound data as the payload of an insertion point. -/
def sectionsPayload (ss : List (String × List Node)) : Text :=
  (Mapping.ofList (ss.map fun s => (s.1, Node.list s.2))).render 0

theorem payloadLines_sectionsPayload {f : Fragments} (hf : f.IsWritable)
    (hbare : ∀ s ∈ f.sensors, ∀ l ∈ sectionLines s, bare l = l)
    {ss : List (String × List Node)} (hss : ss.Sublist f.sensors) :
    payloadLines (sectionsPayload ss) = ss.flatMap sectionLines := by
  have hgenerated : ∀ s ∈ ss, IsGenerated s := fun s hs => hf.sensors s (hss.subset hs)
  have hnames : (ss.map (·.1)).Nodup := ((hss.map _).trans hf.sensor_names).nodup (by decide)
  have hmapping : Mapping.ofList (ss.map fun s => (s.1, Node.list s.2)) =
      ss.map fun s => (s.1, Node.list s.2) := by
    refine Mapping.ofList_of_nodup ?_
    rwa [Mapping.keys, List.map_map]
  have hlines : AllLines (ss.flatMap sectionLines) := by
    intro l hl
    obtain ⟨s, hs, hmem⟩ := List.mem_flatMap.1 hl
    exact ⟨(hgenerated s hs).newline_not_mem l hmem, hbare s (hss.subset hs) l hmem⟩
  rw [payloadLines, sectionsPayload, hmapping, render_sections hgenerated]
  refine lines_dropNewlines_unlines hlines fun l hl => ?_
  by_cases hne : ss = []
  · rw [hne] at hl
    cases hl
  · obtain ⟨init, last, heq, hclean⟩ := exists_last_sections hgenerated hne
    rw [heq, List.getLast?_concat] at hl
    obtain rfl := Option.some.inj hl
    exact hclean

/-- The pages and any of the sections of inbound data can be put in in any order, as long as no
line of the pages is an insertion point for the sections and no line of the sections one for the
pages. The lines are the same then, and the text is the same unless a line of the pages ends with
a carriage return, which is taken for a part of the line ending when the text is read again. -/
theorem insertion_ignores_order (p : Project) (registry : Registry) (options : Options)
    {ss : List (String × List Node)}
    (hss : ss.Sublist (Fragments.ofProject p registry options).1.sensors) {t : Text}
    (hpages : ∃ l ∈ lines t, isMarkerLine pagesMarker l = true)
    (hbindings : ∃ l ∈ lines t, isMarkerLine bindingsMarker l = true)
    (hpagesFree : ∀ l ∈ payloadLines ((Fragments.ofProject p registry options).1.lvgl.render 0),
      isMarkerLine bindingsMarker l = false)
    (hsectionsFree : ∀ l ∈ payloadLines (sectionsPayload ss),
      isMarkerLine pagesMarker l = false) :
    let pages := (Fragments.ofProject p registry options).1.lvgl.render 0
    let pagesFirst := (replaceMarker? pagesMarker pages t).bind
      (replaceMarker? bindingsMarker (sectionsPayload ss))
    let sectionsFirst := (replaceMarker? bindingsMarker (sectionsPayload ss) t).bind
      (replaceMarker? pagesMarker pages)
    (∃ u u', pagesFirst = some u ∧ sectionsFirst = some u' ∧ bareLines u = bareLines u') ∧
      (options.fault? = none → (∀ l ∈ payloadLines pages, bare l = l) →
        pagesFirst = sectionsFirst) := by
  intro pages pagesFirst sectionsFirst
  have hne : pagesMarker ≠ bindingsMarker := by decide
  constructor
  · obtain ⟨u, hu⟩ := Option.isSome_iff_exists.1
      (isSome_bind_replaceMarker? hne hpages hbindings pages (sectionsPayload ss))
    obtain ⟨u', hu'⟩ := Option.isSome_iff_exists.1
      (isSome_bind_replaceMarker? hne.symm hbindings hpages (sectionsPayload ss) pages)
    have hlines := bareLines_replaceMarker?_comm hne (by decide) (by decide) hpagesFree
      hsectionsFree t
    rw [hu, hu'] at hlines
    exact ⟨u, u', hu, hu', Option.some.inj hlines⟩
  · intro hvalid hbare
    have hf : (Fragments.ofProject p registry options).1.IsWritable :=
      Fragments.isWritable_ofProject p registry (isLineText_of_valid hvalid)
    refine replaceMarker?_comm hne (by decide) (by decide) hpagesFree hsectionsFree hbare
      (fun l hl => ?_) t
    rw [payloadLines_sectionsPayload hf (bare_sectionLines hvalid) hss] at hl
    obtain ⟨s, hs, hmem⟩ := List.mem_flatMap.1 hl
    exact bare_sectionLines hvalid s (hss.subset hs) l hmem

/-- A project with an entity and a label. -/
def labelProject (text : String) : Project :=
  { Project.empty with
    bindings := [⟨"sensor.outdoor", .state, none⟩]
    pages := [⟨"main", none, none, [{ Compilation.label with
      props := Compilation.label.props.insert "text" (.string text) }]⟩] }

/-- A recipe with both insertion points. -/
def markedRecipe : Text :=
  joinLines (["lvgl:", "  #__LVGL_PAGES__", "#__HA_BINDINGS__", "time:"].map String.toList)

theorem insertion_ignores_order_label :
    let f := (Fragments.ofProject (labelProject "Hi\nthere") .builtin {}).1
    (replaceMarker? pagesMarker (f.lvgl.render 0) markedRecipe).bind
        (replaceMarker? bindingsMarker (sectionsPayload f.sensors)) =
      (replaceMarker? bindingsMarker (sectionsPayload f.sensors) markedRecipe).bind
        (replaceMarker? pagesMarker (f.lvgl.render 0)) := by
  have hbare : ∀ l ∈ payloadLines ((Fragments.ofProject (labelProject "Hi\nthere")
      .builtin {}).1.lvgl.render 0), bare l = l := by decide +kernel
  obtain ⟨-, horder⟩ := insertion_ignores_order (labelProject "Hi\nthere") .builtin {}
    (List.Sublist.refl _) (t := markedRecipe) (by decide) (by decide) (by decide +kernel)
    (by decide +kernel)
  exact horder (by decide) hbare

/-- A line of a label takes the sections when the pages are put in first. -/
theorem label_takes_sections :
    let f := (Fragments.ofProject (labelProject "Hi\n#__HA_BINDINGS__") .builtin {}).1
    ((∃ l ∈ lines markedRecipe, isMarkerLine pagesMarker l = true) ∧
      ∃ l ∈ lines markedRecipe, isMarkerLine bindingsMarker l = true) ∧
      (replaceMarker? pagesMarker (f.lvgl.render 0) markedRecipe).bind
          (replaceMarker? bindingsMarker (sectionsPayload f.sensors)) ≠
        (replaceMarker? bindingsMarker (sectionsPayload f.sensors) markedRecipe).bind
          (replaceMarker? pagesMarker (f.lvgl.render 0)) := by
  refine ⟨by decide, ?_⟩
  decide +kernel

end TouchPanel.Document
