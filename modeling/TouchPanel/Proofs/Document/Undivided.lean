import TouchPanel.Proofs.Document.Boundary
import TouchPanel.Proofs.Recipe.Lead

/-!
# Documents that are one YAML document

A recipe may start with a line that begins a YAML document. What stands in front of the first
section of the filled recipe loses such lines. A project can bring a section in front of them by its
text for the beginning of a document, and then they stay and split the document.
-/

namespace TouchPanel.Document

open Text Recipe

variable {d : Device} {t : Text} {f : Fragments} {options : Options}

/-! ## The filled recipe -/

/-- The recipe with the texts of a project, its pages and its inbound data put in. -/
def filledRecipe (d : Device) (recipe : Text) (registry : Registry) (options : Options) : Text :=
  (fill (d.project.userText.inject (normalize recipe))
    (Fragments.ofProject d.project registry options).1).text

/-- Generated lines leave the lines that begin or end a document in front of a recipe. -/
theorem isLed_fill (hf : f.AreUndivided) (h : IsLed t) : IsLed (fill t f).text := by
  have hpaged : IsLed (paged t f) := by
    unfold paged
    exact h.replaceMarker?_getD pagesMarker_eq (Mapping.isUndivided_render hf.lvgl 0) fun _ => h
  have hmissing : Mapping.Each IsUndividedString Node.Undivided
      (Mapping.ofList ((fresh (paged t f) f).map fun s => (s.1, Node.list s.2))) := by
    refine Mapping.Each.ofList fun e he => ?_
    obtain ⟨s, hs, rfl⟩ := List.mem_map.1 he
    obtain ⟨hname, hentries⟩ :=
      hf.sections s (List.mem_append_left _ (List.mem_of_mem_filter hs))
    exact ⟨hname, .list hentries⟩
  rw [fill_eq_paged]
  exact hpaged.replaceMarker?_getD bindingsMarker_eq (Mapping.isUndivided_render hmissing 0)
    fun _ => hpaged

/-! ## The document -/

theorem isUndivided_headTexts (lead : List Text) :
    (∀ t ∈ headTexts d options lead, IsUndivided t) ↔
      (options.headerComment = true → IsUndivided (header d)) := by
  rw [headTexts, List.forall_mem_append, List.forall_mem_singleton,
    and_iff_left (isUndivided_preamble _)]
  split
  · next h => rw [List.forall_mem_singleton, imp_iff_right h]
  · next h => exact iff_of_true (by simp) fun hheader => absurd hheader h

/-- A document that is made of the filled recipe has no line that begins or ends a document exactly
when its header and the sections of the filled recipe have none. -/
theorem isUndivided_assemble (hf : f.AreUndivided) (d : Device) (recipe : Text)
    (options : Options) :
    IsUndivided (assemble d recipe f options).1 ↔
      (options.headerComment = true → IsUndivided (header d)) ∧
        BoundariesLead isInner
          (lines (fill (d.project.userText.inject (normalize recipe)) f).text) := by
  rw [assemble_eq_keyed]
  dsimp only
  have hexisting := existing_subset (d.project.userText.inject (normalize recipe)) f
  have hleft := left_subset (d.project.userText.inject (normalize recipe)) f
  generalize fill (d.project.userText.inject (normalize recipe)) f = filled at hexisting hleft ⊢
  have hsections : ∀ (p : String × List Node → Bool) (part : List (String × List Node)),
      part ⊆ f.sensors → ∀ e ∈ part ++ f.trailing.filter p,
        IsUndividedString e.1 ∧ ∀ node ∈ e.2, node.Undivided := by
    intro p part hpart e he
    refine hf.sections e (List.mem_append.2 ?_)
    exact (List.mem_append.1 he).imp (hpart ·) List.mem_of_mem_filter
  obtain ⟨hmerged, hsame⟩ := boundaries_mergeSections
    (fun s hs => isHeaded_of_mem_keyedOf (t := filled.text) hs)
    fun e he => (hsections _ _ hexisting e he).2
  rw [isUndivided_joinSections, List.forall_mem_append, isUndivided_headTexts,
    isUndivided_bodyTexts d options filled.text hmerged (hsections _ _ hleft), hsame,
    boundaries_keyedOf, chosen_isBoundary_eq_nil_iff]
  rfl

/-- A document has no line that begins or ends another exactly when its header has none and such
lines stand in front of the first section of the filled recipe. They do if they stand in front of
the sections and insertion points of the recipe and the user text for the beginning, of which
sections can be made, has an insertion point. -/
theorem isUndivided_document_iff (d : Device) (recipe : Text) (registry : Registry)
    (options : Options) (h : Fragments.AreWhole d.project registry options) :
    let document := (Compilation.ofDevice d recipe registry options).document
    (IsUndivided document ↔ (options.headerComment = true → IsUndivided (header d)) ∧
      BoundariesLead isInner (lines (filledRecipe d recipe registry options))) ∧
    (IsLed (normalize recipe) → d.project.userText.HasPlace (normalize recipe) →
      (options.headerComment = true → IsUndivided (header d)) → IsUndivided document) := by
  have hiff := isUndivided_assemble h.areUndivided d recipe options
  refine ⟨hiff, fun hled hplace hheader => hiff.2 ⟨hheader, ?_⟩⟩
  have huser : ∀ s ∈ d.project.userText.strings, IsUndivided s.toList := by
    have hstrings := h.strings
    simp only [Project.strings, List.forall_mem_append] at hstrings
    exact fun s hs => (hstrings.1.2 s hs).text
  have hfilled := isLed_fill h.areUndivided (UserText.isLed_inject huser hplace hled)
  exact hfilled.mono fun l hl => (Bool.and_eq_true_iff.1 hl).1

/-- A device with a text for the beginning of its document. -/
def substitutionsPanel : Device :=
  { panel with project := { panel.project with
    userText := { UserText.empty with before := "substitutions:\n  room: hall" } } }

theorem areWhole_substitutionsPanel :
    Fragments.AreWhole substitutionsPanel.project .builtin {} where
  strings := by decide +kernel
  calls := by simp [substitutionsPanel, panel, Project.empty]
  files := by decide +kernel
  replacement := by decide
  registry := by decide +kernel

/-- A recipe that begins a YAML document. -/
def begunRecipe (more : List String) : Text :=
  joinLines ((["---", "esphome:", "  platform: esp32", "lvgl:", "  #__LVGL_PAGES__"] ++ more).map
    String.toList)

theorem isUndivided_document_of_place :
    Fragments.AreWhole substitutionsPanel.project .builtin {} ∧
      IsUndivided (Compilation.ofDevice substitutionsPanel (begunRecipe ["#__USER_YAML_PRE__"])
        .builtin {}).document := by
  refine ⟨areWhole_substitutionsPanel, ?_⟩
  exact (isUndivided_document_iff substitutionsPanel (begunRecipe ["#__USER_YAML_PRE__"])
    .builtin {} areWhole_substitutionsPanel).2 (by decide +kernel) (by decide +kernel)
      (by decide +kernel)

/-- A text that is put in front of a recipe brings a section in front of the line that begins the
document. The line is kept then and splits the document. -/
theorem document_divided_by_user_text :
    BoundariesLead isInner (lines (begunRecipe [])) ∧
      Fragments.AreWhole substitutionsPanel.project .builtin {} ∧
      IsUndivided (header substitutionsPanel) ∧
      ¬ IsUndivided
        (Compilation.ofDevice substitutionsPanel (begunRecipe []) .builtin {}).document :=
  ⟨by decide +kernel, areWhole_substitutionsPanel, by decide +kernel, by decide +kernel⟩

end TouchPanel.Document
