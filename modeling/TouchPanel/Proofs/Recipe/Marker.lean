import TouchPanel.Proofs.Recipe.Commute

/-!
# Lines of a text with an insertion point

Without carriage returns, a text in which an insertion point was filled has the lines that were
put together: they are read back as they were written. Unless the payload holds the marker, no
line of the text does, so filling the insertion point again finds nothing.
-/

namespace TouchPanel.Recipe

open Text

variable {marker payload t t' m : Text}

/-- There is nothing to fill exactly if no line holds the marker alone. -/
theorem replaceMarker?_eq_none_iff :
    replaceMarker? marker payload t = none ↔ ∀ l ∈ lines t, isMarkerLine marker l = false := by
  rw [replaceMarker?, Option.map_eq_none_iff, substituteLines?_eq_none_iff]

theorem removeMarker_eq (h : ∀ l ∈ lines t, isMarkerLine marker l = false) :
    removeMarker marker t = unlines (lines t) := by
  rw [removeMarker, List.filter_eq_self.2 fun l hl => by rw [h l hl]; rfl]

/-- The lines that a payload puts in at a line of a text. -/
theorem allLines_insertedLines (ht : '\r' ∉ t) (hpayload : '\r' ∉ payload) (hm : m ∈ lines t) :
    AllLines (insertedLines payload m) := by
  have hdropped : '\r' ∉ dropEndWhile (· == '\n') payload := fun hc =>
    hpayload ((List.rdropWhile_prefix _ _).subset hc)
  intro x hx
  obtain ⟨l, hl, rfl⟩ := List.mem_map.1 hx
  refine ⟨?_, bare_of_not_mem ?_⟩
  · exact not_mem_indentLike (newline_not_mem_of_mem_lines hm) (newline_not_mem_of_mem_lines hl)
  · exact not_mem_indentLike (fun hc => ht (mem_of_mem_lines hm hc))
      fun hc => hdropped (mem_of_mem_lines hl hc)

/-- A text whose insertion point was filled is made of the lines that were put together. -/
theorem exists_lines_replaceMarker? (ht : '\r' ∉ t) (hpayload : '\r' ∉ payload)
    (h : replaceMarker? marker payload t = some t') :
    ∃ front m back, lines t = front ++ m :: back ∧
      (∀ l ∈ front, isMarkerLine marker l = false) ∧ isMarkerLine marker m = true ∧
      lines t' = front ++ insertedLines payload m ++ back.filter (!isMarkerLine marker ·) ∧
      t' = unlines (lines t') := by
  obtain ⟨out, hout, rfl⟩ := Option.map_eq_some_iff.1 h
  obtain ⟨front, m, back, hlines, hfront, hm, rfl⟩ := substituteLines?_eq_some hout
  have hread : AllLines (front ++ m :: back) := hlines ▸ allLines_lines ht
  obtain ⟨hfirst, hrest⟩ : AllLines front ∧ AllLines (m :: back) := List.forall_mem_append.1 hread
  have hall : AllLines (front ++
      (insertedLines payload m ++ back.filter (!isMarkerLine marker ·))) :=
    hfirst.append ((allLines_insertedLines ht hpayload (hlines ▸ by simp)).append fun l hl =>
      hrest l (List.mem_cons_of_mem m (List.mem_of_mem_filter hl)))
  have hback := hall.lines_unlines
  refine ⟨front, m, back, hlines, hfront, hm, ?_, ?_⟩
  · rw [List.append_assoc]
    exact hback
  · exact congrArg unlines hback.symm

/-- The lines of a text whose first insertion point of a marker is filled, for any marker. The
marker stands in none of them unless it stands in the payload. -/
theorem replaceMarker?_by_lines (ht : '\r' ∉ t) (hpayload : '\r' ∉ payload) :
    (replaceMarker? marker payload t = none ↔ ∀ l ∈ lines t, isMarkerLine marker l = false) ∧
      ∀ t', replaceMarker? marker payload t = some t' →
        (∃ front m back, lines t = front ++ m :: back ∧
          (∀ l ∈ front, isMarkerLine marker l = false) ∧ isMarkerLine marker m = true ∧
          lines t' = front ++ (payloadLines payload).map (indentLike m) ++
            back.filter (!isMarkerLine marker ·)) ∧
        ((∀ l ∈ payloadLines payload, isMarkerLine marker l = false) →
          (∀ l ∈ lines t', isMarkerLine marker l = false) ∧
            (∀ payload', replaceMarker? marker payload' t' = none) ∧
            removeMarker marker t' = t') := by
  refine ⟨replaceMarker?_eq_none_iff, fun t' h => ?_⟩
  obtain ⟨front, m, back, hlines, hfront, hm, hout, ht'⟩ :=
    exists_lines_replaceMarker? ht hpayload h
  refine ⟨⟨front, m, back, hlines, hfront, hm, hout⟩, fun hnone => ?_⟩
  have hgone : ∀ l ∈ lines t', isMarkerLine marker l = false := by
    rw [hout]
    refine List.forall_mem_append.2 ⟨List.forall_mem_append.2 ⟨hfront, ?_⟩, fun l hl => ?_⟩
    · exact isMarkerLine_insertedLines hnone m
    · simpa using List.of_mem_filter hl
  exact ⟨hgone, fun _ => replaceMarker?_eq_none_iff.2 hgone, (removeMarker_eq hgone).trans ht'.symm⟩

/-- An insertion point behind a wide space, filled with three lines of which one is empty. -/
theorem replaceMarker?_by_lines_wide :
    let t := "lvgl:\n\u3000 #__LVGL_PAGES__ \nb: 1\n  #__LVGL_PAGES__\nc: 2".toList
    let payload := "pages:\n\n- id: a\n\n".toList
    let t' := "lvgl:\n\u3000 pages:\n\n\u3000 - id: a\nb: 1\nc: 2\n".toList
    ('\r' ∉ t ∧ '\r' ∉ payload) ∧ replaceMarker? pagesMarker payload t = some t' ∧
      (∀ l ∈ payloadLines payload, isMarkerLine pagesMarker l = false) ∧
      (∀ payload', replaceMarker? pagesMarker payload' t' = none) ∧
      removeMarker pagesMarker t' = t' := by
  intro t payload t'
  have hreturn : '\r' ∉ t ∧ '\r' ∉ payload := by decide
  have hfilled : replaceMarker? pagesMarker payload t = some t' := by decide
  have hnone : ∀ l ∈ payloadLines payload, isMarkerLine pagesMarker l = false := by decide
  obtain ⟨-, hgone⟩ := (replaceMarker?_by_lines hreturn.1 hreturn.2).2 t' hfilled
  exact ⟨hreturn, hfilled, hnone, (hgone hnone).2⟩

end TouchPanel.Recipe
