import TouchPanel.Document.SelfCheck
import TouchPanel.Proofs.Access.Basic
import TouchPanel.Proofs.Document.Order
import TouchPanel.Proofs.Region.Overwrite

/-!
# What a self-check tells

A marker that is left in a document is reported for each of its lines, unless its name takes only
one byte. Every document has content, and trying to export it fails for no other reason than a
marker of the managed region in it. So a device passes exactly when its document has no fault
and neither of these markers.
-/

namespace TouchPanel.Document

open Text Recipe

/-! ## Markers that are left -/

/-- The shortest name with which a marker is told from a run of underscores has two bytes. -/
theorem looksLikeMarker_customMarker (name : Text) :
    looksLikeMarker (customMarker name) = decide (2 ≤ byteSize name) := by
  have hsize : byteSize (customMarker name) = 5 + byteSize name := by
    have hends : byteSize "#__".toList = 3 ∧ byteSize "__".toList = 2 := by decide
    rw [customMarker, Access.byteSize_append, Access.byteSize_append, hends.1, hends.2]
    omega
  have hstart : startsWith "#__".toList (customMarker name) = true :=
    startsWith_iff.2 ⟨name ++ "__".toList, List.append_assoc _ _ _⟩
  have hend : endsWith "__".toList (customMarker name) = true :=
    startsWith_iff.2 ⟨("#__".toList ++ name).reverse, List.reverse_append⟩
  rw [looksLikeMarker, hstart, hend, hsize, Bool.and_true, Bool.and_true]
  exact decide_eq_decide.2 (by omega)

theorem count_leftMarkers (t marker : Text) :
    (leftMarkers t).count (.leftMarker marker) =
      if looksLikeMarker marker then ((lines t).map trim).count marker else 0 := by
  have hinj : Function.Injective Fault.leftMarker := fun _ _ => Fault.leftMarker.inj
  rw [leftMarkers, List.count_map_of_injective _ _ hinj]
  split
  · next h => exact List.count_filter h
  · next h => exact List.count_eq_zero.2 fun hmem => h (List.of_mem_filter hmem)

/-- No other fault is taken for a marker that is left. -/
theorem count_faults (t marker : Text) :
    (faults t).count (.leftMarker marker) = (leftMarkers t).count (.leftMarker marker) := by
  have hdoubled : ∀ keys : List Text, (keys.map Fault.repeatedSection).count (.leftMarker marker) =
      0 := fun keys => List.count_eq_zero.2 (by simp)
  have hplaceholder : (leftPlaceholders t).count (.leftMarker marker) = 0 :=
    List.count_eq_zero.2 (by simp [leftPlaceholders])
  have hyaml : (yamlFaults t).count (.leftMarker marker) = 0 := by
    unfold yamlFaults
    split
    · rfl
    · dsimp only
      split <;> rfl
  unfold faults
  dsimp only
  simp only [List.count_append, hdoubled, hplaceholder]
  split <;> split <;> simp [hyaml]

/-- A line with the marker of an insertion point is reported, and the self-check of a device with
such a document fails, if the name of the marker has at least two bytes. A shorter name is never
reported. -/
theorem left_marker_reported {name t : Text}
    (hleft : ∃ line ∈ lines t, trim line = customMarker (trim name)) :
    let marker := customMarker (trim name)
    (Fault.leftMarker marker ∈ faults t ↔ 2 ≤ byteSize (trim name)) ∧
    (faults t).count (.leftMarker marker) =
      (if 2 ≤ byteSize (trim name) then ((lines t).map trim).count marker else 0) ∧
    (2 ≤ byteSize (trim name) → ∀ (d : Device) (recipe : Text) (registry : Registry)
      (options : Options), (Compilation.ofDevice d recipe registry options).document = t →
        ∀ c ∈ selfCheck d recipe registry options, c.name = "document_valid" →
          c.passed = false) := by
  intro marker
  have hcount : (faults t).count (.leftMarker marker) =
      if 2 ≤ byteSize (trim name) then ((lines t).map trim).count marker else 0 := by
    rw [count_faults, count_leftMarkers, looksLikeMarker_customMarker]
    simp only [decide_eq_true_eq]
  have hpos : 0 < ((lines t).map trim).count marker :=
    List.count_pos_iff.2 (List.mem_map.2 hleft)
  have hmem : Fault.leftMarker marker ∈ faults t ↔ 2 ≤ byteSize (trim name) := by
    rw [← List.count_pos_iff, hcount]
    split
    · next h => exact iff_of_true hpos h
    · next h => exact iff_of_false (Nat.lt_irrefl 0) h
  refine ⟨hmem, hcount, fun hlong d recipe registry options hdocument c hc hname => ?_⟩
  have hfault : (Check.valid t).passed = false :=
    List.isEmpty_eq_false_iff.2 (List.ne_nil_of_mem (hmem.2 hlong))
  subst hdocument
  simp only [selfCheck, List.mem_cons, List.not_mem_nil, or_false] at hc
  rcases hc with rfl | rfl | rfl | rfl
  · exact absurd hname (by simp [Check.deterministic])
  · exact hfault
  · exact absurd hname (by simp [Check.idempotent, Check.ofProblem])
  · exact absurd hname (by simp [Check.refusesDuplicates, Check.ofProblem])

/-- A recipe with a line that no project gives a meaning. -/
def pointRecipe (marker : String) : Text := joinLines (["esphome:", marker].map String.toList)

theorem left_marker_reported_panel :
    let document := (Compilation.ofDevice panel (pointRecipe "#__ROOM__") .builtin {}).document
    (∃ line ∈ lines document, trim line = customMarker (trim " ROOM".toList)) ∧
      Fault.leftMarker "#__ROOM__".toList ∈ faults document ∧
      ∀ c ∈ selfCheck panel (pointRecipe "#__ROOM__") .builtin {},
        c.name = "document_valid" → c.passed = false := by
  intro document
  have hleft : ∃ line ∈ lines document, trim line = customMarker (trim " ROOM".toList) :=
    ⟨"#__ROOM__".toList, by decide +kernel⟩
  obtain ⟨hmem, -, hfails⟩ := left_marker_reported hleft
  exact ⟨hleft, hmem.2 (by decide), hfails (by decide) panel _ .builtin {} rfl⟩

/-- A marker whose name takes one byte is left in a document, and the check of the document
passes. -/
theorem short_marker_unreported :
    let options : Options := { defaultNetwork := false }
    let document := (Compilation.ofDevice panel (pointRecipe "#__R__") .builtin options).document
    (trim "R".toList ≠ [] ∧ '\n' ∉ "R".toList ∧
      ∃ line ∈ lines document, trim line = customMarker (trim "R".toList)) ∧
      faults document = [] ∧
      ∃ c ∈ selfCheck panel (pointRecipe "#__R__") .builtin options,
        c.name = "document_valid" ∧ c.passed = true := by
  intro options document
  have hfaults : faults document = [] := by decide +kernel
  refine ⟨⟨by decide, by decide, "#__R__".toList, by decide +kernel⟩, hfaults, ?_⟩
  exact ⟨.valid document, by simp [selfCheck, document], rfl, by rw [Check.valid, hfaults]; rfl⟩

/-! ## Content of a document -/

theorem mem_substitute (d : Device) {t : Text} {c : Char} (hname : c ∉ deviceNamePlaceholder)
    (hkey : c ∉ apiKeyPlaceholder) (h : c ∈ t) : c ∈ substitute d t := by
  have hnamed : ∀ fill, c ∈ replace deviceNamePlaceholder fill t := fun _ =>
    mem_replace (by decide) hname h
  unfold substitute
  cases d.key? with
  | none => exact hnamed _
  | some key => exact mem_replace (by decide) hkey (hnamed _)

theorem colon_mem_esphomeSection (name recipe : Text) (s : Option Section) :
    ':' ∈ esphomeSection name recipe s := by
  have hcolon : ':' ∈ "esphome:".toList := by decide
  unfold esphomeSection
  cases s with
  | none => exact mem_joinWith List.mem_cons_self hcolon
  | some s => exact mem_joinWith (mem_rdropWhile (by decide) List.mem_cons_self) hcolon

/-- The key `esphome` is written whatever the device and the recipe are. -/
theorem not_allBlank_document (d : Device) (recipe : Text) (registry : Registry)
    (options : Options) :
    allBlank (Compilation.ofDevice d recipe registry options).document = false := by
  have htexts : ∀ t ss added, ∃ u ∈ sectionTexts d options t ss added, ':' ∈ u := by
    intro t ss added
    refine ⟨_, ?_, colon_mem_esphomeSection d.nodeName.toList t (takeSection "esphome" ss).1⟩
    rw [sectionTexts_eq]
    exact List.mem_append_right _ List.mem_cons_self
  have hjoin : ∀ texts : List Text, (∃ u ∈ texts, ':' ∈ u) → ':' ∈ joinSections d texts := by
    rintro texts ⟨u, hu, hcolon⟩
    have htrim : ':' ∈ trimEnd u := mem_rdropWhile (by decide) hcolon
    refine List.mem_append_left _ (mem_substitute d (by decide) (by decide) ?_)
    refine mem_joinWith (List.mem_filter.2 ⟨List.mem_map_of_mem hu, ?_⟩) htrim
    rw [Bool.not_eq_true', List.isEmpty_eq_false_iff]
    exact List.ne_nil_of_mem htrim
  have hcolon : ':' ∈ (Compilation.ofDevice d recipe registry options).document :=
    hjoin _ (htexts _ _ _)
  rw [← Bool.not_eq_true]
  intro hblank
  exact absurd (List.all_eq_true.1 hblank ':' hcolon) (by decide)

end Document

/-! ## The checks -/

open Text Region

namespace Check

theorem markerFree_user : MarkerFree userAbove ∧ MarkerFree userBelow := by
  decide +kernel

/-- The user text with a region in it, as the first export leaves it. -/
def surrounding : Frame :=
  .between (trimEnd userAbove ++ ['\n', '\n']) userBelow (closed_append_newlines _)
    (by decide +kernel) markerFree_user.2

theorem fill_surrounding (body : Text) :
    surrounding.fill body = userAbove ++ ('\n' :: fresh body ++ userBelow) := by
  have habove : trimEnd userAbove ++ ['\n', '\n'] = userAbove ++ ['\n'] := by decide
  rw [surrounding, Frame.fill_between, habove, List.append_assoc, List.append_assoc]
  rfl

/-- Exporting twice into the text of a user changes nothing the second time. -/
theorem secondExport_of_markerFree {document : Text} (free : MarkerFree document) :
    secondExport document = .ok none := by
  have hfirst := merge_below markerFree_user.1 (by decide) free
  have hsurrounded : (Frame.below userAbove markerFree_user.1).fill (bodyOf document) ++ userBelow =
      surrounding.fill (bodyOf document) := by
    rw [Frame.fill_below, surrounding, Frame.fill_between]
    simp
  have hsecond := merge_fill surrounding (markerFree_bodyOf free) free .updateOnly
  have habove : startsWith userAbove (surrounding.fill (bodyOf document)) = true :=
    startsWith_iff.2 ⟨_, fill_surrounding _⟩
  have hbelow : endsWith userBelow (surrounding.fill (bodyOf document)) = true := by
    rw [fill_surrounding, ← List.append_assoc]
    exact startsWith_iff.2 ⟨_, List.reverse_append⟩
  unfold secondExport
  rw [hfirst]
  simp only [bind, Except.bind, hsurrounded, hsecond, bne_self_eq_false, habove, hbelow]
  rfl

theorem passed_idempotent (document : Text) :
    (idempotent document).passed = decide (MarkerFree document) := by
  unfold idempotent
  by_cases free : MarkerFree document
  · rw [secondExport_of_markerFree free, decide_eq_true free]
    rfl
  · rw [secondExport, merge_of_not_markerFree free, decide_eq_false free]
    rfl

theorem passed_refusesDuplicates (document : Text) :
    (refusesDuplicates document).passed = decide (MarkerFree document) := by
  have hcorrupted : Region.find corrupted = .error (.duplicated 2 1) := by decide +kernel
  unfold refusesDuplicates
  by_cases free : MarkerFree document
  · rw [merge_of_find_error free hcorrupted, decide_eq_true free]
    rfl
  · rw [merge_of_not_markerFree free, decide_eq_false free]
    rfl

theorem passed_deterministic {document : Text} (hcontent : allBlank document = false) :
    (deterministic document document).passed = true := by
  rw [deterministic, hcontent]
  simp

/-- The checks of a document that is compiled alike twice. -/
def ofDocument (document : Text) : List Check :=
  [deterministic document document, valid document, idempotent document,
    refusesDuplicates document]

theorem map_ofDocument {document : Text} (hcontent : allBlank document = false) :
    (ofDocument document).map (fun c => (c.name, c.passed)) =
      [("compile_deterministic", true), ("document_valid", (Document.faults document).isEmpty),
        ("export_idempotent", decide (MarkerFree document)),
        ("duplicate_markers_abort", decide (MarkerFree document))] := by
  have hchecks : (ofDocument document).map (fun c => (c.name, c.passed)) =
      [("compile_deterministic", (deterministic document document).passed),
        ("document_valid", (Document.faults document).isEmpty),
        ("export_idempotent", (idempotent document).passed),
        ("duplicate_markers_abort", (refusesDuplicates document).passed)] := rfl
  rw [hchecks, passed_deterministic hcontent, passed_idempotent, passed_refusesDuplicates]

theorem all_ofDocument {document : Text} (hcontent : allBlank document = false) :
    (ofDocument document).all (·.passed) = true ↔
      Document.faults document = [] ∧ MarkerFree document := by
  have hall : (ofDocument document).all (·.passed) =
      ((ofDocument document).map fun c => (c.name, c.passed)).all (·.2) := List.all_map.symm
  rw [hall, map_ofDocument hcontent]
  simp

end Check

/-- A self-check makes four checks, of which the first always passes. The second passes if the
document has no fault, the two others if neither marker of the managed region stands in it, and
for no other reason does any of them fail. -/
theorem selfCheck_verdict (d : Device) (recipe : Text) (registry : Registry) (options : Options) :
    let document := (Compilation.ofDevice d recipe registry options).document
    let checks := selfCheck d recipe registry options
    checks.map (fun c => (c.name, c.passed)) =
      [("compile_deterministic", true), ("document_valid", (Document.faults document).isEmpty),
        ("export_idempotent", decide (MarkerFree document)),
        ("duplicate_markers_abort", decide (MarkerFree document))] ∧
    (checks.all (·.passed) = true ↔ Document.faults document = [] ∧ MarkerFree document) := by
  intro document checks
  have hcontent : allBlank document = false :=
    Document.not_allBlank_document d recipe registry options
  have hchecks : checks = Check.ofDocument document := rfl
  rw [hchecks]
  exact ⟨Check.map_ofDocument hcontent, Check.all_ofDocument hcontent⟩

end TouchPanel
