import TouchPanel.Proofs.Document.Parts

/-!
# A document and its recipe

A document is made of the sections of its filled recipe. The first section `esphome` and the
first section `api` are the ones of the recipe, so they can take the name and the key.
-/

namespace TouchPanel.Document

open Text Recipe

variable {d : Device} {t : Text} {f : Fragments}

/-- The generated sections that go into sections of the recipe. -/
def merged (t : Text) (f : Fragments) : List (String × List Node) :=
  (f.sensors ++ f.trailing).filter fun s => hasSection t s.1.toList

/-- The generated sections that follow the recipe. -/
def added (t : Text) (f : Fragments) : List (String × List Node) :=
  (fill t f).left ++ f.trailing.filter fun s => !hasSection t s.1.toList

theorem names_sublist (hf : f.IsWritable) : ((f.sensors ++ f.trailing).map (·.1)).Sublist
    (Declarations.sectionNames ++ Fragments.trailingNames) := by
  rw [List.map_append]
  exact hf.sensor_names.append (Fragments.names_trailing f)

theorem nodup_names (hf : f.IsWritable) :
    ((f.sensors ++ f.trailing).map (·.1.toList)).Nodup := by
  have hnodup := List.pairwise_map.1 ((names_sublist hf).nodup (by decide))
  exact List.pairwise_map.2 (hnodup.imp fun hne heq => hne (String.toList_inj.1 heq))

/-- The names that generated sections have. -/
def generatedNames : List String := Declarations.sectionNames ++ Fragments.trailingNames

theorem name_mem_generatedNames (hf : f.IsWritable) {s : String × List Node}
    (hs : s ∈ f.sensors ++ f.trailing) : s.1 ∈ generatedNames :=
  (names_sublist hf).subset (List.mem_map_of_mem hs)

theorem any_key_iff {ss : List Section} {keys : List Text} {key : Text}
    (h : (ss.filter (·.key.isSome)).map (·.key) = keys.map some) :
    ss.any (·.key == some key) = true ↔ key ∈ keys := by
  have hmem : some key ∈ (ss.filter (·.key.isSome)).map (·.key) ↔ key ∈ keys := by
    rw [h, List.mem_map_of_injective fun _ _ => Option.some.inj]
  rw [← hmem, List.any_eq_true, List.mem_map]
  constructor
  · rintro ⟨s, hs, heq⟩
    rw [beq_iff_eq] at heq
    exact ⟨s, List.mem_filter.2 ⟨hs, by rw [heq]; rfl⟩, heq⟩
  · rintro ⟨s, hs, heq⟩
    exact ⟨s, (List.mem_filter.1 hs).1, by rw [heq, beq_self_eq_true]⟩

theorem map_key_filter_isSome_split (t : Text) :
    ((Section.split t).filter (·.key.isSome)).map (·.key) = (keysOf (lines t)).map some := by
  have hkeyed : (keyedOf (lines t)).filter (·.key.isSome) = keyedOf (lines t) := by
    refine List.filter_eq_self.2 fun s hs => ?_
    obtain ⟨key, l, r, hs⟩ := isKeyed_of_mem_keyedOf hs
    rw [hs.key_eq]
    rfl
  rw [Section.split, ofLines_eq, List.filter_append, hkeyed, ← map_key_keyedOf]
  split <;> rfl

theorem map_key_filter_isSome_mergeSections (ss : List Section)
    (added : List (String × List Node)) :
    ((mergeSections ss added).1.filter (·.key.isSome)).map (·.key) =
      (ss.filter (·.key.isSome)).map (·.key) := by
  have hfilter : ∀ ss : List Section, (ss.filter (·.key.isSome)).map (·.key) =
      (ss.map (·.key)).filter (·.isSome) := fun ss => by rw [List.filter_map]; rfl
  rw [hfilter, hfilter, map_key_mergeSections]

theorem name_not_mem_sensors (hf : f.IsWritable) {s : String × List Node} (hs : s ∈ f.trailing) :
    s.1.toList ∉ f.sensors.map (·.1.toList) := by
  have hnodup := nodup_names hf
  rw [List.map_append, List.nodup_append] at hnodup
  intro hmem
  exact hnodup.2.2 _ hmem _ (List.mem_map_of_mem hs) rfl

theorem any_key_mergeSections (t : Text) (added : List (String × List Node)) (key : Text) :
    (mergeSections (Section.split t) added).1.any (·.key == some key) = hasSection t key := by
  rw [Bool.eq_iff_iff, hasSection_iff]
  exact any_key_iff ((map_key_filter_isSome_mergeSections _ added).trans
    (map_key_filter_isSome_split t))

/-- A document is made of the filled text: a generated section goes into the section of its name,
or it follows. -/
theorem assemble_eq_filled (d : Device) (recipe : Text) (f : Fragments) (options : Options) :
    assemble d recipe f options =
      let filled := fill (d.project.userText.inject (normalize recipe)) f
      let merged := mergeSections (Section.split filled.text)
        (filled.existing ++ f.trailing.filter fun s => hasSection filled.text s.1.toList)
      (joinSections d (sectionTexts d options filled.text merged.1
          (filled.left ++ f.trailing.filter fun s => !hasSection filled.text s.1.toList)),
        filled.diagnostics ++ merged.2) := by
  unfold assemble
  dsimp only
  rw [List.partition_eq_filter_filter]
  dsimp only [Function.comp_def]
  simp only [any_key_mergeSections]
  rw [mergeSections_append, List.append_assoc]

end TouchPanel.Document
