import TouchPanel.Proofs.Document.Assembly

/-!
# Documents of related sections

A document is made of what stands in front of the first key and of the sections that follow.
Where the sections of two recipes are related one by one, so are the parts of their documents,
as long as a section keeps its relation when it takes entries.
-/

namespace TouchPanel.Document

open Text Recipe

variable {d : Device} {front ss : List Section}

/-! ## Sections in front of the first key -/

theorem mergeSections_keyless (h : ∀ s ∈ front, s.key = none) (ss : List Section)
    (added : List (String × List Node)) :
    mergeSections (front ++ ss) added =
      (front ++ (mergeSections ss added).1, (mergeSections ss added).2) := by
  have hone : ∀ (ss : List Section) (name : String) (entries : List Node),
      mergeSection (front ++ ss) name entries =
        (front ++ (mergeSection ss name entries).1, (mergeSection ss name entries).2) := by
    intro ss name entries
    induction front with
    | nil => rfl
    | cons s front ih =>
      obtain ⟨hs, hfront⟩ := List.forall_mem_cons.1 h
      rw [List.cons_append, mergeSection_cons_of_ne (by simp [hs]), ih hfront, List.cons_append]
  induction added generalizing ss with
  | nil => rfl
  | cons e added ih => rw [mergeSections_cons, hone, ih, mergeSections_cons]

theorem takeSection_keyless (h : ∀ s ∈ front, s.key = none) (name : String) (ss : List Section) :
    takeSection name (front ++ ss) =
      ((takeSection name ss).1, front ++ (takeSection name ss).2) := by
  have hfront : ∀ s ∈ front, ¬ (s.key == some name.toList) = true := fun s hs => by simp [h s hs]
  unfold takeSection
  dsimp only
  rw [List.find?_append, List.find?_eq_none.2 hfront, List.eraseP_append_right _ hfront]
  rfl

theorem others_keyless (h : ∀ s ∈ front, s.key = none) (ss : List Section) :
    others (front ++ ss) = front ++ others ss := by
  simp only [others, List.foldl_cons, List.foldl_nil, takeSection_keyless h]

theorem takeSection_cons_self {s : Section} {name : String} (h : s.key = some name.toList)
    (r : List Section) : takeSection name (s :: r) = (some s, r) := by
  have hself : (s.key == some name.toList) = true := beq_iff_eq.2 h
  simp [takeSection, hself]

theorem takeSection_cons_of_ne {s : Section} {name : String} (h : s.key ≠ some name.toList)
    (r : List Section) :
    takeSection name (s :: r) = ((takeSection name r).1, s :: (takeSection name r).2) := by
  have hself : (s.key == some name.toList) = false := by simpa using h
  simp [takeSection, hself]

/-! ## The document -/

/-- The texts in front of the sections. -/
def headTexts (d : Device) (options : Options) (lead : List Text) : List Text :=
  (if options.headerComment then [header d] else []) ++ [preamble ⟨none, lead⟩]

/-- The texts of the sections. -/
def bodyTexts (d : Device) (options : Options) (recipe : Text) (ss : List Section)
    (added : List (String × List Node)) : List Text :=
  esphomeSection d.nodeName.toList recipe (takeSection "esphome" ss).1 ::
    apiSection (d.key?.map String.toList) (takeSection "api" ss).1 ::
      (networkTexts options defaultWifi (takeSection "wifi" ss).1 ++
      (networkTexts options defaultOta (takeSection "ota" ss).1 ++
      ((others ss).map Section.text ++ added.map sectionText)))

theorem sectionTexts_keyless (d : Device) (options : Options) (recipe : Text)
    (added : List (String × List Node)) (hfront : ∀ s ∈ front, s.key = none)
    (hss : ∀ s ∈ ss, s.key.isSome = true) :
    sectionTexts d options recipe (front ++ ss) added =
      ((if options.headerComment then [header d] else []) ++ front.map preamble) ++
        bodyTexts d options recipe ss added := by
  have hothers : ∀ s ∈ others ss, s.key.isSome = true := fun s hs => hss s (mem_of_mem_others hs)
  have hnone : (others (front ++ ss)).filter (·.key.isNone) = front := by
    rw [others_keyless hfront, List.filter_append,
      List.filter_eq_self.2 fun s hs => by rw [hfront s hs]; rfl,
      List.filter_eq_nil_iff.2 fun s hs => by
        simpa using Option.isSome_iff_ne_none.1 (hothers s hs),
      List.append_nil]
  have hsome : (others (front ++ ss)).filter (·.key.isSome) = others ss := by
    rw [others_keyless hfront, List.filter_append,
      List.filter_eq_nil_iff.2 fun s hs => by rw [hfront s hs]; decide,
      List.filter_eq_self.2 hothers, List.nil_append]
  have htaken : ∀ name, (takeSection name (front ++ ss)).1 = (takeSection name ss).1 :=
    fun name => by rw [takeSection_keyless hfront]
  rw [sectionTexts_eq, hnone, hsome, htaken, htaken, htaken, htaken]
  rfl

/-- Texts without content leave no trace. -/
theorem joinSections_append_blank (d : Device) (a b : List Text) {t : Text}
    (ht : trimEnd t = []) : joinSections d (a ++ t :: b) = joinSections d (a ++ b) := by
  simp [joinSections, ht]

theorem key_isSome_of_mem_keyedOf {ls : List Text} {s : Section} (h : s ∈ keyedOf ls) :
    s.key.isSome = true := by
  obtain ⟨key, l, r, hs⟩ := isKeyed_of_mem_keyedOf h
  rw [hs.key_eq]
  rfl

theorem key_isSome_of_mem_mergeSections {added : List (String × List Node)}
    (h : ∀ s ∈ ss, s.key.isSome = true) :
    ∀ s ∈ (mergeSections ss added).1, s.key.isSome = true :=
  forall_mem_mergeSections h fun _ _ _ _ _ hs happend => (Section.append?_key happend).symm ▸ hs

/-- A document by the sections that have keys, and what stands in front of them. -/
theorem assemble_eq_keyed (d : Device) (recipe : Text) (f : Fragments) (options : Options) :
    assemble d recipe f options =
      let filled := fill (d.project.userText.inject (normalize recipe)) f
      let merged := mergeSections (keyedOf (lines filled.text))
        (filled.existing ++ f.trailing.filter fun s => hasSection filled.text s.1.toList)
      (joinSections d (headTexts d options (leadOf (lines filled.text)) ++
          bodyTexts d options filled.text merged.1
            (filled.left ++ f.trailing.filter fun s => !hasSection filled.text s.1.toList)),
        filled.diagnostics ++ merged.2) := by
  rw [assemble_eq_filled]
  dsimp only
  generalize fill _ f = filled
  generalize filled.existing ++ _ = entries
  generalize filled.left ++ _ = more
  have hsome : ∀ s ∈ (mergeSections (keyedOf (lines filled.text)) entries).1, s.key.isSome = true :=
    key_isSome_of_mem_mergeSections fun s => key_isSome_of_mem_keyedOf
  rw [Section.split, ofLines_eq]
  by_cases hlead : leadOf (lines filled.text) = []
  · rw [if_pos hlead, List.nil_append, hlead]
    have hnil : ∀ s ∈ ([] : List Section), s.key = none := by simp
    have htexts := sectionTexts_keyless d options filled.text more hnil hsome
    rw [List.nil_append, List.map_nil, List.append_nil] at htexts
    rw [htexts, headTexts, List.append_assoc, List.singleton_append,
      joinSections_append_blank d _ _ rfl]
  · have hkeyless : ∀ s ∈ [(⟨none, leadOf (lines filled.text)⟩ : Section)], s.key = none := by
      simp
    rw [if_neg hlead, mergeSections_keyless hkeyless]
    dsimp only
    rw [sectionTexts_keyless d options filled.text more hkeyless hsome]
    rfl

/-! ## Related sections -/

variable {R : Section → Section → Prop} {ss' : List Section}

section

variable (hkey : ∀ s s', R s s' → s'.key = s.key)

include hkey

theorem rel_takeSection (h : List.Forall₂ R ss ss') (name : String) :
    Option.Rel R (takeSection name ss).1 (takeSection name ss').1 ∧
      List.Forall₂ R (takeSection name ss).2 (takeSection name ss').2 := by
  induction h with
  | nil => exact ⟨.none, .nil⟩
  | @cons s s' ss ss' hs hrest ih =>
    by_cases hname : s.key = some name.toList
    · rw [takeSection_cons_self hname, takeSection_cons_self ((hkey s s' hs).trans hname)]
      exact ⟨.some hs, hrest⟩
    · have hname' : s'.key ≠ some name.toList := fun heq => hname ((hkey s s' hs).symm.trans heq)
      rw [takeSection_cons_of_ne hname, takeSection_cons_of_ne hname']
      exact ⟨ih.1, .cons hs ih.2⟩

theorem forall₂_others (h : List.Forall₂ R ss ss') : List.Forall₂ R (others ss) (others ss') := by
  have hstep : ∀ {ss ss'} name, List.Forall₂ R ss ss' →
      List.Forall₂ R (takeSection name ss).2 (takeSection name ss').2 := fun name h =>
    (rel_takeSection hkey h name).2
  exact hstep "ota" (hstep "wifi" (hstep "api" (hstep "esphome" h)))

variable (happend : ∀ s s' entries, R s s' → s.key.isSome = true →
  Option.Rel R (s.append? entries) (s'.append? entries))

include happend

theorem forall₂_mergeSection (h : List.Forall₂ R ss ss') (name : String) (entries : List Node) :
    List.Forall₂ R (mergeSection ss name entries).1 (mergeSection ss' name entries).1 ∧
      (mergeSection ss' name entries).2 = (mergeSection ss name entries).2 := by
  induction h with
  | nil => exact ⟨.nil, rfl⟩
  | @cons s s' ss ss' hs hrest ih =>
    by_cases hname : s.key = some name.toList
    · have hname' : s'.key = some name.toList := (hkey s s' hs).trans hname
      rw [mergeSection_cons_self hname, mergeSection_cons_self hname', refused, refused]
      have hrel := happend s s' entries hs (by rw [hname]; rfl)
      generalize s.append? entries = u at hrel
      generalize s'.append? entries = u' at hrel
      cases hrel with
      | none => exact ⟨.cons hs hrest, rfl⟩
      | some hu => exact ⟨.cons hu hrest, rfl⟩
    · have hname' : s'.key ≠ some name.toList := fun heq => hname ((hkey s s' hs).symm.trans heq)
      rw [mergeSection_cons_of_ne hname, mergeSection_cons_of_ne hname']
      exact ⟨.cons hs ih.1, ih.2⟩

/-- Related sections take the same entries and report the same. -/
theorem forall₂_mergeSections (h : List.Forall₂ R ss ss') (added : List (String × List Node)) :
    List.Forall₂ R (mergeSections ss added).1 (mergeSections ss' added).1 ∧
      (mergeSections ss' added).2 = (mergeSections ss added).2 := by
  induction added generalizing ss ss' with
  | nil => exact ⟨h, rfl⟩
  | cons e added ih =>
    obtain ⟨hstep, hfound⟩ := forall₂_mergeSection hkey happend h e.1 e.2
    obtain ⟨hrest, hmore⟩ := ih hstep
    rw [mergeSections_cons, mergeSections_cons]
    exact ⟨hrest, by rw [hfound, hmore]⟩

end

/-- Related sections are written as related texts, if the sections of the identity are. -/
theorem forall₂_bodyTexts {T : Text → Text → Prop} (hkey : ∀ s s', R s s' → s'.key = s.key)
    (hrefl : ∀ t, T t t) (htext : ∀ s s', R s s' → T s.text s'.text) {recipe recipe' : Text}
    (options : Options) (added : List (String × List Node)) (h : List.Forall₂ R ss ss')
    (hesphome : T (esphomeSection d.nodeName.toList recipe (takeSection "esphome" ss).1)
      (esphomeSection d.nodeName.toList recipe' (takeSection "esphome" ss').1))
    (hapi : T (apiSection (d.key?.map String.toList) (takeSection "api" ss).1)
      (apiSection (d.key?.map String.toList) (takeSection "api" ss').1)) :
    List.Forall₂ T (bodyTexts d options recipe ss added)
      (bodyTexts d options recipe' ss' added) := by
  have hnetwork : ∀ name default,
      List.Forall₂ T (networkTexts options default (takeSection name ss).1)
        (networkTexts options default (takeSection name ss').1) := by
    intro name default
    have hrel := (rel_takeSection hkey h name).1
    generalize (takeSection name ss).1 = found at hrel
    generalize (takeSection name ss').1 = found' at hrel
    cases hrel with
    | none => exact List.forall₂_same.2 fun t _ => hrefl t
    | some hs => exact .cons (htext _ _ hs) .nil
  refine .cons hesphome (.cons hapi ?_)
  refine List.rel_append (hnetwork "wifi" defaultWifi) ?_
  refine List.rel_append (hnetwork "ota" defaultOta) (List.rel_append ?_ ?_)
  · rw [List.forall₂_map_left_iff, List.forall₂_map_right_iff]
    exact (forall₂_others hkey h).imp htext
  · exact List.forall₂_same.2 fun t _ => hrefl t

end TouchPanel.Document
