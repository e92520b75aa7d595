import TouchPanel.Proofs.Recipe.Append
import TouchPanel.Document.Assembly

/-!
# Merging entries into sections

Entries go to the first section of their name, and no other section changes. A section
that cannot take them stays as it is, which is reported.
-/

namespace TouchPanel.Document

open Text Recipe

/-- What is reported if the first of the sections of a name does not take entries. -/
def refused (name : String) (entries : List Node) : List Section → List Diagnostic
  | [] => []
  | s :: _ => if (s.append? entries).isSome then [] else [.unmergeableSection name]

variable {ss : List Section} {name : String} {entries : List Node}

theorem key_getD_append? (s : Section) (entries : List Node) :
    ((s.append? entries).getD s).key = s.key := by
  cases h : s.append? entries with
  | none => rfl
  | some s' => exact Section.append?_key h

theorem mergeSection_cons_self {s : Section} (h : s.key = some name.toList) (r : List Section) :
    mergeSection (s :: r) name entries =
      ((s.append? entries).getD s :: r, refused name entries [s]) := by
  rw [mergeSection, if_pos (by simpa using h), refused]
  cases s.append? entries <;> rfl

theorem mergeSection_cons_of_ne {s : Section} (h : s.key ≠ some name.toList) (r : List Section) :
    mergeSection (s :: r) name entries =
      (s :: (mergeSection r name entries).1, (mergeSection r name entries).2) := by
  rw [mergeSection, if_neg (by simpa using h)]

theorem map_key_mergeSection (ss : List Section) (name : String) (entries : List Node) :
    (mergeSection ss name entries).1.map (·.key) = ss.map (·.key) := by
  induction ss with
  | nil => rfl
  | cons s r ih =>
    by_cases h : s.key = some name.toList
    · rw [mergeSection_cons_self h, List.map_cons, key_getD_append?, List.map_cons]
    · rw [mergeSection_cons_of_ne h, List.map_cons, ih, List.map_cons]

theorem filter_mergeSection {p : Option Text → Bool} (hp : p (some name.toList) = false)
    (ss : List Section) :
    (mergeSection ss name entries).1.filter (fun s => p s.key) = ss.filter fun s => p s.key := by
  induction ss with
  | nil => rfl
  | cons s r ih =>
    by_cases h : s.key = some name.toList
    · rw [mergeSection_cons_self h, List.filter_cons_of_neg (by simp [key_getD_append?, h, hp]),
        List.filter_cons_of_neg (by simp [h, hp])]
    · rw [mergeSection_cons_of_ne h, List.filter_cons, List.filter_cons, ih]

theorem forall_mem_mergeSection {P : Section → Prop} (h : ∀ s ∈ ss, P s)
    (happend : ∀ s s', s.key = some name.toList → P s → s.append? entries = some s' → P s') :
    ∀ s ∈ (mergeSection ss name entries).1, P s := by
  induction ss with
  | nil => exact h
  | cons s r ih =>
    obtain ⟨hs, hr⟩ := List.forall_mem_cons.1 h
    by_cases hname : s.key = some name.toList
    · rw [mergeSection_cons_self hname]
      refine List.forall_mem_cons.2 ⟨?_, hr⟩
      cases hs' : s.append? entries with
      | none => exact hs
      | some s' => exact happend s s' hname hs hs'
    · rw [mergeSection_cons_of_ne hname]
      exact List.forall_mem_cons.2 ⟨hs, ih hr⟩

/-! ## Several names -/

variable {added : List (String × List Node)}

theorem mergeSections_cons (ss : List Section) (e : String × List Node)
    (added : List (String × List Node)) :
    mergeSections ss (e :: added) =
      ((mergeSections (mergeSection ss e.1 e.2).1 added).1,
        (mergeSection ss e.1 e.2).2 ++ (mergeSections (mergeSection ss e.1 e.2).1 added).2) := by
  have hstep : ∀ (ss : List Section) (added : List (String × List Node)),
      mergeSections ss added = added.foldl (fun s e =>
        ((mergeSection s.1 e.1 e.2).1, s.2 ++ (mergeSection s.1 e.1 e.2).2)) (ss, []) :=
    fun _ _ => rfl
  have hfold : ∀ (added : List (String × List Node)) (ss : List Section) (found : List Diagnostic),
      added.foldl (fun s e =>
        ((mergeSection s.1 e.1 e.2).1, s.2 ++ (mergeSection s.1 e.1 e.2).2)) (ss, found) =
      ((mergeSections ss added).1, found ++ (mergeSections ss added).2) := by
    intro added
    induction added with
    | nil => intro ss found; simp [mergeSections]
    | cons e added ih =>
      intro ss found
      rw [hstep, List.foldl_cons, List.foldl_cons, ih, ih]
      simp
  rw [hstep, List.foldl_cons, hfold]
  rfl

theorem mergeSections_append (ss : List Section) (a b : List (String × List Node)) :
    mergeSections ss (a ++ b) =
      ((mergeSections (mergeSections ss a).1 b).1,
        (mergeSections ss a).2 ++ (mergeSections (mergeSections ss a).1 b).2) := by
  induction a generalizing ss with
  | nil => rfl
  | cons e a ih =>
    rw [List.cons_append, mergeSections_cons, ih, mergeSections_cons, List.append_assoc]

theorem map_key_mergeSections (ss : List Section) (added : List (String × List Node)) :
    (mergeSections ss added).1.map (·.key) = ss.map (·.key) := by
  induction added generalizing ss with
  | nil => rfl
  | cons e added ih => rw [mergeSections_cons, ih, map_key_mergeSection]

theorem filter_mergeSections {p : Option Text → Bool}
    (hp : ∀ e ∈ added, p (some e.1.toList) = false) (ss : List Section) :
    (mergeSections ss added).1.filter (fun s => p s.key) = ss.filter fun s => p s.key := by
  induction added generalizing ss with
  | nil => rfl
  | cons e added ih =>
    obtain ⟨he, hadded⟩ := List.forall_mem_cons.1 hp
    rw [mergeSections_cons, ih hadded, filter_mergeSection he]

theorem named_mergeSections_of_not_mem {key : Text} (hkey : key ∉ added.map (·.1.toList))
    (ss : List Section) : named key (mergeSections ss added).1 = named key ss := by
  refine filter_mergeSections (p := (· == some key)) (fun e he => ?_) ss
  rw [← Bool.not_eq_true, beq_iff_eq, Option.some_inj]
  exact fun heq => hkey (heq ▸ List.mem_map_of_mem he)

theorem forall_mem_mergeSections {P : Section → Prop} (h : ∀ s ∈ ss, P s)
    (happend : ∀ e ∈ added, ∀ s s', s.key = some e.1.toList → P s → s.append? e.2 = some s' →
      P s') :
    ∀ s ∈ (mergeSections ss added).1, P s := by
  induction added generalizing ss with
  | nil => exact h
  | cons e added ih =>
    obtain ⟨he, hadded⟩ := List.forall_mem_cons.1 happend
    rw [mergeSections_cons]
    exact ih (forall_mem_mergeSection h he) hadded

end TouchPanel.Document
