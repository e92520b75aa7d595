import Mathlib.Data.List.Nodup
import TouchPanel.Proofs.Output.Rows
import TouchPanel.Proofs.Recipe.Parts
import TouchPanel.Document.Assembly

/-!
# Entries of generated sections

The entries of a generated section are mappings. Their lines open no section, however far
they are indented, and the last of them is not blank.
-/

namespace TouchPanel

open Text Recipe

/-- Where no two elements have one image, an element is alone with its own. -/
theorem countP_eq_one_of_nodup_map {α β : Type} [DecidableEq β] {f : α → β} {l : List α}
    (h : (l.map f).Nodup) {a : α} (ha : a ∈ l) : l.countP (fun x => f x = f a) = 1 := by
  calc
    l.countP (fun x => f x = f a)
      = (l.map f).count (f a) := by
        rw [List.count, List.countP_map]
        rfl
    _ = 1 := List.count_eq_one_of_mem h (List.mem_map_of_mem ha)

namespace Node

/-- A mapping of which each row is one line and the last row is not blank. -/
structure IsEntry (node : Node) : Prop where
  is_map : ∃ e r, node = .map (e :: r)
  oneLine : OneLine node
  lastClean : LastClean node

/-- The id that an entry declares. -/
def declaredId? : Node → Option String
  | .map entries =>
    match Mapping.get? entries "id" with
    | some (.ident id) => some id
    | _ => none
  | _ => none

/-- The lines of a block list. -/
def entryLines (items : List Node) (n : Nat) : List Text := (listRows items).map (Row.line n)

theorem renderList_eq_unlines (items : List Node) (n : Nat) :
    renderList items n = unlines (entryLines items n) :=
  Row.render_eq_unlines n _

variable {items : List Node} {n : Nat}

theorem newline_not_mem_entryLines (h : ∀ node ∈ items, IsEntry node) :
    ∀ l ∈ entryLines items n, '\n' ∉ l := by
  intro l hl
  obtain ⟨r, hr, rfl⟩ := List.mem_map.1 hl
  rw [listRows_eq_flatMap] at hr
  obtain ⟨node, hnode, hrow⟩ := List.mem_flatMap.1 hr
  exact Row.newline_not_mem_line n ((h node hnode).oneLine.allFree.2 r hrow)

theorem exists_last_entryLines (h : ∀ node ∈ items, IsEntry node) (hne : items ≠ []) :
    ∃ init last, entryLines items n = init ++ [last] ∧ EndsClean last := by
  obtain ⟨front, node, rfl⟩ := (List.eq_nil_or_concat' items).resolve_left hne
  obtain ⟨r, hr, hclean⟩ := (h node (by simp)).lastClean.rows.2
  obtain ⟨rows, hrows⟩ := List.getLast?_eq_some_iff.1 hr
  refine ⟨entryLines front n ++ rows.map (Row.line n), Row.line n r, ?_, ?_⟩
  · rw [entryLines, entryLines, listRows_eq_flatMap, listRows_eq_flatMap, List.flatMap_append,
      List.flatMap_singleton, hrows]
    simp
  · rw [Row.line, if_neg hclean.ne_nil]
    exact hclean.append _

/-- A line of an entry is empty, or it begins with a space or a dash. -/
theorem head?_entryLines (h : ∀ node ∈ items, IsEntry node) :
    ∀ l ∈ entryLines items n, ∀ c ∈ l.head?, c = ' ' ∨ c = '-' := by
  intro l hl c hc
  obtain ⟨r, hr, rfl⟩ := List.mem_map.1 hl
  rw [listRows_eq_flatMap] at hr
  obtain ⟨node, hnode, hrow⟩ := List.mem_flatMap.1 hr
  obtain ⟨e, rest, rfl⟩ := (h node hnode).is_map
  rw [itemRows.eq_def] at hrow
  have hspaces : ∀ k t, 0 < k → (spaces k ++ t).head? = some ' ' := by
    intro k t hk
    obtain ⟨k, rfl⟩ := Nat.exists_eq_succ_of_ne_zero (Nat.ne_of_gt hk)
    rfl
  unfold Row.line at hc
  split at hc
  · cases hc
  · cases hrows : mapRows (e :: rest) with
    | nil =>
      simp [inline?, hrows, Row.asItem] at hrow
    | cons first more =>
      simp only [inline?, hrows, Row.asItem, List.mem_cons, List.mem_map] at hrow
      rcases hrow with rfl | ⟨s, -, rfl⟩
      · by_cases hn : 0 < n
        · rw [hspaces _ _ (by simpa using hn)] at hc
          exact Or.inl (Option.some.inj hc).symm
        · obtain rfl : n = 0 := by omega
          exact Or.inr (Option.some.inj hc).symm
      · rw [hspaces _ _ (by simp only [Row.shift]; omega)] at hc
        exact Or.inl (Option.some.inj hc).symm

theorem isInner_entryLines (h : ∀ node ∈ items, IsEntry node) :
    ∀ l ∈ entryLines items n, isInner l = true := by
  intro l hl
  refine isInner_iff.2 (topLevelKey?_of_head fun c hc => ?_)
  rcases head?_entryLines h l hl c hc with rfl | rfl <;> rfl

end Node

namespace Document

/-- A section that has entries, under a name that can be a key. -/
structure IsGenerated (s : String × List Node) : Prop where
  name_key : s.1.toList.all isKeyChar = true
  name_start : s.1.toList.head?.any isKeyStart = true
  nonempty : s.2 ≠ []
  entries : ∀ node ∈ s.2, node.IsEntry

/-- The lines of a section that is put as a whole. -/
def sectionLines (s : String × List Node) : List Text :=
  (s.1.toList ++ [':']) :: Node.entryLines s.2 2

variable {s : String × List Node} {ss : List (String × List Node)}

theorem IsGenerated.topLevelKey? (h : IsGenerated s) :
    topLevelKey? (s.1.toList ++ [':']) = some s.1.toList :=
  topLevelKey?_key_colon h.name_key h.name_start rfl

theorem IsGenerated.newline_not_mem (h : IsGenerated s) : ∀ l ∈ sectionLines s, '\n' ∉ l :=
  List.forall_mem_cons.2 ⟨newline_not_mem_key_colon h.name_key,
    Node.newline_not_mem_entryLines h.entries⟩

theorem IsGenerated.keyedOf_append (h : IsGenerated s) (b : List Text) :
    keyedOf (sectionLines s ++ b) =
      ⟨some s.1.toList, sectionLines s ++ leadOf b⟩ :: keyedOf b :=
  keyedOf_block h.topLevelKey? (Node.isInner_entryLines h.entries) b

theorem IsGenerated.keysOf (h : IsGenerated s) : keysOf (sectionLines s) = [s.1.toList] := by
  have hinner := keysOf_inner (Node.isInner_entryLines (n := 2) h.entries)
  rw [sectionLines, Recipe.keysOf, List.filterMap_cons_some h.topLevelKey?]
  exact congrArg (s.1.toList :: ·) hinner

theorem IsGenerated.exists_last (h : IsGenerated s) :
    ∃ init last, sectionLines s = init ++ [last] ∧ EndsClean last := by
  obtain ⟨init, last, heq, hclean⟩ := Node.exists_last_entryLines (n := 2) h.entries h.nonempty
  exact ⟨_ :: init, last, by rw [sectionLines, heq, List.cons_append], hclean⟩

/-- A section as text. -/
theorem IsGenerated.sectionText_eq (h : IsGenerated s) :
    sectionText s = joinLines (sectionLines s) := by
  obtain ⟨init, last, heq, hclean⟩ := Node.exists_last_entryLines (n := 2) h.entries h.nonempty
  have hne : Node.entryLines s.2 2 ≠ [] := by simp [heq]
  have htrim : trimEnd (Node.renderList s.2 2) = joinLines (Node.entryLines s.2 2) := by
    rw [Node.renderList_eq_unlines, heq, trimEnd_unlines_concat init hclean]
  rw [sectionText, htrim, sectionLines, joinLines_cons hne, List.append_assoc]
  rfl

/-- Sections as the payload of an insertion point. -/
theorem render_sections (h : ∀ s ∈ ss, IsGenerated s) :
    Mapping.render (ss.map fun s => (s.1, Node.list s.2)) 0 =
      unlines (ss.flatMap sectionLines) := by
  rw [Mapping.render, Row.render_eq_unlines, Node.mapRows_eq_flatMap, List.flatMap_map,
    List.map_flatMap]
  congr 1
  refine List.flatMap_congr fun s hs => ?_
  obtain ⟨node, r, hitems⟩ := List.exists_cons_of_ne_nil (h s hs).nonempty
  have hrows : Node.entryRows s.1.toList (.list s.2) =
      ⟨0, s.1.toList ++ [':']⟩ :: (Node.listRows s.2).map (Row.shift 2) := by
    rw [hitems, Node.entryRows.eq_def]
    rfl
  have hshift : Row.line 0 ∘ Row.shift 2 = Row.line 2 := funext fun r => Row.line_shift 0 2 r
  rw [hrows, List.map_cons, List.map_map, hshift, Row.line, if_neg (by simp)]
  rfl

theorem exists_last_sections (h : ∀ s ∈ ss, IsGenerated s) (hne : ss ≠ []) :
    ∃ init last, ss.flatMap sectionLines = init ++ [last] ∧ EndsClean last := by
  obtain ⟨front, s, rfl⟩ := (List.eq_nil_or_concat' ss).resolve_left hne
  obtain ⟨init, last, heq, hclean⟩ := (h s (by simp)).exists_last
  exact ⟨front.flatMap sectionLines ++ init, last, by simp [heq], hclean⟩

end Document

/-! ## Mappings of different keys -/

theorem Mapping.insert_of_not_mem {m : Mapping} {key : String} (h : key ∉ m.keys) (node : Node) :
    m.insert key node = m ++ [(key, node)] := by
  induction m with
  | nil => rfl
  | cons e r ih =>
    obtain ⟨k, v⟩ := e
    obtain ⟨hk, hr⟩ := List.ne_and_not_mem_of_not_mem_cons h
    have hrest : insert r key node = r ++ [(key, node)] := ih hr
    rw [insert, if_neg (Ne.symm hk), hrest, List.cons_append]

theorem Mapping.ofList_of_nodup {entries : Mapping} (h : entries.keys.Nodup) :
    Mapping.ofList entries = entries := by
  have hfold : ∀ m : Mapping, (m ++ entries).keys.Nodup →
      entries.foldl (fun m e => m.insert e.1 e.2) m = m ++ entries := by
    clear h
    induction entries with
    | nil => simp
    | cons e r ih =>
      intro m hm
      have hsplit : m ++ e :: r = (m ++ [e]) ++ r := by simp
      have hkey : e.1 ∉ m.keys := by
        intro hmem
        rw [keys, List.map_append, List.map_cons] at hm
        exact (List.nodup_append.1 hm).2.2 _ hmem _ List.mem_cons_self rfl
      rw [List.foldl_cons, insert_of_not_mem hkey, hsplit]
      exact ih _ (hsplit ▸ hm)
  exact hfold [] h

end TouchPanel
