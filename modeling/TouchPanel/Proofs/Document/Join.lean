import TouchPanel.Proofs.Document.Identity

/-!
# Joining sections to a document

The lines of a document are the lines of its sections with an empty line between each two.
The name and the key of the device are put in line by line, and no key changes by that.
-/

namespace TouchPanel.Document

open Text Recipe

/-! ## Name and key of the device -/

theorem isQuoting_name (value : Text) : IsQuoting deviceNamePlaceholder (quote value) :=
  ⟨by decide, List.all_eq_true.1 (by decide), _, rfl⟩

theorem isQuoting_key (value : Text) : IsQuoting apiKeyPlaceholder (quote value) :=
  ⟨by decide, List.all_eq_true.1 (by decide), _, rfl⟩

theorem substitute_nil (d : Device) : substitute d [] = [] := by
  unfold substitute
  cases d.key? <;> rfl

theorem splitOn_substitute (d : Device) (t : Text) :
    (substitute d t).splitOn '\n' = (t.splitOn '\n').map (substitute d) := by
  unfold substitute
  cases d.key? with
  | none => exact splitOn_replace (by decide) (by decide) (newline_not_mem_quote _) t
  | some key =>
    dsimp only
    rw [splitOn_replace (by decide) (by decide) (newline_not_mem_quote _),
      splitOn_replace (by decide) (by decide) (newline_not_mem_quote _), List.map_map]
    rfl

/-- Neither placeholder stands in a key. -/
def IsPlain (key : Text) : Prop :=
  ¬ deviceNamePlaceholder <:+: key ∧ ¬ apiKeyPlaceholder <:+: key

theorem topLevelKey?_substitute (d : Device) {l : Text}
    (hl : ∀ key, topLevelKey? l = some key → IsPlain key) :
    topLevelKey? (substitute d l) = topLevelKey? l := by
  have hname := (isQuoting_name d.nodeName.toList).topLevelKey?_replace fun key hkey =>
    (hl key hkey).1
  unfold substitute
  cases d.key? with
  | none => exact hname
  | some value =>
    refine Eq.trans ((isQuoting_key value.toList).topLevelKey?_replace fun key hkey => ?_) hname
    exact (hl key (hname ▸ hkey)).2

/-- A line as it stands in the document. -/
def written (d : Device) (l : Text) : Text := bare (substitute d l)

theorem substitute_append_returns (d : Device) (l : Text) {b : Text} (hb : ∀ c ∈ b, c = '\r') :
    substitute d (l ++ b) = substitute d l ++ b := by
  have hname : ∀ fill l, replace deviceNamePlaceholder fill (l ++ b) =
      replace deviceNamePlaceholder fill l ++ b := fun _ _ =>
    replace_append_returns (by decide) (by decide) hb _
  have hkey : ∀ fill l, replace apiKeyPlaceholder fill (l ++ b) =
      replace apiKeyPlaceholder fill l ++ b := fun _ _ =>
    replace_append_returns (by decide) (by decide) hb _
  unfold substitute
  cases d.key? with
  | none => exact hname _ l
  | some key =>
    dsimp only
    rw [hname, hkey]

theorem written_bare (d : Device) (l : Text) : written d (bare l) = written d l := by
  obtain ⟨b, hb, hl⟩ := exists_eq_bare_append_returns l
  conv_rhs => rw [hl, written, substitute_append_returns d _ hb, bare_append_returns _ hb]
  rfl

theorem map_written_bare (d : Device) (ls : List Text) :
    (ls.map bare).map (written d) = ls.map (written d) := by
  rw [List.map_map]
  exact List.map_congr_left fun l _ => written_bare d l

theorem topLevelKey?_written (d : Device) {l : Text}
    (hl : ∀ key, topLevelKey? l = some key → IsPlain key) :
    topLevelKey? (written d l) = topLevelKey? l := by
  rw [written, topLevelKey?_bare, topLevelKey?_substitute d hl]

/-! ## Lines of a document -/

/-- Blocks of lines with an empty line between each two. -/
def spaced (blocks : List (List Text)) : List Text := [[]].intercalate blocks

theorem spaced_cons {block : List Text} {blocks : List (List Text)} (h : blocks ≠ []) :
    spaced (block :: blocks) = block ++ [] :: spaced blocks := by
  obtain ⟨b, bs, rfl⟩ := List.exists_cons_of_ne_nil h
  rw [spaced, List.intercalate_cons_cons, List.append_assoc]
  rfl

theorem splitOn_joinWith {ts : List Text} (h : ts ≠ []) :
    (joinWith ['\n', '\n'] ts).splitOn '\n' = spaced (ts.map (·.splitOn '\n')) := by
  induction ts with
  | nil => exact absurd rfl h
  | cons t ts ih =>
    cases ts with
    | nil => exact List.intercalate_singleton.symm
    | cons u ts =>
      rw [joinWith, List.append_assoc, List.cons_append, List.cons_append, List.nil_append,
        splitOn_append_newline, ← List.nil_append ('\n' :: _), splitOn_append_newline,
        ih (List.cons_ne_nil u ts)]
      conv_rhs => rw [List.map_cons, spaced_cons (by simp)]
      rfl

theorem bareLines_joinSections (d : Device) {texts : List Text}
    (h : (texts.map trimEnd).filter (!·.isEmpty) ≠ []) :
    bareLines (joinSections d texts) =
      (spaced (((texts.map trimEnd).filter (!·.isEmpty)).map (·.splitOn '\n'))).map
        (written d) := by
  rw [joinSections, bareLines, map_bare_lines, splitOn_substitute, splitOn_joinWith h,
    List.map_map]
  rfl

/-! ## Sections of a document -/

theorem mem_tidyEnd {ls : List Text} {x : Text} (h : x ∈ tidyEnd ls) :
    ∃ y ∈ ls, x = y ∨ x = trimEnd y := by
  induction ls with
  | nil => cases h
  | cons l r ih =>
    rw [tidyEnd] at h
    split at h
    · split at h
      · cases h
      · exact ⟨l, List.mem_cons_self, Or.inr (List.mem_singleton.1 h)⟩
    · rcases List.mem_cons.1 h with rfl | h
      · exact ⟨x, List.mem_cons_self, Or.inl rfl⟩
      · obtain ⟨y, hy, hxy⟩ := ih h
        exact ⟨y, List.mem_cons_of_mem l hy, hxy⟩

theorem newline_not_mem_tidyEnd {ls : List Text} (h : ∀ l ∈ ls, '\n' ∉ l) :
    ∀ l ∈ tidyEnd ls, '\n' ∉ l := by
  intro l hl
  obtain ⟨y, hy, rfl | rfl⟩ := mem_tidyEnd hl
  · exact h l hy
  · exact fun hmem => h y hy ((trimEnd_isPrefix y).subset hmem)

variable {s : Section} {key l : Text} {r : List Text}

/-- A section without the blanks at its end. -/
def tidied (s : Section) : Section := { s with lines := tidyEnd s.lines }

theorem isKeyed_tidied (h : s.IsKeyed key l r) : ∃ l' r', (tidied s).IsKeyed key l' r' := by
  have hnot : allBlank l = false := by
    rw [← Bool.not_eq_true]
    intro hblank
    have := h.head
    rw [topLevelKey?_of_allBlank hblank] at this
    cases this
  have htail : ∀ x ∈ tidyEnd r, isInner x = true := by
    intro x hx
    obtain ⟨y, hy, rfl | rfl⟩ := mem_tidyEnd hx
    · exact h.tail x hy
    · rw [isInner, topLevelKey?_trimEnd]
      exact h.tail y hy
  have hlines : (tidied s).lines = tidyEnd (l :: r) := congrArg tidyEnd h.lines_eq
  by_cases hblank : r.all allBlank = true
  · refine ⟨trimEnd l, [], h.key_eq, ?_, (topLevelKey?_trimEnd l).trans h.head, by simp⟩
    rw [hlines, tidyEnd, if_pos hblank, if_neg (by simp [hnot])]
  · refine ⟨l, tidyEnd r, h.key_eq, ?_, h.head, htail⟩
    rw [hlines, tidyEnd, if_neg hblank]

theorem keyedOf_lines (h : s.IsKeyed key l r) (b : List Text) :
    keyedOf (s.lines ++ b) = { s with lines := s.lines ++ leadOf b } :: keyedOf b := by
  rw [h.lines_eq, keyedOf_block h.head h.tail, h.key_eq]

theorem leadOf_spaced (h : s.IsKeyed key l r) (blocks : List (List Text)) :
    leadOf (spaced (s.lines :: blocks)) = [] := by
  by_cases hnil : blocks = []
  · rw [hnil, spaced, List.intercalate_singleton, h.lines_eq]
    exact leadOf_cons_key h.head r
  · rw [spaced_cons hnil, h.lines_eq]
    exact leadOf_cons_key h.head _

/-- A section that may be followed by empty lines. -/
def IsPadded (s s' : Section) : Prop :=
  s'.key = s.key ∧ ∃ n, s'.lines = s.lines ++ List.replicate n []

/-- The sections of a text that consists of them. -/
theorem keyedOf_spaced {ss : List Section} (h : ∀ s ∈ ss, ∃ key l r, s.IsKeyed key l r) :
    List.Forall₂ IsPadded ss (keyedOf (spaced (ss.map (·.lines)))) := by
  induction ss with
  | nil => exact .nil
  | cons s ss ih =>
    obtain ⟨⟨key, l, r, hs⟩, hss⟩ := List.forall_mem_cons.1 h
    cases ss with
    | nil =>
      have hone := keyedOf_lines hs []
      rw [List.append_nil] at hone
      rw [List.map_cons, List.map_nil, spaced, List.intercalate_singleton, hone]
      exact .cons ⟨rfl, 0, rfl⟩ .nil
    | cons u ss =>
      obtain ⟨keyu, lu, ru, hu⟩ := hss u List.mem_cons_self
      rw [List.map_cons, spaced_cons (by simp), keyedOf_lines hs, leadOf_cons_inner rfl,
        keyedOf_cons_inner rfl, List.map_cons, leadOf_spaced hu]
      exact .cons ⟨rfl, 1, rfl⟩ (ih hss)

/-- The blocks in front of others, each with the empty line behind it. -/
theorem spaced_append {front blocks : List (List Text)} (hblocks : blocks ≠ []) :
    spaced (front ++ blocks) = front.flatMap (· ++ [[]]) ++ spaced blocks := by
  induction front with
  | nil => rfl
  | cons b front ih =>
    rw [List.cons_append, spaced_cons (by simp [hblocks]), ih, List.flatMap_cons]
    simp

theorem Writes.splitOn {t : Text} (h : Writes t s) :
    trimEnd t ≠ [] ∧ (trimEnd t).splitOn '\n' = (tidied s).lines := by
  obtain ⟨key, l, r, hs⟩ := h.keyed
  obtain ⟨l', r', htidied⟩ := isKeyed_tidied hs
  have hlines : tidyEnd s.lines = l' :: r' := htidied.lines_eq
  have hsplit : (trimEnd t).splitOn '\n' = tidyEnd s.lines := by
    rw [h.text_eq]
    exact splitOn_joinLines (newline_not_mem_tidyEnd h.free) (by simp [hlines])
  refine ⟨fun hnil => ?_, hsplit⟩
  rw [hnil, hlines] at hsplit
  have hhead := htidied.head
  rw [← (List.cons.inj hsplit).1] at hhead
  cases hhead

/-- A section of a document: the lines of a part without the blanks at its end, and empty
lines. -/
def IsWritten (d : Device) (s s' : Section) : Prop :=
  s'.key = s.key ∧
    ∃ n, s'.lines = (tidyEnd s.lines).map (written d) ++ List.replicate n []

theorem IsWritten.bare {d : Device} {s' : Section} (h : IsWritten d s s') :
    IsWritten d s.bare s' := by
  obtain ⟨hkey, n, hlines⟩ := h
  refine ⟨hkey, n, ?_⟩
  rw [hlines, Section.bare, tidyEnd_bare, map_written_bare]

/-- The lines of the texts that are not blank, without the blanks at their ends. -/
def blocksOf (texts : List Text) : List (List Text) :=
  ((texts.map trimEnd).filter (!·.isEmpty)).map (·.splitOn '\n')

theorem blocksOf_append (a b : List Text) : blocksOf (a ++ b) = blocksOf a ++ blocksOf b := by
  rw [blocksOf, List.map_append, List.filter_append, List.map_append]
  rfl

theorem exists_of_mem_blocksOf {texts : List Text} {b : List Text} (h : b ∈ blocksOf texts) :
    ∃ t ∈ texts, b = (trimEnd t).splitOn '\n' := by
  obtain ⟨u, hu, rfl⟩ := List.mem_map.1 h
  obtain ⟨t, ht, rfl⟩ := List.mem_map.1 (List.mem_of_mem_filter hu)
  exact ⟨t, ht, rfl⟩

theorem Writes.blocksOf_cons {t : Text} (h : Writes t s) (texts : List Text) :
    blocksOf (t :: texts) = tidyEnd s.lines :: blocksOf texts := by
  obtain ⟨hne, hsplit⟩ := h.splitOn
  rw [blocksOf, List.map_cons, List.filter_cons_of_pos (by simpa using hne), List.map_cons, hsplit]
  rfl

/-- A section of a document behind other texts, whatever stands in these. -/
theorem exists_keyedOf_joinSections (d : Device) (front back : List Text) {t : Text} {s : Section}
    (ht : Writes t s) (hkey : ∀ key ∈ s.key, IsPlain key) :
    ∃ (lead : List Text) (s' : Section) (post : List Section) (more : List Text),
      keyedOf (bareLines (joinSections d (front ++ t :: back))) =
        keyedOf (lead.map (written d)) ++ s' :: post ∧
      s'.key = s.key ∧ s'.lines = (tidyEnd s.lines).map (written d) ++ more ∧
      ∀ l ∈ lead, l = [] ∨ ∃ u ∈ front, l ∈ (trimEnd u).splitOn '\n' := by
  obtain ⟨key, l, r, hs⟩ := ht.keyed
  obtain ⟨l', r', htidied⟩ := isKeyed_tidied hs
  have hlines : tidyEnd s.lines = l' :: r' := htidied.lines_eq
  have hblocks : blocksOf (front ++ t :: back) = blocksOf front ++ (l' :: r') :: blocksOf back := by
    rw [blocksOf_append, ht.blocksOf_cons, hlines]
  obtain ⟨rest, hrest⟩ : ∃ rest, spaced ((l' :: r') :: blocksOf back) = l' :: r' ++ rest := by
    by_cases hback : blocksOf back = []
    · exact ⟨[], by rw [hback, spaced, List.intercalate_singleton, List.append_nil]⟩
    · exact ⟨_, spaced_cons hback⟩
  have hne : blocksOf (front ++ t :: back) ≠ [] := by simp [hblocks]
  have hdocument : bareLines (joinSections d (front ++ t :: back)) =
      ((blocksOf front).flatMap (· ++ [[]])).map (written d) ++
        ((l' :: r').map (written d) ++ rest.map (written d)) := by
    rw [bareLines_joinSections d fun hnil => hne (congrArg _ hnil), ← blocksOf, hblocks,
      spaced_append (List.cons_ne_nil _ _), hrest, List.map_append, List.map_append]
  have hhead : topLevelKey? (written d l') = some key := by
    rw [topLevelKey?_written d fun key' hkey' => ?_, htidied.head]
    rw [htidied.head] at hkey'
    exact Option.some.inj hkey' ▸ hkey key hs.key_eq
  have htail : ∀ x ∈ r'.map (written d), isInner x = true := by
    rw [List.forall_mem_map]
    intro x hx
    have hinner := isInner_iff.1 (htidied.tail x hx)
    rw [isInner_iff, topLevelKey?_written d fun key' hkey' => ?_, hinner]
    rw [hinner] at hkey'
    cases hkey'
  refine ⟨(blocksOf front).flatMap (· ++ [[]]),
    ⟨some key, (l' :: r').map (written d) ++ leadOf (rest.map (written d))⟩,
    keyedOf (rest.map (written d)), leadOf (rest.map (written d)), ?_, hs.key_eq.symm,
    by rw [hlines], fun x hx => ?_⟩
  · have hlead : leadOf ((l' :: r').map (written d) ++ rest.map (written d)) = [] :=
      leadOf_cons_key hhead _
    rw [hdocument, keyedOf_append hlead, List.map_cons, keyedOf_block hhead htail]
  · obtain ⟨b, hb, hx⟩ := List.mem_flatMap.1 hx
    obtain ⟨u, hu, rfl⟩ := exists_of_mem_blocksOf hb
    rcases List.mem_append.1 hx with hx | hx
    · exact Or.inr ⟨u, hu, hx⟩
    · exact Or.inl (List.mem_singleton.1 hx)

end TouchPanel.Document
