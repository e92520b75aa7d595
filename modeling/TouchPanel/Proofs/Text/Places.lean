import Mathlib.Data.List.Infix
import TouchPanel.Text.Search

/-!
# Places of a word

A word stands at each suffix of a text that begins with it. Counting from left to
right without overlap finds every place of a word whose first character does not
recur in it, and the places of a word without a newline can be counted line by line.
-/

namespace TouchPanel.Text

/-- The number of places at which `word` stands in a text. -/
def places (word t : Text) : Nat := t.tails.countP (startsWith word)

theorem startsWith_iff_isPrefix {word t : Text} : startsWith word t = true ↔ word <+: t := by
  rw [startsWith_iff]
  exact exists_congr fun rest => eq_comm

theorem occurs_iff_infix {word t : Text} : occurs word t = true ↔ word <:+: t := by
  rw [occurs_iff]
  exact exists_congr fun front => exists_congr fun rest => eq_comm

theorem places_nil {word : Text} (h : word ≠ []) : places word [] = 0 := by
  have hs : startsWith word [] = false := by
    rw [Bool.eq_false_iff, Ne, startsWith_iff_isPrefix, List.prefix_nil]
    exact h
  simp [places, hs]

theorem places_cons (word : Text) (c : Char) (r : Text) :
    places word (c :: r) = places word r + if startsWith word (c :: r) then 1 else 0 := by
  rw [places, List.tails_cons, List.countP_cons, places]

theorem places_pos_iff {word t : Text} (h : word ≠ []) :
    0 < places word t ↔ word <:+: t := by
  induction t with
  | nil => simp [places_nil h, h]
  | cons c r ih =>
    rw [places_cons, List.infix_cons_iff, ← startsWith_iff_isPrefix, ← ih]
    by_cases hs : startsWith word (c :: r) = true
    · simp [hs]
    · simp [hs]

theorem places_eq_zero_iff {word t : Text} (h : word ≠ []) :
    places word t = 0 ↔ ¬ word <:+: t := by
  rw [← places_pos_iff h]
  omega

theorem places_le_append (word front rest : Text) :
    places word rest ≤ places word (front ++ rest) := by
  induction front with
  | nil => exact Nat.le_refl _
  | cons c front ih =>
    rw [List.cons_append, places_cons]
    omega

/-- A word that stands at two different places is counted twice. -/
theorem two_le_places {word front rest front' rest' : Text} (hw : word ≠ [])
    (h : front ++ word ++ rest = front' ++ word ++ rest')
    (hlt : front.length < front'.length) :
    2 ≤ places word (front ++ word ++ rest) := by
  have hpre : front <+: front' := by
    have hshort : front <+: front ++ word ++ rest := ⟨word ++ rest, by simp⟩
    have hlong : front' <+: front ++ word ++ rest := ⟨word ++ rest', by simp [h]⟩
    exact List.prefix_of_prefix_length_le hshort hlong hlt.le
  obtain ⟨gap, rfl⟩ := hpre
  obtain ⟨c, gap, rfl⟩ : ∃ c g, gap = c :: g := by
    cases gap with
    | nil => simp at hlt
    | cons c g => exact ⟨c, g, rfl⟩
  -- the first place begins the text after `front`, the second lies behind its first character
  have htail : word ++ rest = c :: (gap ++ word ++ rest') := by simpa using h
  have hfirst : startsWith word (c :: (gap ++ word ++ rest')) = true := by
    rw [startsWith_iff_isPrefix, ← htail]
    exact List.prefix_append _ _
  have hsecond : 0 < places word (gap ++ word ++ rest') := by
    rw [places_pos_iff hw]
    exact ⟨gap, rest', rfl⟩
  calc 2 ≤ places word (c :: (gap ++ word ++ rest')) := by
        rw [places_cons, hfirst, if_pos rfl]
        omega
    _ = places word (word ++ rest) := by rw [htail]
    _ ≤ places word (front ++ (word ++ rest)) := places_le_append word front _
    _ = places word (front ++ word ++ rest) := by rw [List.append_assoc]

/-- A word with only one place stands there. -/
theorem front_unique {word t front rest front' rest' : Text} (hw : word ≠ [])
    (hone : places word t ≤ 1) (h : t = front ++ word ++ rest)
    (h' : t = front' ++ word ++ rest') : front = front' ∧ rest = rest' := by
  have hlen : front.length = front'.length := by
    rcases Nat.lt_trichotomy front.length front'.length with hlt | heq | hgt
    · have := two_le_places hw (h ▸ h') hlt
      rw [← h] at this
      omega
    · exact heq
    · have := two_le_places hw (h' ▸ h) hgt
      rw [← h'] at this
      omega
  have heq : front ++ (word ++ rest) = front' ++ (word ++ rest') := by
    rw [← List.append_assoc, ← List.append_assoc, ← h, ← h']
  obtain ⟨hfront, hrest⟩ := List.append_inj heq hlen
  exact ⟨hfront, List.append_cancel_left hrest⟩

/-! ## Counting without overlap -/

/-- Where the first character of a word does not occur, the word does not begin. -/
theorem places_append_of_not_mem {c : Char} {word front : Text} (h : c ∉ front) (rest : Text) :
    places (c :: word) (front ++ rest) = places (c :: word) rest := by
  induction front with
  | nil => rfl
  | cons d front ih =>
    obtain ⟨hd, hfront⟩ := List.ne_and_not_mem_of_not_mem_cons h
    have hs : startsWith (c :: word) (d :: (front ++ rest)) = false := by
      simp [startsWith, after?, hd]
    rw [List.cons_append, places_cons, hs, ih hfront]
    simp

theorem length_consHead (c : Char) {l : List Text} (h : l ≠ []) :
    (consHead c l).length = l.length := by
  cases l with
  | nil => exact absurd rfl h
  | cons p ps => rfl

/-- The pieces that `cutFrom` makes are one more than the places behind what it skips. -/
theorem length_cutFrom {c : Char} {word : Text} (hc : c ∉ word) (k : Nat) (t : Text) :
    (cutFrom (c :: word) k t).length = places (c :: word) (t.drop k) + 1 := by
  induction t generalizing k with
  | nil => simp [cutFrom, places_nil]
  | cons d r ih =>
    cases k with
    | succ k => exact ih k
    | zero =>
      rw [cutFrom, List.drop_zero, places_cons]
      split
      · next hs =>
        obtain ⟨rest, hrest⟩ := startsWith_iff.1 hs
        obtain ⟨rfl, rfl⟩ : d = c ∧ r = word ++ rest := by simpa using hrest
        have hskip : places (d :: word) (word ++ rest) = places (d :: word) rest :=
          places_append_of_not_mem hc rest
        simp [ih, hskip]
      · next hs =>
        have hne : cutFrom (c :: word) 0 r ≠ [] := by
          intro h
          simpa [h] using ih 0
        simp [length_consHead d hne, ih]

/-- Occurrences of such a word do not overlap, so that counting them from left to right
counts its places. -/
theorem count_eq_places {c : Char} {word : Text} (hc : c ∉ word) (t : Text) :
    count (c :: word) t = places (c :: word) t := by
  rw [count, cut, length_cutFrom hc]
  rfl

end TouchPanel.Text
