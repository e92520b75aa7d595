import Mathlib.Data.List.DropRight
import TouchPanel.Proofs.Text.Places
import TouchPanel.Text.Lines

/-!
# Cutting a text into lines

Where a text is cut after a newline, the segments of the two parts are the segments
of the whole, and so are the places of a word that has no newline. A word without a
newline stands inside one segment, which is its line up to blanks at the end.
-/

namespace TouchPanel.Text

/-! ## Blanks around a text -/

theorem trimEnd_append_blank (t : Text) {b : Text} (hb : allBlank b = true) :
    trimEnd (t ++ b) = trimEnd t := by
  have hall : ∀ c ∈ b.reverse, isBlank c = true := by
    simpa [allBlank] using hb
  rw [trimEnd, dropEndWhile, List.reverse_append, List.dropWhile_append_of_pos hall]
  rfl

theorem trim_append_blank (t : Text) {b : Text} (hb : allBlank b = true) :
    trim (t ++ b) = trim t := by
  have hstart : trimStart b = [] := by
    rw [trimStart, List.dropWhile_eq_nil_iff]
    simpa [allBlank] using hb
  rw [trim, trim, trimStart, List.dropWhile_append]
  change trimEnd (if (trimStart t).isEmpty then trimStart b else trimStart t ++ b) = _
  split
  · next h => rw [hstart, List.isEmpty_iff.1 h]
  · exact trimEnd_append_blank _ hb

/-- What trimming removes from a text are blanks. -/
theorem exists_eq_append_trim (t : Text) :
    ∃ a b, allBlank a = true ∧ allBlank b = true ∧ t = a ++ trim t ++ b := by
  refine ⟨leadingBlanks t, (trimStart t).rtakeWhile isBlank, ?_, ?_, ?_⟩
  · exact List.all_takeWhile
  · rw [allBlank, List.all_eq_true]
    exact fun c hc => List.mem_rtakeWhile_imp hc
  · have hend : trim t ++ (trimStart t).rtakeWhile isBlank = trimStart t :=
      List.rdropWhile_append_rtakeWhile
    rw [List.append_assoc, hend, leadingBlanks_append_trimStart]

/-! ## Segments -/

/-- A line with its newline. -/
def IsLine (s : Text) : Prop := ∃ l, '\n' ∉ l ∧ s = l ++ ['\n']

/-- A text that is empty or ends with a newline. -/
def Closed (t : Text) : Prop := ∀ c ∈ t.getLast?, c = '\n'

theorem closed_nil : Closed [] := by
  simp [Closed]

theorem closed_append_newline (t : Text) : Closed (t ++ ['\n']) := by
  simp [Closed]

theorem Closed.append {a b : Text} (ha : Closed a) (hb : Closed b) : Closed (a ++ b) := by
  intro c hc
  rw [List.getLast?_append, Option.mem_def, Option.or_eq_some_iff] at hc
  rcases hc with hc | ⟨-, hc⟩
  · exact hb c hc
  · exact ha c hc

theorem Closed.of_cons {c : Char} {t : Text} (h : Closed (c :: t)) : Closed t := by
  cases t with
  | nil => exact closed_nil
  | cons d t => exact fun e he => h e (by rwa [List.getLast?_cons_cons])

theorem IsLine.closed {s : Text} (h : IsLine s) : Closed s := by
  obtain ⟨l, -, rfl⟩ := h
  exact closed_append_newline l

theorem closed_flatten {ls : List Text} (h : ∀ s ∈ ls, IsLine s) : Closed ls.flatten := by
  induction ls with
  | nil => exact closed_nil
  | cons s ls ih =>
    rw [List.flatten_cons]
    exact (h s List.mem_cons_self).closed.append (ih fun x hx => h x (List.mem_cons_of_mem _ hx))

theorem segments_append {a : Text} (h : Closed a) (b : Text) :
    segments (a ++ b) = segments a ++ segments b := by
  induction a with
  | nil => rfl
  | cons c a ih =>
    have hrest := ih h.of_cons
    by_cases hc : c = '\n'
    · simp [segments, hc, hrest]
    · have ha : a ≠ [] := by
        rintro rfl
        exact hc (h c (by simp))
      obtain ⟨s, ss, hs⟩ := List.exists_cons_of_ne_nil (segments_ne_nil ha)
      simp [segments, hc, hrest, hs]

theorem segments_of_not_mem {l : Text} (hl : l ≠ []) (h : '\n' ∉ l) : segments l = [l] := by
  induction l with
  | nil => exact absurd rfl hl
  | cons c l ih =>
    obtain ⟨hc, hrest⟩ := List.ne_and_not_mem_of_not_mem_cons h
    cases l with
    | nil => simp [segments, Ne.symm hc]
    | cons d l => rw [segments, if_neg (Ne.symm hc), ih (by simp) hrest]

theorem IsLine.segments {s : Text} (h : IsLine s) : segments s = [s] := by
  obtain ⟨l, hl, rfl⟩ := h
  induction l with
  | nil => rfl
  | cons c l ih =>
    obtain ⟨hc, hrest⟩ := List.ne_and_not_mem_of_not_mem_cons hl
    rw [List.cons_append, Text.segments, if_neg (Ne.symm hc), ih hrest]

/-- All segments but the last are lines. -/
theorem isLine_of_segments_eq {t : Text} {xs ys : List Text} (h : segments t = xs ++ ys)
    (hy : ys ≠ []) : ∀ x ∈ xs, IsLine x := by
  induction t generalizing xs with
  | nil => simp_all [segments]
  | cons c t ih =>
    cases xs with
    | nil => simp
    | cons x xs =>
      rw [segments] at h
      split at h
      · next hc =>
        obtain ⟨rfl, hrest⟩ := List.cons.inj h
        exact List.forall_mem_cons.2 ⟨⟨[], by simp, rfl⟩, ih hrest⟩
      · next hc =>
        split at h
        · simp_all
        · next s ss hs =>
          obtain ⟨rfl, hrest⟩ := List.cons.inj h
          have hlines : ∀ x ∈ s :: xs, IsLine x := ih (by rw [hs, hrest]; rfl)
          obtain ⟨⟨l, hl, rfl⟩, hxs⟩ := List.forall_mem_cons.1 hlines
          exact List.forall_mem_cons.2 ⟨⟨c :: l, by simp [Ne.symm hc, hl], rfl⟩, hxs⟩

theorem Closed.isLine_segments {t : Text} (h : Closed t) : ∀ s ∈ segments t, IsLine s :=
  isLine_of_segments_eq (segments_append h ['.']) (by decide)

theorem segments_flatten_append {xs : List Text} (h : ∀ x ∈ xs, IsLine x) (b : Text) :
    segments (xs.flatten ++ b) = xs ++ segments b := by
  induction xs with
  | nil => rfl
  | cons x xs ih =>
    obtain ⟨hx, hxs⟩ := List.forall_mem_cons.1 h
    rw [List.flatten_cons, List.append_assoc, segments_append hx.closed, hx.segments, ih hxs]
    rfl

/-- The segments of a text are the segments of the two parts that they are split into. -/
theorem segments_flatten_of_append {t : Text} {xs ys : List Text} (h : segments t = xs ++ ys) :
    segments xs.flatten = xs ∧ segments ys.flatten = ys := by
  have ht : t = xs.flatten ++ ys.flatten := by
    rw [← List.flatten_append, ← h, flatten_segments]
  by_cases hy : ys = []
  · subst hy
    rw [List.append_nil] at h
    simp only [List.flatten_nil, List.append_nil] at ht
    exact ⟨by rw [← ht, h], rfl⟩
  · have hxs := isLine_of_segments_eq h hy
    have hleft := segments_flatten_append hxs []
    rw [ht, segments_flatten_append hxs] at h
    exact ⟨by simpa [segments] using hleft, List.append_cancel_left h⟩

/-! ## Places of a word without a newline -/

theorem startsWith_append_of_closed {word a : Text} (hn : '\n' ∉ word) (ha : a ≠ [])
    (h : Closed a) (b : Text) : startsWith word (a ++ b) = startsWith word a := by
  rw [Bool.eq_iff_iff, startsWith_iff_isPrefix, startsWith_iff_isPrefix]
  constructor
  · intro hpre
    rcases List.prefix_or_prefix_of_prefix hpre (List.prefix_append a b) with hw | hw
    · exact hw
    · -- the word would reach over the newline at the end of `a`
      have hlast : '\n' ∈ a := by
        have hmem := List.getLast_mem ha
        rwa [h _ (List.getLast?_eq_some_getLast ha)] at hmem
      exact absurd (hw.subset hlast) hn
  · exact fun hpre => hpre.trans (List.prefix_append a b)

theorem places_append_of_closed {word a : Text} (hw : word ≠ []) (hn : '\n' ∉ word)
    (h : Closed a) (b : Text) : places word (a ++ b) = places word a + places word b := by
  induction a with
  | nil => rw [places_nil hw, List.nil_append, Nat.zero_add]
  | cons c a ih =>
    have hs := startsWith_append_of_closed hn (List.cons_ne_nil c a) h b
    rw [List.cons_append] at hs ⊢
    rw [places_cons, places_cons, ih h.of_cons, hs]
    omega

/-- A newline parts the places of a word without a newline. -/
theorem places_append_newline {word : Text} (hw : word ≠ []) (hn : '\n' ∉ word) (a b : Text) :
    places word (a ++ '\n' :: b) = places word a + places word b := by
  have hend : places word (a ++ ['\n']) = places word a := by
    induction a with
    | nil =>
      have hs : startsWith word ['\n'] = false := by
        rw [Bool.eq_false_iff, Ne, startsWith_iff_isPrefix]
        intro hpre
        rcases List.prefix_concat_iff.1 (show word <+: [] ++ ['\n'] from hpre) with rfl | hnil
        · simp at hn
        · exact hw (List.prefix_nil.1 hnil)
      simp [places_cons, hs, places_nil hw]
    | cons c a ih =>
      have hs : startsWith word (c :: a ++ ['\n']) = startsWith word (c :: a) := by
        rw [Bool.eq_iff_iff, startsWith_iff_isPrefix, startsWith_iff_isPrefix,
          List.prefix_concat_iff]
        refine or_iff_right ?_
        rintro rfl
        simp at hn
      rw [List.cons_append] at hs ⊢
      rw [places_cons, places_cons, ih, hs]
  rw [← List.singleton_append, ← List.append_assoc,
    places_append_of_closed hw hn (closed_append_newline a), hend]

/-! ## The line of a word -/

/-- The line on which `word` stands between `front` and `rest`. -/
def lineAround (front word rest : Text) : Text :=
  front.rtakeWhile (· != '\n') ++ word ++ rest.takeWhile (· != '\n')

theorem newline_not_mem_lineAround {front word rest : Text} (hn : '\n' ∉ word) :
    '\n' ∉ lineAround front word rest := by
  intro h
  simp only [lineAround, List.mem_append] at h
  rcases h with (h | h) | h
  · simpa using List.mem_rtakeWhile_imp h
  · exact hn h
  · simpa using List.mem_takeWhile_imp h

theorem closed_rdropWhile (t : Text) : Closed (t.rdropWhile (· != '\n')) := by
  intro c hc
  have hne : t.rdropWhile (· != '\n') ≠ [] := by
    intro h
    simp [h] at hc
  rw [List.getLast?_eq_some_getLast hne, Option.mem_some_iff] at hc
  simpa [← hc] using List.rdropWhile_last_not _ _ hne

/-- A word without a newline stands inside a segment, which is its line up to a newline. -/
theorem exists_segment_around {front word rest : Text} (hw : word ≠ []) (hn : '\n' ∉ word) :
    ∃ s ∈ segments (front ++ word ++ rest),
      word <:+: s ∧ trim s = trim (lineAround front word rest) := by
  have hl : '\n' ∉ lineAround front word rest := newline_not_mem_lineAround hn
  have hne : lineAround front word rest ≠ [] := by simp [lineAround, hw]
  have hword : word <:+: lineAround front word rest := List.infix_append _ _ _
  have hcut : front ++ word ++ rest = front.rdropWhile (· != '\n') ++
      (lineAround front word rest ++ rest.dropWhile (· != '\n')) := by
    have hfront := List.rdropWhile_append_rtakeWhile (p := (· != '\n')) (l := front)
    simp only [lineAround, List.append_assoc, List.takeWhile_append_dropWhile]
    rw [← List.append_assoc (front.rdropWhile _), hfront]
  rw [hcut, segments_append (closed_rdropWhile front)]
  cases hrest : rest.dropWhile (· != '\n') with
  | nil =>
    refine ⟨lineAround front word rest, ?_, hword, rfl⟩
    simp [segments_of_not_mem hne hl]
  | cons c more =>
    have hc : c = '\n' := by
      have := List.head_dropWhile_not (· != '\n') (l := rest) (by simp [hrest])
      simpa [hrest] using this
    have hline : IsLine (lineAround front word rest ++ ['\n']) := ⟨_, hl, rfl⟩
    refine ⟨lineAround front word rest ++ ['\n'], ?_, hword.trans (List.prefix_append _ _).isInfix,
      trim_append_blank _ (by decide)⟩
    rw [hc, ← List.singleton_append, ← List.append_assoc (lineAround front word rest),
      segments_append hline.closed, hline.segments]
    simp

theorem places_segments {word t s : Text} {xs ys : List Text} (hw : word ≠ []) (hn : '\n' ∉ word)
    (h : segments t = xs ++ s :: ys) :
    places word t = places word xs.flatten + places word s + places word ys.flatten := by
  have ht : t = xs.flatten ++ (s ++ ys.flatten) := by
    rw [← List.flatten_cons, ← List.flatten_append, ← h, flatten_segments]
  have hs : places word (s ++ ys.flatten) = places word s + places word ys.flatten := by
    cases ys with
    | nil => simp [places_nil hw]
    | cons y ys =>
      have hsplit : segments t = (xs ++ [s]) ++ (y :: ys) := by simpa using h
      have hlines := isLine_of_segments_eq hsplit (by simp)
      exact places_append_of_closed hw hn (hlines s (by simp)).closed _
  rw [ht, places_append_of_closed hw hn (closed_flatten (isLine_of_segments_eq h (by simp))), hs]
  omega

theorem places_flatten_pos {word s : Text} {xs : List Text} (hw : word ≠ []) (hs : s ∈ xs)
    (h : word <:+: s) : 0 < places word xs.flatten := by
  rw [places_pos_iff hw]
  exact h.trans (List.infix_of_mem_flatten hs)

/-- A word with only one place stands in one segment only. -/
theorem segment_unique {word t s s' : Text} (hw : word ≠ []) (hn : '\n' ∉ word)
    (hone : places word t ≤ 1) (hs : s ∈ segments t) (hs' : s' ∈ segments t)
    (h : word <:+: s) (h' : word <:+: s') : s' = s := by
  obtain ⟨xs, ys, hxy⟩ := List.append_of_mem hs
  have hsum := places_segments hw hn hxy
  have hpos : 0 < places word s := (places_pos_iff hw).2 h
  rw [hxy, List.mem_append, List.mem_cons] at hs'
  rcases hs' with hmem | heq | hmem
  · have := places_flatten_pos hw hmem h'
    omega
  · exact heq
  · have := places_flatten_pos hw hmem h'
    omega

end TouchPanel.Text
