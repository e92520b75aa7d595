import TouchPanel.Proofs.Text.Lines
import TouchPanel.Region.Basic

/-!
# Scanning a text for its region

Searching a region compares two ways of finding a marker: counting its places in the
whole text and trimming each segment. `Scan` says what a search must answer in terms
of the places of the markers and the segments they stand in; `find_eq_iff` says that
`find` gives this answer on every text.
-/

namespace TouchPanel.Region

open Text

/-! ## Markers -/

/-- What both markers have in common. -/
structure IsMarker (marker : Text) : Prop where
  ne_nil : marker ≠ []
  newline_not_mem : '\n' ∉ marker
  trim_eq : trim marker = marker
  count_eq : ∀ t, count marker t = places marker t

theorem isMarker_begin : IsMarker beginMarker where
  ne_nil := by decide
  newline_not_mem := by decide
  trim_eq := by decide
  count_eq := count_eq_places (by decide)

theorem isMarker_end : IsMarker endMarker where
  ne_nil := by decide
  newline_not_mem := by decide
  trim_eq := by decide
  count_eq := count_eq_places (by decide)

/-- A text in which neither marker stands. -/
def MarkerFree (t : Text) : Prop := ¬ beginMarker <:+: t ∧ ¬ endMarker <:+: t

instance (t : Text) : Decidable (MarkerFree t) :=
  inferInstanceAs (Decidable (¬ beginMarker <:+: t ∧ ¬ endMarker <:+: t))

theorem markerFree_iff {t : Text} :
    MarkerFree t ↔ places beginMarker t = 0 ∧ places endMarker t = 0 := by
  rw [MarkerFree, places_eq_zero_iff isMarker_begin.ne_nil, places_eq_zero_iff isMarker_end.ne_nil]

theorem MarkerFree.of_infix {s t : Text} (h : MarkerFree t) (hs : s <:+: t) : MarkerFree s :=
  ⟨fun hb => h.1 (hb.trans hs), fun he => h.2 (he.trans hs)⟩

theorem isMarkerLine_iff {marker s : Text} : isMarkerLine marker s = true ↔ trim s = marker :=
  beq_iff_eq

theorem infix_of_isMarkerLine {marker s : Text} (h : isMarkerLine marker s = true) :
    marker <:+: s := by
  obtain ⟨a, b, -, -, hs⟩ := exists_eq_append_trim s
  rw [isMarkerLine_iff.1 h] at hs
  exact ⟨a, b, hs.symm⟩

/-- Whether a segment holds nothing but the marker. -/
def HasLine (marker t : Text) : Prop := ∃ s ∈ segments t, isMarkerLine marker s = true

theorem HasLine.infix {marker t : Text} (h : HasLine marker t) : marker <:+: t := by
  obtain ⟨s, hs, hline⟩ := h
  have hflat := List.infix_of_mem_flatten hs
  rw [flatten_segments] at hflat
  exact (infix_of_isMarkerLine hline).trans hflat

/-! ## Two marker lines -/

/-- The segments of a text that has each of two markers once, both on lines of their own
and `first` above `second`. -/
structure Layout (first second t : Text) where
  front : List Text
  head : Text
  middle : List Text
  foot : Text
  rest : List Text
  segments_eq : segments t = front ++ head :: (middle ++ foot :: rest)
  head_line : isMarkerLine first head = true
  foot_line : isMarkerLine second foot = true
  first_once : places first t = 1
  second_once : places second t = 1

namespace Layout

variable {first second t : Text}

/-- The text cut behind the upper line and before the lower one. -/
def region (l : Layout first second t) : Region :=
  ⟨(l.front ++ [l.head]).flatten, l.middle.flatten, (l.foot :: l.rest).flatten⟩

theorem eq_region (l : Layout first second t) :
    t = l.region.before ++ l.region.body ++ l.region.after := by
  conv_lhs => rw [← flatten_segments t, l.segments_eq]
  simp [region]

theorem segments_upper (l : Layout first second t) :
    segments t = (l.front ++ [l.head]) ++ (l.middle ++ l.foot :: l.rest) := by
  simpa using l.segments_eq

theorem segments_lower (l : Layout first second t) :
    segments t = (l.front ++ l.head :: l.middle) ++ l.foot :: l.rest := by
  simpa using l.segments_eq

end Layout

/-- A segment list in which the marker stands nowhere has no marker line. -/
private theorem isMarkerLine_eq_false {marker : Text} (hm : IsMarker marker) {xs : List Text}
    (h : places marker xs.flatten = 0) : ∀ x ∈ xs, isMarkerLine marker x = false := by
  intro x hx
  rw [Bool.eq_false_iff]
  intro hline
  have := places_flatten_pos hm.ne_nil hx (infix_of_isMarkerLine hline)
  omega

/-- Around the only line of a marker there is no other line of it. -/
theorem isMarkerLine_around {marker t s : Text} (hm : IsMarker marker) {xs ys : List Text}
    (h : segments t = xs ++ s :: ys) (hline : isMarkerLine marker s = true)
    (hone : places marker t ≤ 1) :
    (∀ x ∈ xs, isMarkerLine marker x = false) ∧ ∀ y ∈ ys, isMarkerLine marker y = false := by
  have hsum := places_segments hm.ne_nil hm.newline_not_mem h
  have hpos : 0 < places marker s := (places_pos_iff hm.ne_nil).2 (infix_of_isMarkerLine hline)
  exact ⟨isMarkerLine_eq_false hm (by omega), isMarkerLine_eq_false hm (by omega)⟩

theorem splitBefore_append {α : Type} {p : α → Bool} {xs ys : List α} {y : α}
    (hxs : ∀ x ∈ xs, p x = false) (hy : p y = true) :
    splitBefore p (xs ++ y :: ys) = (xs, y :: ys) := by
  have hall : ∀ x ∈ xs, (!p x) = true := by simpa using hxs
  rw [splitBefore, List.takeWhile_append_of_pos hall, List.dropWhile_append_of_pos hall]
  simp [hy]

theorem splitBefore_eq_self {α : Type} {p : α → Bool} {xs : List α}
    (hxs : ∀ x ∈ xs, p x = false) : splitBefore p xs = (xs, []) := by
  have hall : ∀ x ∈ xs, (!p x) = true := by simpa using hxs
  rw [splitBefore, List.takeWhile_eq_self_iff.2 hall, List.dropWhile_eq_nil_iff.2 hall]

/-! ## The answer of a search -/

/-- What a search in a text answers. -/
inductive Scan (t : Text) : Except Refusal (Option Region) → Prop where
  | duplicated : 1 < places beginMarker t ∨ 1 < places endMarker t →
      Scan t (.error (.duplicated (places beginMarker t) (places endMarker t)))
  | notWholeLine : places beginMarker t ≤ 1 → places endMarker t ≤ 1 →
      (places beginMarker t = 1 ∧ ¬ HasLine beginMarker t) ∨
        (places endMarker t = 1 ∧ ¬ HasLine endMarker t) →
      Scan t (.error .notWholeLine)
  | unclosed : places beginMarker t = 1 → HasLine beginMarker t → places endMarker t = 0 →
      Scan t (.error .unclosed)
  | unopened : places beginMarker t = 0 → places endMarker t = 1 → HasLine endMarker t →
      Scan t (.error .unopened)
  | inverted : Layout endMarker beginMarker t → Scan t (.error .inverted)
  | absent : MarkerFree t → Scan t (.ok none)
  | present (l : Layout beginMarker endMarker t) : Scan t (.ok (some l.region))

theorem any_isMarkerLine_iff {marker t : Text} :
    (segments t).any (isMarkerLine marker) = true ↔ HasLine marker t :=
  List.any_eq_true

theorem isMarkerLine_of_not_hasLine {marker t : Text} (h : ¬ HasLine marker t) :
    ∀ s ∈ segments t, isMarkerLine marker s = false := by
  intro s hs
  rw [Bool.eq_false_iff]
  exact fun hline => h ⟨s, hs, hline⟩

theorem not_hasLine_of_places_eq_zero {marker t : Text} (hm : IsMarker marker)
    (h : places marker t = 0) : ¬ HasLine marker t :=
  fun hline => (places_eq_zero_iff hm.ne_nil).1 h hline.infix

theorem hasLine_of_segments {marker t s : Text} {xs ys : List Text}
    (h : segments t = xs ++ s :: ys) (hline : isMarkerLine marker s = true) : HasLine marker t :=
  ⟨s, by rw [h]; simp, hline⟩

theorem splitBefore_of_hasLine {marker t : Text} (hm : IsMarker marker)
    (hone : places marker t ≤ 1) (h : HasLine marker t) :
    ∃ xs s ys, segments t = xs ++ s :: ys ∧ isMarkerLine marker s = true ∧
      splitBefore (isMarkerLine marker) (segments t) = (xs, s :: ys) := by
  obtain ⟨s, hs, hline⟩ := h
  obtain ⟨xs, ys, hxy⟩ := List.append_of_mem hs
  have haround := isMarkerLine_around hm hxy hline hone
  exact ⟨xs, s, ys, hxy, hline, by rw [hxy, splitBefore_append haround.1 hline]⟩

theorem find_eq_of_scan {t : Text} {r : Except Refusal (Option Region)} (h : Scan t r) :
    find t = r := by
  have hbegin := isMarker_begin.count_eq t
  have hend := isMarker_end.count_eq t
  cases h with
  | duplicated h => simp [find, hbegin, hend, h]
  | notWholeLine hb he h =>
    rcases h with ⟨hone, hno⟩ | ⟨hone, hno⟩
    · have hsplit := splitBefore_eq_self (isMarkerLine_of_not_hasLine hno)
      simp [find, hbegin, hend, hsplit, hone, Nat.not_lt.2 he]
    · have hany := Bool.eq_false_iff.2 (mt any_isMarkerLine_iff.1 hno)
      simp [find, hbegin, hend, hany, hone, Nat.not_lt.2 hb]
  | unclosed hb hline he =>
    obtain ⟨xs, s, ys, -, -, hsplit⟩ := splitBefore_of_hasLine isMarker_begin hb.le hline
    have hno := not_hasLine_of_places_eq_zero isMarker_end he
    have hany := Bool.eq_false_iff.2 (mt any_isMarkerLine_iff.1 hno)
    simp [find, hbegin, hend, hsplit, hany, hb, he]
  | unopened hb he hline =>
    have hno := not_hasLine_of_places_eq_zero isMarker_begin hb
    have hsplit := splitBefore_eq_self (isMarkerLine_of_not_hasLine hno)
    simp [find, hbegin, hend, hsplit, hb, he, any_isMarkerLine_iff.2 hline]
  | inverted l =>
    -- below the line of the begin marker there is no line of the end marker
    have haround := isMarkerLine_around isMarker_begin l.segments_lower l.foot_line
      l.second_once.le
    have hsplit : splitBefore (isMarkerLine beginMarker) (segments t) =
        (l.front ++ l.head :: l.middle, l.foot :: l.rest) := by
      rw [l.segments_lower]
      exact splitBefore_append haround.1 l.foot_line
    have hbelow := (isMarkerLine_around isMarker_end l.segments_eq l.head_line l.first_once.le).2
    have hnone : splitBefore (isMarkerLine endMarker) l.rest = (l.rest, []) :=
      splitBefore_eq_self fun x hx => hbelow x (by simp [hx])
    have hany := any_isMarkerLine_iff.2 (hasLine_of_segments l.segments_eq l.head_line)
    simp [find, hbegin, hend, hsplit, hany, hnone, l.first_once, l.second_once]
  | absent free =>
    obtain ⟨hb, he⟩ := markerFree_iff.1 free
    have hno := not_hasLine_of_places_eq_zero isMarker_begin hb
    have hsplit := splitBefore_eq_self (isMarkerLine_of_not_hasLine hno)
    have hany := Bool.eq_false_iff.2
      (mt any_isMarkerLine_iff.1 (not_hasLine_of_places_eq_zero isMarker_end he))
    simp [find, hbegin, hend, hsplit, hany, hb, he]
  | present l =>
    have habove := (isMarkerLine_around isMarker_begin l.segments_eq l.head_line l.first_once.le).1
    have hsplit : splitBefore (isMarkerLine beginMarker) (segments t) =
        (l.front, l.head :: (l.middle ++ l.foot :: l.rest)) := by
      rw [l.segments_eq]
      exact splitBefore_append habove l.head_line
    have hbefore :=
      (isMarkerLine_around isMarker_end l.segments_lower l.foot_line l.second_once.le).1
    have hlower : splitBefore (isMarkerLine endMarker) (l.middle ++ l.foot :: l.rest) =
        (l.middle, l.foot :: l.rest) :=
      splitBefore_append (fun x hx => hbefore x (by simp [hx])) l.foot_line
    have hany := any_isMarkerLine_iff.2 (hasLine_of_segments l.segments_lower l.foot_line)
    simp [find, hbegin, hend, hsplit, hany, hlower, l.first_once, l.second_once, Layout.region]

/-- Two markers that each have a line have it in one order or the other. -/
theorem layout_or_layout {first second t : Text} (hne : first ≠ second)
    (hone : places first t = 1) (htwo : places second t = 1) (h : HasLine first t)
    (h' : HasLine second t) :
    Nonempty (Layout first second t) ∨ Nonempty (Layout second first t) := by
  obtain ⟨s, hs, hline⟩ := h
  obtain ⟨s', hs', hline'⟩ := h'
  obtain ⟨xs, ys, hxy⟩ := List.append_of_mem hs
  rw [hxy, List.mem_append, List.mem_cons] at hs'
  rcases hs' with hmem | heq | hmem
  · obtain ⟨as, bs, rfl⟩ := List.append_of_mem hmem
    exact Or.inr ⟨⟨as, s', bs, s, ys, by simpa using hxy, hline', hline, htwo, hone⟩⟩
  · have : first = second := by
      rw [← isMarkerLine_iff.1 hline, ← isMarkerLine_iff.1 hline', heq]
    exact absurd this hne
  · obtain ⟨as, bs, rfl⟩ := List.append_of_mem hmem
    exact Or.inl ⟨⟨xs, s, as, s', bs, hxy, hline, hline', hone, htwo⟩⟩

theorem exists_scan (t : Text) : ∃ r, Scan t r := by
  by_cases hdup : 1 < places beginMarker t ∨ 1 < places endMarker t
  · exact ⟨_, .duplicated hdup⟩
  obtain ⟨hb, he⟩ : places beginMarker t ≤ 1 ∧ places endMarker t ≤ 1 := by omega
  by_cases hstray : (places beginMarker t = 1 ∧ ¬ HasLine beginMarker t) ∨
      (places endMarker t = 1 ∧ ¬ HasLine endMarker t)
  · exact ⟨_, .notWholeLine hb he hstray⟩
  -- what is left are markers on lines of their own
  obtain ⟨hbline, heline⟩ : (places beginMarker t = 1 → HasLine beginMarker t) ∧
      (places endMarker t = 1 → HasLine endMarker t) := by
    simpa using hstray
  rcases Nat.le_one_iff_eq_zero_or_eq_one.1 hb with hb | hb <;>
    rcases Nat.le_one_iff_eq_zero_or_eq_one.1 he with he | he
  · exact ⟨_, .absent (markerFree_iff.2 ⟨hb, he⟩)⟩
  · exact ⟨_, .unopened hb he (heline he)⟩
  · exact ⟨_, .unclosed hb (hbline hb) he⟩
  · rcases layout_or_layout (by decide) hb he (hbline hb) (heline he) with ⟨⟨l⟩⟩ | ⟨⟨l⟩⟩
    · exact ⟨_, .present l⟩
    · exact ⟨_, .inverted l⟩

theorem find_eq_iff {t : Text} {r : Except Refusal (Option Region)} : find t = r ↔ Scan t r := by
  refine ⟨?_, find_eq_of_scan⟩
  rintro rfl
  obtain ⟨r, hr⟩ := exists_scan t
  rwa [find_eq_of_scan hr]

end TouchPanel.Region
