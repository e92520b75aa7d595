import TouchPanel.Proofs.Region.Frame

/-!
# When a merge is refused

The conditions here speak about the places of the markers in a text and about the
characters around them, not about segments. Each refusal answers one condition, the
first that holds, and a merge succeeds if none does.
-/

namespace TouchPanel.Region

open Text

/-! ## Conditions on a target -/

/-- A marker stands at more than one place. -/
def Duplicated (t : Text) : Prop := 1 < places beginMarker t ∨ 1 < places endMarker t

/-- The marker stands on a line beside something else than blanks. -/
def Stray (marker t : Text) : Prop :=
  ∃ front rest, t = front ++ marker ++ rest ∧ trim (lineAround front marker rest) ≠ marker

/-- A marker stands beside something else, or without the other marker. -/
def Malformed (t : Text) : Prop :=
  Stray beginMarker t ∨ Stray endMarker t ∨ ¬ (beginMarker <:+: t ↔ endMarker <:+: t)

/-- One word stands somewhere before the other. -/
def Precedes (first second t : Text) : Prop :=
  ∃ front rest front' rest', t = front ++ first ++ rest ∧ t = front' ++ second ++ rest' ∧
    front.length < front'.length

/-- The end marker stands before the begin marker. -/
def Inverted (t : Text) : Prop := Precedes endMarker beginMarker t

/-! ## Places and lines -/

theorem stray_of_not_hasLine {marker t : Text} (hm : IsMarker marker) (h : marker <:+: t)
    (hno : ¬ HasLine marker t) : Stray marker t := by
  obtain ⟨front, rest, rfl⟩ := h
  refine ⟨front, rest, rfl, fun halone => hno ?_⟩
  obtain ⟨s, hs, -, htrim⟩ := exists_segment_around hm.ne_nil hm.newline_not_mem
  exact ⟨s, hs, isMarkerLine_iff.2 (htrim.trans halone)⟩

/-- The only place of a marker that has a line is on this line. -/
theorem not_stray_of_hasLine {marker t : Text} (hm : IsMarker marker)
    (hone : places marker t ≤ 1) (h : HasLine marker t) : ¬ Stray marker t := by
  rintro ⟨front, rest, rfl, hbeside⟩
  obtain ⟨s, hs, hline⟩ := h
  obtain ⟨s', hs', hin, htrim⟩ := exists_segment_around hm.ne_nil hm.newline_not_mem
  have heq : s' = s :=
    segment_unique hm.ne_nil hm.newline_not_mem hone hs hs' (infix_of_isMarkerLine hline) hin
  rw [← htrim, heq, isMarkerLine_iff.1 hline] at hbeside
  exact hbeside rfl

theorem not_stray_of_not_infix {marker t : Text} (h : ¬ marker <:+: t) : ¬ Stray marker t := by
  rintro ⟨front, rest, rfl, -⟩
  exact h (List.infix_append _ _ _)

theorem Layout.precedes {first second t : Text} (l : Layout first second t) (hne : first ≠ []) :
    Precedes first second t := by
  obtain ⟨a, b, hhead⟩ := infix_of_isMarkerLine l.head_line
  obtain ⟨a', b', hfoot⟩ := infix_of_isMarkerLine l.foot_line
  have ht : t = l.front.flatten ++ l.head ++ l.middle.flatten ++ l.foot ++ l.rest.flatten := by
    simpa [region] using l.eq_region
  refine ⟨l.front.flatten ++ a, b ++ l.middle.flatten ++ l.foot ++ l.rest.flatten,
    l.front.flatten ++ l.head ++ l.middle.flatten ++ a', b' ++ l.rest.flatten, ?_, ?_, ?_⟩
  · refine ht.trans ?_
    rw [← hhead]
    simp
  · refine ht.trans ?_
    rw [← hfoot]
    simp
  · have hpos : 0 < first.length := List.length_pos_iff.2 hne
    have hlen : l.head.length = a.length + first.length + b.length := by
      rw [← hhead, List.length_append, List.length_append]
    simp only [List.length_append]
    omega

/-- Markers with one place each stand in one order only. -/
theorem not_precedes {first second t : Text} (hfirst : IsMarker first) (hsecond : IsMarker second)
    (hone : places first t ≤ 1) (htwo : places second t ≤ 1) (h : Precedes first second t) :
    ¬ Precedes second first t := by
  rintro ⟨b, bRest, a, aRest, hb, ha, hlt⟩
  obtain ⟨a', aRest', b', bRest', ha', hb', hlt'⟩ := h
  obtain ⟨rfl, -⟩ := front_unique hfirst.ne_nil hone ha ha'
  obtain ⟨rfl, -⟩ := front_unique hsecond.ne_nil htwo hb hb'
  omega

/-! ## Conditions and the answer of a search -/

theorem not_duplicated {t : Text} (hb : places beginMarker t ≤ 1) (he : places endMarker t ≤ 1) :
    ¬ Duplicated t := by
  unfold Duplicated
  omega

theorem malformed_of_stray_lines {t : Text}
    (h : (places beginMarker t = 1 ∧ ¬ HasLine beginMarker t) ∨
      (places endMarker t = 1 ∧ ¬ HasLine endMarker t)) : Malformed t := by
  rcases h with ⟨hone, hno⟩ | ⟨hone, hno⟩
  · have hin := (places_pos_iff isMarker_begin.ne_nil).1 (by omega : 0 < places beginMarker t)
    exact Or.inl (stray_of_not_hasLine isMarker_begin hin hno)
  · have hin := (places_pos_iff isMarker_end.ne_nil).1 (by omega : 0 < places endMarker t)
    exact Or.inr (Or.inl (stray_of_not_hasLine isMarker_end hin hno))

theorem MarkerFree.not_malformed {t : Text} (h : MarkerFree t) : ¬ Malformed t := by
  rintro (hb | he | hx)
  · exact not_stray_of_not_infix h.1 hb
  · exact not_stray_of_not_infix h.2 he
  · exact hx (iff_of_false h.1 h.2)

theorem MarkerFree.not_inverted {t : Text} (h : MarkerFree t) : ¬ Inverted t := by
  rintro ⟨front, rest, -, -, rfl, -⟩
  exact h.2 (List.infix_append _ _ _)

theorem not_malformed_of_lines {t : Text} (hb : places beginMarker t = 1)
    (he : places endMarker t = 1) (hbline : HasLine beginMarker t) (heline : HasLine endMarker t) :
    ¬ Malformed t := by
  rintro (h | h | h)
  · exact not_stray_of_hasLine isMarker_begin hb.le hbline h
  · exact not_stray_of_hasLine isMarker_end he.le heline h
  · exact h (iff_of_true hbline.infix heline.infix)

theorem Layout.hasLine_first {first second t : Text} (l : Layout first second t) :
    HasLine first t :=
  hasLine_of_segments l.segments_eq l.head_line

theorem Layout.hasLine_second {first second t : Text} (l : Layout first second t) :
    HasLine second t :=
  ⟨l.foot, by rw [l.segments_eq]; simp, l.foot_line⟩

/-- Each refusal of a merge answers the first condition that holds, in this order: the
document has a marker; a marker is duplicated; a marker is malformed; the markers are
inverted; there is no marker and none may be made. If none holds, the merge succeeds. -/
theorem merge_classified (t d : Text) (m : Mode) :
    (merge t d m = .error .documentHasMarker ↔ ¬ MarkerFree d) ∧
    (∀ begins ends, merge t d m = .error (.duplicated begins ends) ↔
      MarkerFree d ∧ Duplicated t ∧
        begins = places beginMarker t ∧ ends = places endMarker t) ∧
    ((∃ refusal, merge t d m = .error refusal ∧ refusal.code = "marker_malformed") ↔
      MarkerFree d ∧ ¬ Duplicated t ∧ Malformed t) ∧
    (merge t d m = .error .inverted ↔
      MarkerFree d ∧ ¬ Duplicated t ∧ ¬ Malformed t ∧ Inverted t) ∧
    (merge t d m = .error .missing ↔
      MarkerFree d ∧ ¬ Duplicated t ∧ ¬ Malformed t ∧ ¬ Inverted t ∧
        MarkerFree t ∧ m = .updateOnly) ∧
    ((∃ merged, merge t d m = .ok merged) ↔
      MarkerFree d ∧ ¬ Duplicated t ∧ ¬ Malformed t ∧ ¬ Inverted t ∧
        ¬ (MarkerFree t ∧ m = .updateOnly)) := by
  by_cases free : MarkerFree d
  · generalize hfind : find t = r
    cases find_eq_iff.1 hfind with
    | duplicated hdup =>
      have hdup' : Duplicated t := hdup
      simp [merge_of_find_error free hfind, free, hdup', Refusal.code, @eq_comm Nat]
    | notWholeLine hb he hstray =>
      have hmal := malformed_of_stray_lines hstray
      simp [merge_of_find_error free hfind, free, not_duplicated hb he, hmal, Refusal.code]
    | unclosed hb hline he =>
      have hno := (places_eq_zero_iff isMarker_end.ne_nil).1 he
      have hmal : Malformed t := Or.inr (Or.inr fun h => hno (h.1 hline.infix))
      simp [merge_of_find_error free hfind, free, not_duplicated hb.le (by omega),
        hmal, Refusal.code]
    | unopened hb he hline =>
      have hno := (places_eq_zero_iff isMarker_begin.ne_nil).1 hb
      have hmal : Malformed t := Or.inr (Or.inr fun h => hno (h.2 hline.infix))
      simp [merge_of_find_error free hfind, free, not_duplicated (by omega) he.le,
        hmal, Refusal.code]
    | inverted l =>
      have hdup := not_duplicated l.second_once.le l.first_once.le
      have hmal :=
        not_malformed_of_lines l.second_once l.first_once l.hasLine_second l.hasLine_first
      have hinv : Inverted t := l.precedes isMarker_end.ne_nil
      have hin : ¬ MarkerFree t := fun h => h.2 l.hasLine_first.infix
      simp [merge_of_find_error free hfind, free, hdup, hmal, hinv, hin, Refusal.code]
    | absent freeTarget =>
      have hdup : ¬ Duplicated t := by
        obtain ⟨hb, he⟩ := markerFree_iff.1 freeTarget
        exact not_duplicated (by omega) (by omega)
      have hmal := freeTarget.not_malformed
      have hinv := freeTarget.not_inverted
      cases m with
      | updateOnly =>
        simp [merge_updateOnly freeTarget free, free, hdup, hmal, hinv, freeTarget, Refusal.code]
      | createOrUpdate =>
        cases blank : allBlank t with
        | true => simp [merge_alone freeTarget blank free, free, hdup, hmal, hinv]
        | false => simp [merge_below freeTarget blank free, free, hdup, hmal, hinv]
    | present l =>
      have hdup := not_duplicated l.first_once.le l.second_once.le
      have hmal :=
        not_malformed_of_lines l.first_once l.second_once l.hasLine_first l.hasLine_second
      have hinv : ¬ Inverted t := not_precedes isMarker_begin isMarker_end l.first_once.le
        l.second_once.le (l.precedes isMarker_begin.ne_nil)
      have hin : ¬ MarkerFree t := fun h => h.1 l.hasLine_first.infix
      simp [merge_layout l free, free, hdup, hmal, hinv, hin]
  · simp [merge_of_not_markerFree free, free, Refusal.code]

end TouchPanel.Region
