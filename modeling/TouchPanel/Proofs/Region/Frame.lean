import TouchPanel.Proofs.Region.Scan
import TouchPanel.Proofs.Text.Trim
import TouchPanel.Region.Merge

/-!
# What a merge keeps

A merge puts the body of the document into a frame, which is either cut from the
target or made around a new region. The frame ends with a line of the begin marker
above the body and begins with a line of the end marker below it, so that a text
filled into it is scanned as one region with exactly this body.
-/

namespace TouchPanel.Region

open Text

/-! ## Texts without markers -/

theorem MarkerFree.append_newline {a b : Text} (ha : MarkerFree a) (hb : MarkerFree b) :
    MarkerFree (a ++ '\n' :: b) := by
  rw [markerFree_iff] at *
  rw [places_append_newline isMarker_begin.ne_nil isMarker_begin.newline_not_mem,
    places_append_newline isMarker_end.ne_nil isMarker_end.newline_not_mem]
  omega

theorem markerFree_nil : MarkerFree [] := by
  decide

theorem bodyOf_isPrefix (d : Text) : bodyOf d <+: d :=
  List.rdropWhile_prefix (fun c => c == '\n' || c == '\r' || c == ' ' || c == '\t') d

theorem markerFree_bodyOf {d : Text} (h : MarkerFree d) : MarkerFree (bodyOf d) :=
  h.of_infix (bodyOf_isPrefix d).isInfix

/-! ## Frames -/

/-- The lines around the body of a region. -/
structure Frame where
  front : List Text
  head : Text
  foot : Text
  rest : List Text
  upper_isLine : ∀ s ∈ front ++ [head], IsLine s
  lower_segments : segments (foot :: rest).flatten = foot :: rest
  head_line : isMarkerLine beginMarker head = true
  foot_line : isMarkerLine endMarker foot = true
  begin_upper : places beginMarker (front ++ [head]).flatten = 1
  end_upper : places endMarker (front ++ [head]).flatten = 0
  begin_lower : places beginMarker (foot :: rest).flatten = 0
  end_lower : places endMarker (foot :: rest).flatten = 1

namespace Frame

def upper (f : Frame) : Text := (f.front ++ [f.head]).flatten

def lower (f : Frame) : Text := (f.foot :: f.rest).flatten

/-- The text in which a body stands in the frame. -/
def fill (f : Frame) (body : Text) : Text := f.upper ++ body ++ '\n' :: f.lower

theorem fill_inj (f : Frame) {a b : Text} : f.fill a = f.fill b ↔ a = b := by
  simp [fill]

theorem closed_upper (f : Frame) : Closed f.upper :=
  closed_flatten f.upper_isLine

theorem segments_fill (f : Frame) (body : Text) :
    segments (f.fill body) =
      f.front ++ f.head :: (segments (body ++ ['\n']) ++ f.foot :: f.rest) := by
  have hfill : f.fill body = f.upper ++ ((body ++ ['\n']) ++ f.lower) := by simp [fill]
  rw [hfill, upper, segments_flatten_append f.upper_isLine,
    segments_append (closed_append_newline body), lower, f.lower_segments]
  simp

theorem places_fill (f : Frame) {marker : Text} (hm : IsMarker marker) (body : Text) :
    places marker (f.fill body) =
      places marker f.upper + places marker body + places marker f.lower := by
  rw [fill, List.append_assoc,
    places_append_of_closed hm.ne_nil hm.newline_not_mem f.closed_upper,
    places_append_newline hm.ne_nil hm.newline_not_mem]
  omega

/-- A filled frame has its region. -/
def layout (f : Frame) {body : Text} (free : MarkerFree body) :
    Layout beginMarker endMarker (f.fill body) where
  front := f.front
  head := f.head
  middle := segments (body ++ ['\n'])
  foot := f.foot
  rest := f.rest
  segments_eq := f.segments_fill body
  head_line := f.head_line
  foot_line := f.foot_line
  first_once := by
    have hbody := (markerFree_iff.1 free).1
    have hupper := f.begin_upper
    have hlower := f.begin_lower
    rw [f.places_fill isMarker_begin, upper, lower]
    omega
  second_once := by
    have hbody := (markerFree_iff.1 free).2
    have hupper := f.end_upper
    have hlower := f.end_lower
    rw [f.places_fill isMarker_end, upper, lower]
    omega

theorem find_fill (f : Frame) {body : Text} (free : MarkerFree body) :
    find (f.fill body) = .ok (some ⟨f.upper, body ++ ['\n'], f.lower⟩) := by
  rw [find_eq_of_scan (.present (f.layout free))]
  simp [Layout.region, layout, upper, lower, flatten_segments]

end Frame

/-! ## The three frames of a merge -/

section Layout

variable {first second t : Text}

theorem Layout.upper_isLine (l : Layout first second t) : ∀ s ∈ l.front ++ [l.head], IsLine s :=
  isLine_of_segments_eq l.segments_upper (by simp)

theorem Layout.places_eq (l : Layout first second t) {marker : Text} (hm : IsMarker marker) :
    places marker t = places marker l.region.before + places marker l.region.body +
      places marker l.region.after := by
  have hbefore : Closed l.region.before := closed_flatten l.upper_isLine
  have hbody : Closed l.region.body := by
    refine closed_flatten fun s hs => ?_
    exact isLine_of_segments_eq l.segments_lower (by simp) s (by simp [hs])
  conv_lhs => rw [l.eq_region, List.append_assoc]
  rw [places_append_of_closed hm.ne_nil hm.newline_not_mem hbefore,
    places_append_of_closed hm.ne_nil hm.newline_not_mem hbody]
  omega

/-- The upper part holds the only place of the first marker. -/
theorem Layout.places_first (l : Layout first second t) (hm : IsMarker first) :
    places first l.region.before = 1 ∧ places first l.region.after = 0 := by
  have hsum := l.places_eq hm
  have hone := l.first_once
  have hpos : 0 < places first l.region.before :=
    places_flatten_pos hm.ne_nil (by simp) (infix_of_isMarkerLine l.head_line)
  omega

/-- The lower part holds the only place of the second marker. -/
theorem Layout.places_second (l : Layout first second t) (hm : IsMarker second) :
    places second l.region.before = 0 ∧ places second l.region.after = 1 := by
  have hsum := l.places_eq hm
  have hone := l.second_once
  have hpos : 0 < places second l.region.after :=
    places_flatten_pos hm.ne_nil (by simp) (infix_of_isMarkerLine l.foot_line)
  omega

/-- The frame around the region of a text. -/
def Layout.frame (l : Layout beginMarker endMarker t) : Frame where
  front := l.front
  head := l.head
  foot := l.foot
  rest := l.rest
  upper_isLine := l.upper_isLine
  lower_segments := (segments_flatten_of_append l.segments_lower).2
  head_line := l.head_line
  foot_line := l.foot_line
  begin_upper := (l.places_first isMarker_begin).1
  end_upper := (l.places_second isMarker_end).1
  begin_lower := (l.places_first isMarker_begin).2
  end_lower := (l.places_second isMarker_end).2

end Layout

theorem isLine_marker {marker : Text} (hm : IsMarker marker) : IsLine (marker ++ ['\n']) :=
  ⟨marker, hm.newline_not_mem, rfl⟩

theorem isMarkerLine_marker {marker : Text} (hm : IsMarker marker) :
    isMarkerLine marker (marker ++ ['\n']) = true := by
  rw [isMarkerLine_iff, trim_append_blank _ (by decide), hm.trim_eq]

private theorem places_upper {marker above line : Text} (hm : IsMarker marker)
    (closed : Closed above) (h : places marker above = 0) :
    places marker (segments above ++ [line]).flatten = places marker line := by
  rw [List.flatten_append, flatten_segments, List.flatten_singleton,
    places_append_of_closed hm.ne_nil hm.newline_not_mem closed, h, Nat.zero_add]

private theorem places_lower {marker below line : Text} (hm : IsMarker marker)
    (h : places marker below = 0) :
    places marker ((line ++ ['\n']) :: segments below).flatten = places marker line := by
  rw [List.flatten_cons, flatten_segments, List.append_assoc, List.singleton_append,
    places_append_newline hm.ne_nil hm.newline_not_mem, h, Nat.add_zero]

/-- The frame of a new region between two texts without markers. -/
def Frame.between (above below : Text) (closed : Closed above) (freeAbove : MarkerFree above)
    (freeBelow : MarkerFree below) : Frame where
  front := segments above
  head := beginMarker ++ ['\n']
  foot := endMarker ++ ['\n']
  rest := segments below
  upper_isLine := by
    intro s hs
    rw [List.mem_append, List.mem_singleton] at hs
    rcases hs with hs | rfl
    · exact closed.isLine_segments s hs
    · exact isLine_marker isMarker_begin
  lower_segments := by
    have hfoot := isLine_marker isMarker_end
    rw [List.flatten_cons, flatten_segments, segments_append hfoot.closed, hfoot.segments]
    rfl
  head_line := isMarkerLine_marker isMarker_begin
  foot_line := isMarkerLine_marker isMarker_end
  begin_upper := by
    rw [places_upper isMarker_begin closed (markerFree_iff.1 freeAbove).1]
    decide
  end_upper := by
    rw [places_upper isMarker_end closed (markerFree_iff.1 freeAbove).2]
    decide
  begin_lower := by
    rw [places_lower isMarker_begin (markerFree_iff.1 freeBelow).1]
    decide
  end_lower := by
    rw [places_lower isMarker_end (markerFree_iff.1 freeBelow).2]
    decide

theorem Frame.fill_between {above below : Text} (closed : Closed above)
    (freeAbove : MarkerFree above) (freeBelow : MarkerFree below) (body : Text) :
    (between above below closed freeAbove freeBelow).fill body = above ++ fresh body ++ below := by
  simp [fill, upper, lower, between, fresh, flatten_segments]

theorem markerFree_userHint : MarkerFree userHint := by
  -- unlike the markers the note has no underscore
  have h : '_' ∉ userHint := by decide +kernel
  exact ⟨fun hb => h (hb.subset (by decide)), fun he => h (he.subset (by decide))⟩

/-- The frame of a region in an empty text, with a note below it. -/
def Frame.alone : Frame :=
  between [] ('\n' :: userHint) closed_nil markerFree_nil
    (markerFree_nil.append_newline markerFree_userHint)

theorem closed_append_newlines (t : Text) : Closed (t ++ ['\n', '\n']) := by
  simp [Closed]

/-- The frame of a region below a text without markers. -/
def Frame.below (t : Text) (free : MarkerFree t) : Frame :=
  between (trimEnd t ++ ['\n', '\n']) [] (closed_append_newlines _)
    ((free.of_infix (trimEnd_isPrefix t).isInfix).append_newline (by decide)) markerFree_nil

theorem Frame.fill_alone (body : Text) :
    alone.fill body = Region.fresh body ++ '\n' :: userHint := by
  rw [alone, fill_between]
  rfl

theorem Frame.fill_below (t : Text) (free : MarkerFree t) (body : Text) :
    (below t free).fill body = trimEnd t ++ '\n' :: '\n' :: Region.fresh body := by
  rw [below, fill_between]
  simp

/-! ## Merging -/

theorem hasMarker_iff {d : Text} :
    (occurs beginMarker d || occurs endMarker d) = true ↔ ¬ MarkerFree d := by
  rw [Bool.or_eq_true, occurs_iff_infix, occurs_iff_infix, MarkerFree, not_and_or, not_not, not_not]

theorem MarkerFree.not_hasMarker {d : Text} (free : MarkerFree d) :
    ¬ (occurs beginMarker d || occurs endMarker d) = true :=
  mt hasMarker_iff.1 (not_not.2 free)

theorem merge_of_not_markerFree {t d : Text} {m : Mode} (h : ¬ MarkerFree d) :
    merge t d m = .error .documentHasMarker := by
  rw [merge, if_pos (hasMarker_iff.2 h)]

theorem merge_of_find_error {t d : Text} {m : Mode} {refusal : Refusal} (free : MarkerFree d)
    (h : find t = .error refusal) : merge t d m = .error refusal := by
  rw [merge, if_neg free.not_hasMarker, h]

theorem merge_layout {t d : Text} (l : Layout beginMarker endMarker t) (free : MarkerFree d)
    (m : Mode) : merge t d m =
      .ok ⟨l.frame.fill (bodyOf d), .replaced, l.frame.fill (bodyOf d) != t⟩ := by
  rw [merge, if_neg free.not_hasMarker, find_eq_of_scan (.present l)]
  rfl

theorem merge_updateOnly {t d : Text} (freeTarget : MarkerFree t) (free : MarkerFree d) :
    merge t d .updateOnly = .error .missing := by
  rw [merge, if_neg free.not_hasMarker, find_eq_of_scan (.absent freeTarget)]

theorem merge_alone {t d : Text} (freeTarget : MarkerFree t) (blank : allBlank t = true)
    (free : MarkerFree d) : merge t d .createOrUpdate =
      .ok ⟨Frame.alone.fill (bodyOf d), .created, Frame.alone.fill (bodyOf d) != t⟩ := by
  rw [merge, if_neg free.not_hasMarker, find_eq_of_scan (.absent freeTarget)]
  simp [blank, Frame.fill_alone]

theorem merge_below {t d : Text} (freeTarget : MarkerFree t) (blank : allBlank t = false)
    (free : MarkerFree d) : merge t d .createOrUpdate =
      .ok ⟨(Frame.below t freeTarget).fill (bodyOf d), .appended,
        (Frame.below t freeTarget).fill (bodyOf d) != t⟩ := by
  rw [merge, if_neg free.not_hasMarker, find_eq_of_scan (.absent freeTarget)]
  simp [blank, Frame.fill_below]

theorem markerFree_of_merge {t d : Text} {m : Mode} {merged : Merged}
    (h : merge t d m = .ok merged) : MarkerFree d := by
  by_contra hd
  simp [merge_of_not_markerFree hd] at h

/-- A merge fills a frame that depends on the target and the mode only. -/
theorem exists_frame {t d : Text} {m : Mode} {merged : Merged} (h : merge t d m = .ok merged) :
    ∃ (f : Frame) (outcome : Outcome), ∀ d', MarkerFree d' →
      merge t d' m = .ok ⟨f.fill (bodyOf d'), outcome, f.fill (bodyOf d') != t⟩ := by
  have free := markerFree_of_merge h
  generalize hfind : find t = r
  cases find_eq_iff.1 hfind with
  | present l => exact ⟨l.frame, .replaced, fun d' free' => merge_layout l free' m⟩
  | absent freeTarget =>
    cases m with
    | updateOnly => simp [merge_updateOnly freeTarget free] at h
    | createOrUpdate =>
      cases blank : allBlank t with
      | true => exact ⟨.alone, .created, fun d' free' => merge_alone freeTarget blank free'⟩
      | false =>
        exact ⟨.below t freeTarget, .appended, fun d' free' => merge_below freeTarget blank free'⟩
  | _ => simp [merge_of_find_error free hfind] at h

/-- Outside the region a merge changes nothing: what stands above and below the body of the
target is kept, and a target without markers is only extended. The result always has
one region, which holds the body of the document. -/
theorem merge_keeps_outside {d : Text} (free : MarkerFree d) :
    (∀ (t : Text) (l : Layout beginMarker endMarker t) (m : Mode),
      let upper := (l.front ++ [l.head]).flatten
      let lower := (l.foot :: l.rest).flatten
      let text := upper ++ bodyOf d ++ '\n' :: lower
      t = upper ++ l.middle.flatten ++ lower ∧ IsLine l.head ∧
        merge t d m = .ok ⟨text, .replaced, text != t⟩ ∧
        find text = .ok (some ⟨upper, bodyOf d ++ ['\n'], lower⟩)) ∧
    (∀ t, MarkerFree t → allBlank t = false →
      let text := trimEnd t ++ '\n' :: '\n' :: fresh (bodyOf d)
      merge t d .createOrUpdate = .ok ⟨text, .appended, text != t⟩ ∧
        ∃ region, find text = .ok (some region) ∧ region.body = bodyOf d ++ ['\n']) ∧
    (∀ t, MarkerFree t → allBlank t = true →
      let text := fresh (bodyOf d) ++ '\n' :: userHint
      merge t d .createOrUpdate = .ok ⟨text, .created, text != t⟩ ∧
        ∃ region, find text = .ok (some region) ∧ region.body = bodyOf d ++ ['\n']) := by
  have freeBody := markerFree_bodyOf free
  refine ⟨fun t l m => ?_, fun t freeTarget blank => ?_, fun t freeTarget blank => ?_⟩
  · exact ⟨l.eq_region, l.upper_isLine _ (by simp), merge_layout l free m,
      l.frame.find_fill freeBody⟩
  · rw [← Frame.fill_below t freeTarget]
    exact ⟨merge_below freeTarget blank free, _, Frame.find_fill _ freeBody, rfl⟩
  · rw [← Frame.fill_alone]
    exact ⟨merge_alone freeTarget blank free, _, Frame.find_fill _ freeBody, rfl⟩

/-- A region between indented lines with carriage returns, a target with a line of the user
and a blank one. -/
theorem merge_keeps_outside_of_returns :
    MarkerFree "b: 2\n \n".toList ∧
    merge ("a: 1\r\n\t".toList ++ beginMarker ++ "\r\nold\n".toList ++ endMarker)
        "b: 2\n \n".toList .updateOnly =
      .ok ⟨"a: 1\r\n\t".toList ++ beginMarker ++ "\r\nb: 2\n".toList ++ endMarker,
        .replaced, true⟩ ∧
    merge "a: 1\r\n \n".toList "b: 2\n \n".toList .createOrUpdate =
      .ok ⟨"a: 1\n\n".toList ++ fresh "b: 2".toList, .appended, true⟩ ∧
    merge " \r\n".toList "b: 2\n \n".toList .createOrUpdate =
      .ok ⟨fresh "b: 2".toList ++ '\n' :: userHint, .created, true⟩ := by
  have free : MarkerFree "b: 2\n \n".toList := by decide
  obtain ⟨inside, below, alone⟩ := merge_keeps_outside free
  let layout : Layout beginMarker endMarker
      ("a: 1\r\n\t".toList ++ beginMarker ++ "\r\nold\n".toList ++ endMarker) :=
    { front := ["a: 1\r\n".toList]
      head := '\t' :: beginMarker ++ "\r\n".toList
      middle := ["old\n".toList]
      foot := endMarker
      rest := []
      segments_eq := by decide +kernel
      head_line := by decide +kernel
      foot_line := by decide +kernel
      first_once := by decide +kernel
      second_once := by decide +kernel }
  refine ⟨free, (inside _ layout .updateOnly).2.2.1.trans ?_, (below _ ?_ ?_).1.trans ?_,
    (alone _ ?_ ?_).1.trans ?_⟩
  all_goals decide +kernel

end TouchPanel.Region
