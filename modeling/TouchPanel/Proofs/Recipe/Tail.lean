import TouchPanel.Proofs.Document.Fill

/-!
# Lines behind a recipe

A text that ends with a newline can be followed by more lines. Lines that hold no insertion
point of the user text are passed on as they are when the recipe is brought into its normal form
and the user text is put in.
-/

namespace TouchPanel

open Text Recipe

/-! ## Lines behind a text -/

namespace Text

variable {t u l : Text} {ls : List Text}

theorem lines_append (h : Closed t) (u : Text) : lines (t ++ u) = lines t ++ lines u := by
  rw [lines, segments_append h, List.map_append]
  rfl

theorem closed_unlines (ls : List Text) : Closed (unlines ls) := by
  induction ls with
  | nil => exact closed_nil
  | cons l ls ih => exact (closed_append_newline l).append ih

theorem unlines_append (a b : List Text) : unlines (a ++ b) = unlines a ++ unlines b :=
  List.flatMap_append

theorem chomp_newline_of_bare (h : bare l = l) : chomp (l ++ ['\n']) = l := by
  obtain ⟨b, rfl | rfl, hl⟩ := eq_chomp_append l
  · rw [List.append_nil] at hl
    exact hl.symm
  · -- a carriage return at the end would be none of the bare line
    have hbare : bare l = bare (chomp (l ++ ['\n'])) := by
      conv_lhs => rw [hl, bare_append_return]
    have hle : (bare (chomp (l ++ ['\n']))).length ≤ (chomp (l ++ ['\n'])).length :=
      (List.rdropWhile_prefix _ _).length_le
    have hlen := congrArg List.length hl
    rw [List.length_append, List.length_singleton] at hlen
    rw [← hbare, h] at hle
    omega

/-- Lines that can be read back as they are written. -/
def AllLines (ls : List Text) : Prop := ∀ l ∈ ls, '\n' ∉ l ∧ bare l = l

theorem AllLines.append {a b : List Text} (ha : AllLines a) (hb : AllLines b) :
    AllLines (a ++ b) :=
  List.forall_mem_append.2 ⟨ha, hb⟩

theorem AllLines.lines_unlines (h : AllLines ls) : lines (unlines ls) = ls := by
  rw [Text.lines_unlines fun l hl => (h l hl).1]
  conv_rhs => rw [← List.map_id ls]
  exact List.map_congr_left fun l hl => chomp_newline_of_bare (h l hl).2

/-- Lines of which the last one is not empty are read back when they are joined. -/
theorem AllLines.lines_joinLines (h : AllLines ls) (hlast : ∀ l ∈ ls.getLast?, l ≠ []) :
    lines (joinLines ls) = ls := by
  rcases List.eq_nil_or_concat' ls with rfl | ⟨init, last, rfl⟩
  · rfl
  · obtain ⟨hinit, hone⟩ := List.forall_mem_append.1 h
    rw [joinLines_concat, lines_unlines_append (fun l hl => (hinit l hl).1) (hone last (by simp)).1
      (hlast last (by simp)), AllLines.lines_unlines hinit]

theorem bare_of_not_mem (h : '\r' ∉ l) : bare l = l := by
  refine List.rdropWhile_eq_self_iff.2 fun hne hlast => h ?_
  rw [beq_iff_eq] at hlast
  exact hlast ▸ List.getLast_mem hne

/-- The newline that a last line lacks. -/
theorem lines_append_newline (hreturn : '\r' ∉ t) (h : ¬ Closed t) :
    lines (t ++ ['\n']) = lines t := by
  obtain ⟨init, last, -, hjoin, hinit, hfree⟩ := exists_splitOn_concat t
  have hne : last ≠ [] := by
    rintro rfl
    rw [hjoin, List.append_nil] at h
    exact h (closed_unlines init)
  have hlast : bare last = last :=
    bare_of_not_mem fun hmem => hreturn (hjoin ▸ List.mem_append_right _ hmem)
  have hlines : lines t = lines (unlines init) ++ [last] := by
    rw [hjoin, lines_unlines_append hinit hfree hne]
  have hone : lines (last ++ ['\n']) = [last] := by
    have hall : AllLines [last] := List.forall_mem_singleton.2 ⟨hfree, hlast⟩
    have hone := hall.lines_unlines
    rwa [unlines, List.flatMap_singleton] at hone
  rw [hlines]
  conv_lhs => rw [hjoin, List.append_assoc, lines_append (closed_unlines init), hone]

/-- A line without its ending, and the ending. -/
theorem exists_eq_chomp_append {s : Text} (hs : s ∈ segments t) :
    ∃ b, (∀ c ∈ b, c = '\r' ∨ c = '\n') ∧ s = chomp s ++ b := by
  obtain ⟨l, hl, rfl | rfl⟩ := segment_cases hs
  · exact ⟨[], by simp, by rw [chomp_of_not_mem hl, List.append_nil]⟩
  · obtain ⟨b, hb, heq⟩ := eq_chomp_append l
    refine ⟨b ++ ['\n'], ?_, ?_⟩
    · rcases hb with rfl | rfl <;> simp
    · rw [← List.append_assoc, ← heq]

/-- The characters of a line are characters of the text. -/
theorem mem_of_mem_lines {c : Char} (hl : l ∈ lines t) (hc : c ∈ l) : c ∈ t := by
  obtain ⟨s, hs, rfl⟩ := List.mem_map.1 hl
  obtain ⟨ending, -, heq⟩ := exists_eq_chomp_append hs
  rw [← flatten_segments t]
  exact List.mem_flatten.2 ⟨s, hs, heq ▸ List.mem_append_left ending hc⟩

theorem allLines_lines (h : '\r' ∉ t) : AllLines (lines t) := fun _ hl =>
  ⟨newline_not_mem_of_mem_lines hl, bare_of_not_mem fun hc => h (mem_of_mem_lines hl hc)⟩

/-- A word without line endings stands in a text if it stands in a line. -/
theorem occurs_eq_any_lines {word : Text} (hw : word ≠ []) (hn : '\n' ∉ word) (hr : '\r' ∉ word)
    (t : Text) : occurs word t = (lines t).any (occurs word) := by
  rw [Bool.eq_iff_iff, occurs_iff_infix, List.any_eq_true]
  constructor
  · rintro ⟨front, rest, rfl⟩
    obtain ⟨s, hs, hin, -⟩ := @exists_segment_around front word rest hw hn
    obtain ⟨b, hb, heq⟩ := exists_eq_chomp_append hs
    rw [heq] at hin
    refine ⟨chomp s, List.mem_map_of_mem hs, occurs_iff_infix.2 ?_⟩
    refine infix_of_infix_append hw (fun c hc => ?_) hin
    rcases hb c hc with rfl | rfl
    · exact hr
    · exact hn
  · rintro ⟨l, hl, hin⟩
    obtain ⟨s, hs, rfl⟩ := List.mem_map.1 hl
    obtain ⟨b, -, heq⟩ := exists_eq_chomp_append hs
    have hchomp : chomp s <:+: t := by
      rw [← flatten_segments t]
      refine List.IsInfix.trans ?_ (List.infix_of_mem_flatten hs)
      conv_rhs => rw [heq]
      exact (List.prefix_append _ _).isInfix
    rw [ occurs_iff_infix] at hin
    exact hin.trans hchomp

end Text

/-! ## Markers -/

namespace Recipe

variable {marker t : Text} {ls : List Text}

theorem substituteLines?_append {payload a : List Text}
    (h : ∀ l ∈ ls, isMarkerLine marker l = false) :
    substituteLines? marker payload (a ++ ls) =
      (substituteLines? marker payload a).map (· ++ ls) := by
  have hall : ∀ l ∈ ls, (!isMarkerLine marker l) = true := fun l hl => by rw [h l hl]; rfl
  induction a with
  | nil =>
    rw [List.nil_append, substituteLines?, Option.map_none]
    induction ls with
    | nil => rfl
    | cons l ls ih =>
      obtain ⟨hl, hrest⟩ := List.forall_mem_cons.1 h
      rw [substituteLines?, if_neg (by simp [hl]), ih hrest fun x hx =>
        hall x (List.mem_cons_of_mem l hx), Option.map_none]
  | cons l a ih =>
    rw [List.cons_append, substituteLines?, substituteLines?]
    split
    · rw [List.filter_append, List.filter_eq_self.2 hall, Option.map_some, List.append_assoc]
    · rw [ih, Option.map_map, Option.map_map]
      rfl

theorem replaceMarker?_append (payload : Text) (ht : Closed t) (hls : AllLines ls)
    (h : ∀ l ∈ ls, isMarkerLine marker l = false) :
    replaceMarker? marker payload (t ++ unlines ls) =
      (replaceMarker? marker payload t).map (· ++ unlines ls) := by
  unfold replaceMarker?
  rw [lines_append ht, hls.lines_unlines, substituteLines?_append h, Option.map_map,
    Option.map_map]
  congr 1
  funext a
  exact unlines_append a ls

theorem removeMarker_append (ht : Closed t) (hls : AllLines ls)
    (h : ∀ l ∈ ls, isMarkerLine marker l = false) :
    removeMarker marker (t ++ unlines ls) = removeMarker marker t ++ unlines ls := by
  have hall : ∀ l ∈ ls, (!isMarkerLine marker l) = true := fun l hl => by rw [h l hl]; rfl
  rw [removeMarker, removeMarker, lines_append ht, hls.lines_unlines, List.filter_append,
    List.filter_eq_self.2 hall, unlines_append]

theorem closed_of_replaceMarker? {payload t' : Text}
    (h : replaceMarker? marker payload t = some t') : Closed t' := by
  obtain ⟨ls, -, rfl⟩ := Option.map_eq_some_iff.1 h
  exact closed_unlines ls

end Recipe

/-! ## Normal form -/

namespace Recipe

theorem dedentFirst_append {ls : List Text} (h : ∀ l ∈ ls, isContent l = false) (a : List Text) :
    dedentFirst (a ++ ls) = dedentFirst a ++ ls := by
  induction a with
  | nil =>
    induction ls with
    | nil => rfl
    | cons l ls ih =>
      obtain ⟨hl, hrest⟩ := List.forall_mem_cons.1 h
      have htail : dedentFirst ls = ls := ih hrest
      simp [dedentFirst, hl, htail]
  | cons l a ih =>
    rw [List.cons_append, dedentFirst, dedentFirst]
    split
    · rfl
    · rw [ih, List.cons_append]

theorem dedentFirst_ne_nil {ls : List Text} (h : ls ≠ []) : dedentFirst ls ≠ [] := by
  obtain ⟨l, r, rfl⟩ := List.exists_cons_of_ne_nil h
  rw [dedentFirst]
  split <;> exact List.cons_ne_nil _ _

theorem joinLines_append_newline {ls : List Text} (h : ls ≠ []) :
    joinLines ls ++ ['\n'] = unlines ls := by
  obtain ⟨init, last, rfl⟩ := (List.eq_nil_or_concat' ls).resolve_left h
  rw [unlines_concat]

/-- A text without byte order mark. -/
def unmarked : Text → Text
  | '\ufeff' :: r => r
  | t => t

theorem normalize_eq_unmarked (t : Text) :
    normalize t =
      joinLines (dedentFirst (lines (replace ['\r', '\n'] ['\n'] (unmarked t)))) ++ ['\n'] := by
  cases t with
  | nil => rfl
  | cons c r =>
    by_cases hc : c = '\ufeff'
    · rw [hc]
      rfl
    · simp [normalize, unmarked, hc]

theorem normalize_eq {t : Text} (h : '\r' ∉ t) :
    normalize t = joinLines (dedentFirst (lines (unmarked t))) ++ ['\n'] := by
  have hunmarked : '\r' ∉ unmarked t := by
    unfold unmarked
    split
    · exact fun hmem => h (List.mem_cons_of_mem _ hmem)
    · exact h
  have hfree : ¬ ['\r', '\n'] <:+: unmarked t := fun hin => hunmarked (hin.subset (by simp))
  have hreplace : replace ['\r', '\n'] ['\n'] (unmarked t) = unmarked t :=
    replace_of_not_infix hfree
  rw [normalize_eq_unmarked, hreplace]

theorem unmarked_append_of_ne {a : Text} (ha : a ≠ []) (b : Text) :
    unmarked (a ++ b) = unmarked a ++ b := by
  obtain ⟨c, r, rfl⟩ := List.exists_cons_of_ne_nil ha
  by_cases hc : c = '\ufeff'
  · rw [hc]
    rfl
  · simp [unmarked, hc]

theorem unmarked_append {a b : Text} (hb : b.head? ≠ some '\ufeff') :
    unmarked (a ++ b) = unmarked a ++ b := by
  by_cases ha : a = []
  · rw [ha, List.nil_append]
    change unmarked b = b
    unfold unmarked
    split
    · simp at hb
    · rfl
  · exact unmarked_append_of_ne ha b

/-- A line that is put behind a recipe. If the recipe ends with a newline an empty line comes
before it. -/
theorem exists_lines_append {t l : Text} (ht : '\r' ∉ t) (hl : '\n' ∉ l ∧ bare l = l) :
    ∃ e, (∀ x ∈ e, x = []) ∧ lines (t ++ '\n' :: l ++ ['\n']) =
      (if lines t = [] then [[]] else lines t) ++ (e ++ [l]) := by
  have hone : lines (l ++ ['\n']) = [l] := by
    have hall : AllLines [l] := List.forall_mem_singleton.2 hl
    have hlines := hall.lines_unlines
    rwa [unlines, List.flatMap_singleton] at hlines
  have hsplit : t ++ '\n' :: l ++ ['\n'] = (t ++ ['\n']) ++ (l ++ ['\n']) := by simp
  rw [hsplit, lines_append (closed_append_newline t), hone]
  by_cases hnil : t = []
  · exact ⟨[], by simp, by rw [hnil]; rfl⟩
  · have hlines : lines t ≠ [] := by
      rw [lines, Ne, List.map_eq_nil_iff]
      exact segments_ne_nil hnil
    rw [if_neg hlines]
    by_cases hclosed : Closed t
    · refine ⟨[[]], by simp, ?_⟩
      rw [lines_append hclosed, List.append_assoc]
      rfl
    · refine ⟨[], by simp, ?_⟩
      rw [lines_append_newline ht hclosed]
      rfl

/-- A line without content that is put behind a recipe stands at the end of its normal form. -/
theorem exists_normalize_append {t l : Text} (ht : '\r' ∉ t) (hl : '\n' ∉ l ∧ '\r' ∉ l)
    (hcontent : isContent l = false) :
    ∃ e, (∀ x ∈ e, x = []) ∧
      normalize (t ++ '\n' :: l ++ ['\n']) = normalize t ++ unlines (e ++ [l]) := by
  have hunmarked : unmarked (t ++ '\n' :: l ++ ['\n']) = unmarked t ++ '\n' :: l ++ ['\n'] := by
    rw [List.append_assoc, unmarked_append (by simp), List.append_assoc]
  have hreturn : '\r' ∉ unmarked t := by
    unfold unmarked
    split
    · exact fun hmem => ht (List.mem_cons_of_mem _ hmem)
    · exact ht
  obtain ⟨e, he, hlines⟩ := exists_lines_append hreturn ⟨hl.1, bare_of_not_mem hl.2⟩
  have hblank : ∀ x ∈ e ++ [l], isContent x = false := by
    refine List.forall_mem_append.2 ⟨fun x hx => ?_, List.forall_mem_singleton.2 hcontent⟩
    rw [he x hx]
    rfl
  have hrecipe : normalize t =
      unlines (dedentFirst (if lines (unmarked t) = [] then [[]] else lines (unmarked t))) := by
    rw [normalize_eq ht]
    by_cases hnil : lines (unmarked t) = []
    · rw [if_pos hnil, hnil]
      rfl
    · rw [if_neg hnil, joinLines_append_newline (dedentFirst_ne_nil hnil)]
  refine ⟨e, he, ?_⟩
  rw [hrecipe, ← unlines_append, ← dedentFirst_append hblank, ← hlines,
    normalize_eq (by simp [ht, hl.2]), hunmarked]
  refine joinLines_append_newline (dedentFirst_ne_nil ?_)
  rw [hlines]
  simp

end Recipe

/-! ## User text -/

namespace UserText

variable {t : Text} {ls : List Text}

theorem closed_putBefore (before : Text) (ht : Closed t) : Closed (putBefore before t) := by
  unfold putBefore
  split
  · exact closed_unlines _
  · cases h : replaceMarker? userPreMarker before t with
    | some t' => exact closed_of_replaceMarker? h
    | none =>
      have hclosed := (closed_append_newline (before ++ ['\n'])).append ht
      rwa [List.append_assoc, List.append_assoc] at hclosed

theorem putBefore_append (before : Text) (ht : Closed t) (hls : AllLines ls)
    (h : ∀ l ∈ ls, isMarkerLine userPreMarker l = false) :
    putBefore before (t ++ unlines ls) = putBefore before t ++ unlines ls := by
  unfold putBefore
  split
  · exact removeMarker_append ht hls h
  · rw [replaceMarker?_append before ht hls h]
    cases replaceMarker? userPreMarker before t with
    | some t' => rfl
    | none => simp

theorem closed_putMarker (ht : Closed t) (marker : String × String) :
    Closed (putMarker t marker) := by
  unfold putMarker
  split
  · exact ht
  · next name _ =>
    cases h : replaceMarker? (customMarker (trimmed name).toList)
        (Text.trimEnd marker.2.toList) t with
    | some t' => exact closed_of_replaceMarker? h
    | none => exact ht

theorem putMarker_append (ht : Closed t) (hls : AllLines ls) {marker : String × String}
    (h : ∀ name ∈ nonBlank? (some marker.1), ∀ l ∈ ls,
      isMarkerLine (customMarker (trimmed name).toList) l = false) :
    putMarker (t ++ unlines ls) marker = putMarker t marker ++ unlines ls := by
  unfold putMarker
  cases hname : nonBlank? (some marker.1) with
  | none => rfl
  | some name =>
    dsimp only
    rw [replaceMarker?_append _ ht hls (h name hname)]
    cases replaceMarker? (customMarker (trimmed name).toList) (Text.trimEnd marker.2.toList) t <;>
      rfl

/-- The user text goes where it goes without the lines behind. -/
theorem inject_append (u : UserText) (ht : Closed t) (hls : AllLines ls)
    (hafter : Text.trimEnd u.after.toList = [])
    (hpre : ∀ l ∈ ls, isMarkerLine userPreMarker l = false)
    (hpost : ∀ l ∈ ls, isMarkerLine userPostMarker l = false)
    (hmarkers : ∀ marker ∈ u.markers.entries, ∀ name ∈ nonBlank? (some marker.1), ∀ l ∈ ls,
      isMarkerLine (customMarker (trimmed name).toList) l = false) :
    u.inject (t ++ unlines ls) = u.inject t ++ unlines ls ∧ Closed (u.inject t) := by
  have hremove : ∀ t, putAfter (Text.trimEnd u.after.toList) t = removeMarker userPostMarker t :=
    fun t => by rw [hafter]; rfl
  have hbefore := closed_putBefore (Text.trimEnd u.before.toList) ht
  unfold inject
  rw [putBefore_append _ ht hls hpre, hremove, hremove, removeMarker_append hbefore hls hpost]
  have hclosed : Closed (removeMarker userPostMarker
      (putBefore (Text.trimEnd u.before.toList) t)) := closed_unlines _
  generalize removeMarker userPostMarker _ = t' at hclosed ⊢
  generalize u.markers.entries = markers at hmarkers ⊢
  induction markers generalizing t' with
  | nil => exact ⟨rfl, hclosed⟩
  | cons marker markers ih =>
    obtain ⟨hmarker, hrest⟩ := List.forall_mem_cons.1 hmarkers
    rw [List.foldl_cons, List.foldl_cons, putMarker_append hclosed hls hmarker]
    exact ih _ (closed_putMarker hclosed marker) hrest

end UserText

end TouchPanel
