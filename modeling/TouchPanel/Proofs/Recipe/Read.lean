import TouchPanel.Proofs.Document.Written
import TouchPanel.Proofs.Recipe.Append
import TouchPanel.Proofs.Recipe.Tail

/-!
# Lines that are read

Most comments of a recipe pass through its assembly unread. What is done to a recipe before it is
cut into sections shows in the lines that are read, and depends on these without the blanks at
their ends.
-/

namespace TouchPanel

open Text Recipe

/-! ## Choices of lines -/

namespace Text

variable {q : Text → Bool} {l t : Text} {ls : List Text}

/-- A choice of lines that sees neither blank lines nor the blanks at the end of a line. -/
structure IsChoice (q : Text → Bool) : Prop where
  nil : q [] = false
  trimEnd : ∀ l, q (trimEnd l) = q l

/-- The lines of a choice, without the blanks at their ends. -/
def chosen (q : Text → Bool) (ls : List Text) : List Text := (ls.filter q).map trimEnd

theorem chosen_append (q : Text → Bool) (a b : List Text) :
    chosen q (a ++ b) = chosen q a ++ chosen q b := by
  rw [chosen, List.filter_append, List.map_append]
  rfl

theorem chosen_cons_of_pos (h : q l = true) (r : List Text) :
    chosen q (l :: r) = trimEnd l :: chosen q r := by
  rw [chosen, List.filter_cons_of_pos h]
  rfl

theorem chosen_cons_of_neg (h : q l = false) (r : List Text) :
    chosen q (l :: r) = chosen q r := by
  rw [chosen, List.filter_cons_of_neg (by simp [h])]
  rfl

theorem bare_cons_bare (c : Char) (l : Text) : bare (c :: bare l) = bare (c :: l) := by
  obtain ⟨b, hb, hl⟩ := exists_eq_bare_append_returns l
  conv_rhs => rw [hl, ← List.cons_append, bare_append_returns _ hb]

/-- A carriage return in front of a newline belongs to the ending of a line. -/
theorem map_bare_splitOn_replace (t : Text) :
    ((replace ['\r', '\n'] ['\n'] t).splitOn '\n').map bare = (t.splitOn '\n').map bare := by
  have hnewline : ∀ t : Text, ('\n' :: t).splitOn '\n' = [] :: t.splitOn '\n' := fun t =>
    splitOn_append_newline [] t
  have hword : (['\r', '\n'] : Text) ≠ [] := by simp
  induction t using word_induction hword with
  | nil => rfl
  | skip t ih =>
    rw [replace_word_append (by simp), List.cons_append, List.nil_append, hnewline, List.map_cons,
      ih]
    exact congrArg (List.map bare) (splitOn_append_newline ['\r'] t).symm
  | cons c t hpre ih =>
    rw [replace_cons hpre]
    by_cases hc : c = '\n'
    · rw [hc, hnewline, hnewline, List.map_cons, List.map_cons, ih]
    · have hcons : ∀ t : Text, ((c :: t).splitOn '\n').map bare =
          ((t.splitOn '\n').map bare).modifyHead fun l => bare (c :: l) := by
        intro t
        obtain ⟨l, ls, hsplit⟩ := List.exists_cons_of_ne_nil (List.splitOn_ne_nil '\n' t)
        rw [List.splitOn_cons_eq_if_modifyHead]
        simp only [beq_iff_eq, hc, if_false, hsplit, List.modifyHead_cons, List.map_cons,
          bare_cons_bare]
      rw [hcons, hcons, ih]

theorem map_chosen_cons_of_pos (h : q l = true) (o : Option (List Text)) :
    (o.map (l :: ·)).map (chosen q) = (o.map (chosen q)).map (trimEnd l :: ·) := by
  rw [Option.map_map, Option.map_map]
  exact Option.map_congr fun r _ => chosen_cons_of_pos h r

theorem map_chosen_cons_of_neg (h : q l = false) (o : Option (List Text)) :
    (o.map (l :: ·)).map (chosen q) = o.map (chosen q) := by
  rw [Option.map_map]
  exact Option.map_congr fun r _ => chosen_cons_of_neg h r

theorem chosen_filter {p : Text → Bool} (hp : ∀ l, p (trimEnd l) = p l) (ls : List Text) :
    chosen q (ls.filter p) = (chosen q ls).filter p := by
  have hcomp : p ∘ trimEnd = p := funext hp
  rw [chosen, chosen, List.filter_map, hcomp, List.filter_filter, List.filter_filter]
  simp only [Bool.and_comm]

section

variable (hq : IsChoice q)

include hq

theorem IsChoice.of_allBlank (h : allBlank l = true) : q l = false := by
  rw [← hq.trimEnd, trimEnd_eq_nil_iff.2 h, hq.nil]

theorem chosen_of_allBlank (h : ∀ l ∈ ls, allBlank l = true) : chosen q ls = [] := by
  rw [chosen, List.filter_eq_nil_iff.2 fun l hl => by simp [hq.of_allBlank (h l hl)]]
  rfl

theorem chosen_map {f : Text → Text} (hf : ∀ l, trimEnd (f l) = trimEnd l) (ls : List Text) :
    chosen q (ls.map f) = chosen q ls := by
  have hcomp : q ∘ f = q := funext fun l => by
    rw [Function.comp_apply, ← hq.trimEnd, hf, hq.trimEnd]
  have htrim : trimEnd ∘ f = trimEnd := funext hf
  rw [chosen, List.filter_map, hcomp, List.map_map, htrim]
  rfl

theorem chosen_chosen (ls : List Text) : chosen q (chosen q ls) = chosen q ls := by
  conv_lhs => rw [chosen.eq_def q ls, chosen_map hq trimEnd_trimEnd, chosen, List.filter_filter]
  simp only [Bool.and_self]
  rfl

theorem chosen_tidyEnd (ls : List Text) : chosen q (tidyEnd ls) = chosen q ls := by
  induction ls with
  | nil => rfl
  | cons l r ih =>
    rw [tidyEnd]
    split
    · next hr =>
      have hrest : chosen q (l :: r) = chosen q [l] := by
        rw [← List.singleton_append, chosen_append,
          chosen_of_allBlank hq (List.all_eq_true.1 hr), List.append_nil]
      rw [hrest]
      split
      · next hl => exact (chosen_of_allBlank hq (by simpa using hl)).symm
      · exact chosen_map hq trimEnd_trimEnd [l]
    · rw [← List.singleton_append, chosen_append, ih, ← chosen_append]
      rfl

/-! ### Lines of a text -/

theorem chosen_bareLines (t : Text) : chosen q (bareLines t) = chosen q (lines t) :=
  chosen_map hq trimEnd_bare (lines t)

theorem chosen_lines_unlines (h : ∀ l ∈ ls, '\n' ∉ l) :
    chosen q (lines (unlines ls)) = chosen q ls := by
  rw [← chosen_bareLines hq, bareLines, map_bare_lines_unlines h, chosen_map hq trimEnd_bare]

theorem chosen_splitOn (t : Text) : chosen q (t.splitOn '\n') = chosen q (lines t) := by
  obtain ⟨init, last, hsplit, ht, hinit, hfree⟩ := exists_splitOn_concat t
  rw [hsplit, ht, chosen_append]
  by_cases hlast : last = []
  · rw [hlast, List.append_nil, chosen_lines_unlines hq hinit,
      chosen_cons_of_neg hq.nil]
    exact List.append_nil _
  · rw [lines_unlines_append hinit hfree hlast, chosen_append,
      chosen_lines_unlines hq hinit]

theorem chosen_lines_append_newline (t : Text) :
    chosen q (lines (t ++ ['\n'])) = chosen q (lines t) := by
  rw [← chosen_bareLines hq, bareLines, map_bare_lines, chosen_map hq trimEnd_bare,
    chosen_splitOn hq]

theorem chosen_lines_joinLines (h : ∀ l ∈ ls, '\n' ∉ l) :
    chosen q (lines (joinLines ls)) = chosen q ls := by
  by_cases hnil : ls = []
  · rw [hnil]
    rfl
  · rw [← chosen_splitOn hq, splitOn_joinLines h hnil]

theorem chosen_lines_trimEnd (t : Text) :
    chosen q (lines (trimEnd t)) = chosen q (lines t) := by
  have hfree : ∀ l ∈ tidyEnd (t.splitOn '\n'), '\n' ∉ l :=
    Document.newline_not_mem_tidyEnd fun l => newline_not_mem_of_mem_splitOn
  have hjoin : trimEnd t = joinLines (tidyEnd (t.splitOn '\n')) := by
    rw [← trimEnd_joinLines, joinLines_splitOn]
  rw [hjoin, chosen_lines_joinLines hq hfree, chosen_tidyEnd hq, chosen_splitOn hq]

theorem chosen_lines_replace (t : Text) :
    chosen q (lines (replace ['\r', '\n'] ['\n'] t)) = chosen q (lines t) := by
  rw [← chosen_splitOn hq, ← chosen_splitOn hq, ← chosen_map hq trimEnd_bare,
    map_bare_splitOn_replace t, chosen_map hq trimEnd_bare]

end

end Text

/-! ## What is read of a recipe -/

namespace Recipe

variable {l t t' : Text} {ls : List Text}

/-- Whether a line has the form of an insertion point. -/
def isInsertionPoint (l : Text) : Bool :=
  (after? "#__".toList (trim l)).any (endsWith "__".toList)

theorem isInsertionPoint_of_isMarkerLine {name : Text}
    (h : isMarkerLine (customMarker name) l = true) : isInsertionPoint l = true := by
  have htrim : trim l = "#__".toList ++ (name ++ "__".toList) := by
    rw [← List.append_assoc]
    exact beq_iff_eq.1 h
  have hend : endsWith "__".toList (name ++ "__".toList) = true := by
    rw [endsWith, List.reverse_append]
    exact startsWith_iff.2 ⟨name.reverse, rfl⟩
  rw [isInsertionPoint, after?_eq_some_iff.2 htrim]
  exact hend

/-- Whether a line is read: it is neither blank nor a comment, or it has the form of an insertion
point or holds the placeholder of the name. -/
def isRead (l : Text) : Bool :=
  isContent l || isInsertionPoint l || occurs deviceNamePlaceholder l

/-- The lines that are read in a recipe. -/
def readLines (t : Text) : List Text := chosen isRead (lines t)

theorem isRead_of_isContent (h : isContent l = true) : isRead l = true := by
  rw [isRead, h]
  rfl

theorem isRead_of_isMarkerLine {name : Text} (h : isMarkerLine (customMarker name) l = true) :
    isRead l = true := by
  rw [isRead, isInsertionPoint_of_isMarkerLine h, Bool.or_true]
  rfl

theorem trimStart_trimEnd (l : Text) : trimStart (trimEnd l) = trim l := by
  cases hblank : allBlank l with
  | true =>
    rw [trimEnd_eq_nil_iff.2 hblank, trim, trimStart_of_allBlank hblank]
    rfl
  | false =>
    have hstart : allBlank (trimStart l) = false := by
      rw [← hblank, ← leadingBlanks_append_trimStart l, allBlank_append,
        Document.allBlank_leadingBlanks, leadingBlanks_append_trimStart]
      rfl
    have hend : trimEnd l = leadingBlanks l ++ trim l := by
      conv_lhs => rw [← leadingBlanks_append_trimStart l, trimEnd_append_of_not_blank _ hstart]
      rfl
    rw [hend, trimStart, List.dropWhile_append_of_pos fun c hc => List.mem_takeWhile_imp hc]
    exact trimStart_trim l

theorem startsWith_trim {word : Text} (hword : word.getLast?.any isBlank = false) (l : Text) :
    startsWith word (trim l) = startsWith word (trimStart l) := by
  obtain ⟨b, hb, hl⟩ := exists_eq_trimEnd_append (trimStart l)
  rw [Bool.eq_iff_iff, startsWith_iff_isPrefix, startsWith_iff_isPrefix]
  conv_rhs => rw [hl]
  exact (prefix_append_blank_iff hword hb).symm

theorem head?_trim (l : Text) : (trim l).head? = (trimStart l).head? := by
  cases hblank : allBlank l with
  | true =>
    rw [trim, trimStart_of_allBlank hblank]
    rfl
  | false =>
    obtain ⟨c, r, hstart, hc⟩ := Document.exists_cons_trimStart hblank
    have hword : startsWith [c] (trim l) = true := by
      rw [startsWith_trim (by simpa using hc), hstart]
      exact startsWith_iff.2 ⟨r, rfl⟩
    obtain ⟨rest, hrest⟩ := startsWith_iff.1 hword
    rw [hrest, hstart]
    rfl

theorem occurs_trimEnd {word : Text} (hne : word ≠ []) (hword : word.any isBlank = false)
    (l : Text) : occurs word (trimEnd l) = occurs word l := by
  obtain ⟨b, hb, hl⟩ := exists_eq_trimEnd_append l
  rw [Bool.eq_iff_iff, occurs_iff_infix, occurs_iff_infix]
  refine ⟨fun h => h.trans (trimEnd_isPrefix l).isInfix, fun h => ?_⟩
  rw [hl] at h
  refine infix_of_infix_append hne (fun c hc hmem => ?_) h
  exact List.any_eq_false.1 hword c hmem (List.all_eq_true.1 hb c hc)

theorem allBlank_trimEnd (l : Text) : allBlank (trimEnd l) = allBlank l := by
  rw [Bool.eq_iff_iff, ← trimEnd_eq_nil_iff, ← trimEnd_eq_nil_iff, trimEnd_trimEnd]

theorem leadingBlanks_trimEnd (h : allBlank l = false) :
    leadingBlanks (trimEnd l) = leadingBlanks l := by
  obtain ⟨b, -, hl⟩ := exists_eq_trimEnd_append l
  conv_rhs => rw [hl, leadingBlanks_append ((allBlank_trimEnd l).trans h)]

theorem isChoice_isContent : IsChoice isContent where
  nil := rfl
  trimEnd l := by
    rw [isContent, isContent, allBlank_trimEnd, isComment, isComment, trimStart_trimEnd,
      head?_trim]

theorem isChoice_isRead : IsChoice isRead where
  nil := by decide
  trimEnd l := by
    rw [isRead, isRead, isChoice_isContent.trimEnd, isInsertionPoint, isInsertionPoint,
      trim_trimEnd, occurs_trimEnd (by decide) (by decide)]

theorem isInner_of_not_isRead (h : isRead l = false) : isInner l = true := by
  refine isInner_iff.2 ?_
  have hcontent : isContent l = false := by
    rw [← Bool.not_eq_true]
    intro hcontent
    rw [isRead_of_isContent hcontent] at h
    cases h
  rw [isContent, Bool.and_eq_false_iff, Bool.not_eq_false', Bool.not_eq_false'] at hcontent
  exact hcontent.elim topLevelKey?_of_allBlank topLevelKey?_of_isComment

/-! ## Normal form -/

theorem chosen_dedentFirst {q : Text → Bool} (hq : IsChoice q)
    (hcontent : ∀ l, isContent l = true → q l = true) (ls : List Text) :
    chosen q (dedentFirst ls) = chosen q (dedentFirst (chosen q ls)) := by
  induction ls with
  | nil => rfl
  | cons l r ih =>
    cases hl : isContent l with
    | true =>
      have htrim : isContent (trimEnd l) = true := (isChoice_isContent.trimEnd l).trans hl
      rw [chosen_cons_of_pos (hcontent l hl), dedentFirst, dedentFirst, if_pos hl, if_pos htrim,
        trimStart_trimEnd, startsWith_trim (by decide)]
      split
      · have hsame : chosen q [trim l] = chosen q [trimStart l] :=
          chosen_map hq trimEnd_trimEnd [trimStart l]
        rw [← List.singleton_append, ← List.singleton_append (l := chosen q r), chosen_append,
          chosen_append, hsame, chosen_chosen hq]
      · rw [chosen_cons_of_pos (hcontent l hl), chosen_cons_of_pos (hcontent _ htrim),
          trimEnd_trimEnd, chosen_chosen hq]
    | false =>
      have hstep : dedentFirst (l :: r) = l :: dedentFirst r := by rw [dedentFirst, hl]; rfl
      rw [hstep]
      cases hql : q l with
      | false => rw [chosen_cons_of_neg hql, chosen_cons_of_neg hql, ih]
      | true =>
        have hstep' : dedentFirst (trimEnd l :: chosen q r) =
            trimEnd l :: dedentFirst (chosen q r) := by
          rw [dedentFirst, isChoice_isContent.trimEnd, hl]
          rfl
        rw [chosen_cons_of_pos hql, chosen_cons_of_pos hql, hstep',
          chosen_cons_of_pos ((hq.trimEnd l).trans hql), trimEnd_trimEnd, ih]

theorem newline_not_mem_dedentFirst (h : ∀ l ∈ ls, '\n' ∉ l) : ∀ l ∈ dedentFirst ls, '\n' ∉ l := by
  induction ls with
  | nil => exact h
  | cons l r ih =>
    obtain ⟨hl, hr⟩ := List.forall_mem_cons.1 h
    rw [dedentFirst]
    split
    · refine List.forall_mem_cons.2 ⟨?_, hr⟩
      split
      · exact fun hmem => hl ((List.dropWhile_suffix _).subset hmem)
      · exact hl
    · exact List.forall_mem_cons.2 ⟨hl, ih hr⟩

theorem readLines_normalize_eq (t : Text) :
    readLines (normalize t) = chosen isRead (dedentFirst (readLines (unmarked t))) := by
  have hfree : ∀ l ∈ dedentFirst (lines (replace ['\r', '\n'] ['\n'] (unmarked t))), '\n' ∉ l :=
    newline_not_mem_dedentFirst fun l => newline_not_mem_of_mem_lines
  rw [normalize_eq_unmarked, readLines, chosen_lines_append_newline isChoice_isRead,
    chosen_lines_joinLines isChoice_isRead hfree,
    chosen_dedentFirst isChoice_isRead fun _ => isRead_of_isContent,
    chosen_lines_replace isChoice_isRead]
  rfl

theorem readLines_normalize (h : readLines (unmarked t') = readLines (unmarked t)) :
    readLines (normalize t') = readLines (normalize t) := by
  rw [readLines_normalize_eq, readLines_normalize_eq, h]

theorem readLines_append (ht : Closed t) (u : Text) :
    readLines (t ++ u) = readLines t ++ readLines u := by
  rw [readLines, lines_append ht, chosen_append]
  rfl

/-- A line that is not read leaves no trace among those that are. -/
theorem readLines_insert {a c : Text} (ha : Closed a) (hne : a ≠ []) (hc : '\n' ∉ c)
    (hread : isRead c = false) (b : Text) :
    readLines (unmarked (a ++ (c ++ '\n' :: b))) = readLines (unmarked (a ++ b)) := by
  have hunmarked : Closed (unmarked a) := by
    unfold unmarked
    split
    · exact ha.of_cons
    · exact ha
  have hline : readLines (c ++ ['\n']) = [] := by
    have hone : chosen isRead (lines (unlines [c])) = chosen isRead [c] :=
      chosen_lines_unlines isChoice_isRead (List.forall_mem_singleton.2 hc)
    rw [unlines, List.flatMap_singleton] at hone
    rw [readLines, hone, chosen_cons_of_neg hread]
    rfl
  have hsplit : c ++ '\n' :: b = (c ++ ['\n']) ++ b := by simp
  rw [unmarked_append_of_ne hne, unmarked_append_of_ne hne, readLines_append hunmarked,
    readLines_append hunmarked, hsplit, readLines_append (closed_append_newline c), hline,
    List.nil_append]

/-! ## Insertion points -/

theorem map_chosen_substituteLines? {q : Text → Bool} (hq : IsChoice q) {marker : Text}
    (hne : marker ≠ []) (hmarker : ∀ l, isMarkerLine marker l = true → q l = true)
    (payload ls : List Text) :
    (substituteLines? marker payload ls).map (chosen q) =
      (substituteLines? marker payload (chosen q ls)).map (chosen q) := by
  have htrim : ∀ l, isMarkerLine marker (trimEnd l) = isMarkerLine marker l := fun l => by
    rw [isMarkerLine, isMarkerLine, trim_trimEnd]
  have hfilter : ∀ ls : List Text, chosen q (ls.filter (!isMarkerLine marker ·)) =
      (chosen q ls).filter (!isMarkerLine marker ·) := fun ls => chosen_filter (by simp [htrim]) ls
  induction ls with
  | nil => rfl
  | cons l r ih =>
    cases hl : isMarkerLine marker l with
    | true =>
      have hindent : indentLike (trimEnd l) = indentLike l := by
        funext x
        rw [indentLike, indentLike, leadingBlanks_trimEnd (allBlank_of_isMarkerLine hne hl)]
      rw [chosen_cons_of_pos (hmarker l hl), substituteLines?, substituteLines?, if_pos hl,
        if_pos ((htrim l).trans hl), hindent, Option.map_some, Option.map_some, chosen_append,
        chosen_append, hfilter, hfilter, chosen_chosen hq]
    | false =>
      have hstep : ∀ {x} (r : List Text), isMarkerLine marker x = false →
          substituteLines? marker payload (x :: r) =
            (substituteLines? marker payload r).map (x :: ·) := by
        intro x r hx
        rw [substituteLines?, hx]
        rfl
      rw [hstep r hl]
      cases hql : q l with
      | false => rw [map_chosen_cons_of_neg hql, chosen_cons_of_neg hql, ih]
      | true =>
        rw [map_chosen_cons_of_pos hql, chosen_cons_of_pos hql, hstep _ ((htrim l).trans hl),
          map_chosen_cons_of_pos ((hq.trimEnd l).trans hql), trimEnd_trimEnd, ih]

theorem pagesMarker_eq : pagesMarker = customMarker "LVGL_PAGES".toList := rfl

theorem bindingsMarker_eq : bindingsMarker = customMarker "HA_BINDINGS".toList := rfl

theorem userPreMarker_eq : userPreMarker = customMarker "USER_YAML_PRE".toList := rfl

theorem userPostMarker_eq : userPostMarker = customMarker "USER_YAML_POST".toList := rfl

theorem map_readLines_replaceMarker? {marker name : Text} (hmarker : marker = customMarker name)
    (payload t : Text) :
    (replaceMarker? marker payload t).map readLines =
      (substituteLines? marker (lines (dropEndWhile (· == '\n') payload)) (readLines t)).map
        (chosen isRead) := by
  have hne : marker ≠ [] := by simp [hmarker, customMarker]
  have hread : ∀ l, isMarkerLine marker l = true → isRead l = true := fun l h =>
    isRead_of_isMarkerLine (hmarker ▸ h)
  rw [replaceMarker?, Option.map_map, readLines,
    ← map_chosen_substituteLines? isChoice_isRead hne hread]
  refine Option.map_congr fun out hout => chosen_lines_unlines isChoice_isRead ?_
  exact newline_not_mem_substituteLines? (fun l => newline_not_mem_of_mem_lines)
    (fun l => newline_not_mem_of_mem_lines) hout

theorem readLines_replaceMarker? {marker name : Text} (hmarker : marker = customMarker name)
    (payload : Text) (h : readLines t' = readLines t) :
    (replaceMarker? marker payload t').map readLines =
      (replaceMarker? marker payload t).map readLines := by
  rw [map_readLines_replaceMarker? hmarker, map_readLines_replaceMarker? hmarker, h]

theorem readLines_replaceMarker?_getD {marker name : Text} (hmarker : marker = customMarker name)
    (payload : Text) (h : readLines t' = readLines t) {u u' : Text}
    (hu : readLines u' = readLines u) :
    readLines ((replaceMarker? marker payload t').getD u') =
      readLines ((replaceMarker? marker payload t).getD u) := by
  rw [← Option.getD_map readLines, ← Option.getD_map readLines,
    readLines_replaceMarker? hmarker payload h, hu]

theorem readLines_removeMarker (marker : Text) (h : readLines t' = readLines t) :
    readLines (removeMarker marker t') = readLines (removeMarker marker t) := by
  have hremove : ∀ t, readLines (removeMarker marker t) =
      (readLines t).filter (!isMarkerLine marker ·) := by
    intro t
    rw [readLines, removeMarker, chosen_lines_unlines isChoice_isRead fun l hl =>
      newline_not_mem_of_mem_lines (List.mem_of_mem_filter hl)]
    exact chosen_filter (fun l => by rw [isMarkerLine, isMarkerLine, trim_trimEnd]) (lines t)
  rw [hremove, hremove, h]

end Recipe

/-! ## User text -/

namespace UserText

variable {t t' : Text}

theorem readLines_putBefore (before : Text) (h : readLines t' = readLines t) :
    readLines (putBefore before t') = readLines (putBefore before t) := by
  unfold putBefore
  split
  · exact readLines_removeMarker _ h
  · have hfront : ∀ t, readLines (before ++ '\n' :: '\n' :: t) =
        readLines (before ++ ['\n'] ++ ['\n']) ++ readLines t := fun t => by
      rw [← readLines_append (closed_append_newline _)]
      simp
    refine readLines_replaceMarker?_getD userPreMarker_eq before h ?_
    rw [hfront, hfront, h]

theorem readLines_putAfter (after : Text) (h : readLines t' = readLines t) :
    readLines (putAfter after t') = readLines (putAfter after t) := by
  unfold putAfter
  split
  · exact readLines_removeMarker _ h
  · have htrim : ∀ t, readLines (Text.trimEnd t ++ ['\n']) = readLines t := fun t => by
      rw [readLines, chosen_lines_append_newline isChoice_isRead,
        chosen_lines_trimEnd isChoice_isRead]
      rfl
    have hfront : ∀ t, readLines (Text.trimEnd t ++ '\n' :: '\n' :: after ++ ['\n']) =
        readLines t ++ readLines ('\n' :: after ++ ['\n']) := fun t => by
      rw [← htrim t, ← readLines_append (closed_append_newline _)]
      simp
    refine readLines_replaceMarker?_getD userPostMarker_eq after h ?_
    rw [hfront, hfront, h]

theorem readLines_putMarker (marker : String × String) (h : readLines t' = readLines t) :
    readLines (putMarker t' marker) = readLines (putMarker t marker) := by
  unfold putMarker
  split
  · exact h
  · exact readLines_replaceMarker?_getD rfl _ h h

/-- The user text goes where the lines that are read put it. -/
theorem readLines_inject (u : UserText) (h : readLines t' = readLines t) :
    readLines (u.inject t') = readLines (u.inject t) := by
  have hrest := readLines_putAfter (Text.trimEnd u.after.toList)
    (readLines_putBefore (Text.trimEnd u.before.toList) h)
  unfold inject
  generalize putAfter _ (putBefore _ t') = v' at hrest ⊢
  generalize putAfter _ (putBefore _ t) = v at hrest ⊢
  generalize u.markers.entries = markers
  induction markers generalizing v v' with
  | nil => exact hrest
  | cons marker markers ih => exact ih _ _ (readLines_putMarker marker hrest)

end UserText

end TouchPanel
