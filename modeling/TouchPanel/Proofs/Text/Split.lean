import TouchPanel.Proofs.Text.Trim

/-!
# Splitting at newlines

The lines of a text are what stands between its newlines, up to carriage returns at their
ends. Trimming the end of a text drops the blank lines at its end and trims the last line
before them.
-/

namespace TouchPanel.Text

/-! ## Lines -/

theorem eq_chomp_append (l : Text) :
    ∃ b, (b = [] ∨ b = ['\r']) ∧ l = chomp (l ++ ['\n']) ++ b := by
  unfold chomp
  rw [List.reverse_append]
  cases hr : l.reverse with
  | nil => exact ⟨[], Or.inl rfl, by simpa using hr⟩
  | cons c r =>
    have hlast : l = r.reverse ++ [c] := by rw [← List.reverse_reverse l, hr, List.reverse_cons]
    by_cases hc : c = '\r'
    · exact ⟨['\r'], Or.inr rfl, by rw [hlast, hc]; rfl⟩
    · exact ⟨[], Or.inl rfl, by rw [hlast]; simp [hc]⟩

theorem bare_chomp (l : Text) : bare (chomp (l ++ ['\n'])) = bare l := by
  obtain ⟨b, rfl | rfl, hl⟩ := eq_chomp_append l
  · rw [List.append_nil] at hl
    exact congrArg bare hl.symm
  · conv_rhs => rw [hl, bare_append_return]

theorem chomp_of_not_mem {l : Text} (hl : '\n' ∉ l) : chomp l = l := by
  unfold chomp
  split
  · next h => exact absurd (by rw [← List.mem_reverse, h]; simp) hl
  · next h => exact absurd (by rw [← List.mem_reverse, h]; simp) hl
  · rfl

theorem segments_append_newline (t : Text) :
    segments (t ++ ['\n']) = (t.splitOn '\n').map (· ++ ['\n']) := by
  induction t with
  | nil => rfl
  | cons c t ih =>
    rw [List.splitOn_cons_eq_if_modifyHead, List.cons_append, segments, ih]
    obtain ⟨l, ls, hsplit⟩ := List.exists_cons_of_ne_nil (List.splitOn_ne_nil '\n' t)
    by_cases hc : c = '\n' <;> simp [hc, hsplit]

/-- What stands between newlines are the lines of a text that a newline ends. -/
theorem map_bare_lines (t : Text) :
    (lines (t ++ ['\n'])).map bare = (t.splitOn '\n').map bare := by
  rw [lines, segments_append_newline, List.map_map, List.map_map]
  exact List.map_congr_left fun l _ => bare_chomp l

theorem newline_not_mem_of_mem_splitOn {t l : Text} (h : l ∈ t.splitOn '\n') : '\n' ∉ l := by
  induction t generalizing l with
  | nil => simp_all
  | cons c t ih =>
    rw [List.splitOn_cons_eq_if_modifyHead] at h
    obtain ⟨m, ms, hsplit⟩ := List.exists_cons_of_ne_nil (List.splitOn_ne_nil '\n' t)
    by_cases hc : c = '\n'
    · simp only [hc, beq_self_eq_true, if_true, List.mem_cons] at h
      rcases h with rfl | h
      · simp
      · exact ih h
    · simp only [beq_iff_eq, hc, if_false, hsplit, List.modifyHead_cons, List.mem_cons] at h
      rcases h with rfl | h
      · have hm := ih (hsplit ▸ List.mem_cons_self)
        simp [Ne.symm hc, hm]
      · exact ih (hsplit ▸ List.mem_cons_of_mem _ h)

theorem segment_cases {t s : Text} (h : s ∈ segments t) :
    ∃ l, '\n' ∉ l ∧ (s = l ∨ s = l ++ ['\n']) := by
  induction t generalizing s with
  | nil => cases h
  | cons c t ih =>
    rw [segments] at h
    split at h
    · rcases List.mem_cons.1 h with rfl | h
      · exact ⟨[], by simp, Or.inr rfl⟩
      · exact ih h
    · next hc =>
      split at h
      · rw [List.mem_singleton.1 h]
        exact ⟨[c], by simp [Ne.symm hc], Or.inl rfl⟩
      · next m ms hsegments =>
        rcases List.mem_cons.1 h with rfl | h
        · obtain ⟨l, hl, hm⟩ := ih (hsegments ▸ List.mem_cons_self)
          refine ⟨c :: l, by simp [Ne.symm hc, hl], ?_⟩
          rcases hm with rfl | rfl
          · exact Or.inl rfl
          · exact Or.inr rfl
        · exact ih (hsegments ▸ List.mem_cons_of_mem _ h)

theorem newline_not_mem_of_mem_lines {t l : Text} (h : l ∈ lines t) : '\n' ∉ l := by
  obtain ⟨s, hs, rfl⟩ := List.mem_map.1 h
  obtain ⟨l, hl, rfl | rfl⟩ := segment_cases hs
  · rwa [chomp_of_not_mem hl]
  · obtain ⟨b, -, heq⟩ := eq_chomp_append l
    intro hmem
    exact hl (heq ▸ List.mem_append_left b hmem)

theorem allBlank_of_lines {t : Text} (h : ∀ l ∈ lines t, allBlank l = true) :
    allBlank t = true := by
  have hsegment : ∀ s ∈ segments t, allBlank s = true := by
    intro s hs
    have hchomp := h _ (List.mem_map_of_mem hs)
    obtain ⟨l, hl, rfl | rfl⟩ := segment_cases hs
    · rwa [chomp_of_not_mem hl] at hchomp
    · obtain ⟨b, hb, heq⟩ := eq_chomp_append l
      have hblank : allBlank b = true := by
        rcases hb with rfl | rfl <;> rfl
      rw [allBlank_append, heq, allBlank_append, hchomp, hblank]
      rfl
  rw [allBlank, List.all_eq_true, ← flatten_segments t]
  intro c hc
  obtain ⟨s, hs, hcs⟩ := List.mem_flatten.1 hc
  exact List.all_eq_true.1 (hsegment s hs) c hcs

theorem isLine_of_mem_map {ls : List Text} (h : ∀ l ∈ ls, '\n' ∉ l) :
    ∀ s ∈ ls.map (· ++ ['\n']), IsLine s := by
  intro s hs
  obtain ⟨l, hl, rfl⟩ := List.mem_map.1 hs
  exact ⟨l, h l hl, rfl⟩

theorem lines_unlines {ls : List Text} (h : ∀ l ∈ ls, '\n' ∉ l) :
    lines (unlines ls) = ls.map fun l => chomp (l ++ ['\n']) := by
  have hsegments := segments_flatten_append (isLine_of_mem_map h) []
  rw [List.append_nil, ← List.flatMap_def] at hsegments
  rw [lines, unlines, hsegments]
  simp [segments]

theorem map_bare_lines_unlines {ls : List Text} (h : ∀ l ∈ ls, '\n' ∉ l) :
    (lines (unlines ls)).map bare = ls.map bare := by
  rw [lines_unlines h, List.map_map]
  exact List.map_congr_left fun l _ => bare_chomp l

/-- The lines of a text, without carriage returns at their ends. -/
def bareLines (t : Text) : List Text := (lines t).map bare

/-! ## Joined lines -/

theorem joinLines_cons {l : Text} {ls : List Text} (h : ls ≠ []) :
    joinLines (l :: ls) = l ++ '\n' :: joinLines ls := by
  obtain ⟨m, ms, rfl⟩ := List.exists_cons_of_ne_nil h
  simp [joinLines, joinWith]

theorem joinWith_eq_intercalate (sep : Text) (ts : List Text) :
    joinWith sep ts = sep.intercalate ts := by
  induction ts with
  | nil => rfl
  | cons t ts ih =>
    cases ts with
    | nil => exact List.intercalate_singleton.symm
    | cons u ts => rw [joinWith, ih, List.intercalate_cons_cons]

theorem mem_joinWith {sep l : Text} {ls : List Text} {c : Char} (hl : l ∈ ls) (hc : c ∈ l) :
    c ∈ joinWith sep ls := by
  induction ls with
  | nil => cases hl
  | cons m ls ih =>
    cases ls with
    | nil => rwa [joinWith, ← List.mem_singleton.1 hl]
    | cons n ls =>
      rw [joinWith]
      rcases List.mem_cons.1 hl with rfl | hl
      · exact List.mem_append_left _ (List.mem_append_left _ hc)
      · exact List.mem_append_right _ (ih hl)

theorem splitOn_joinLines {ls : List Text} (h : ∀ l ∈ ls, '\n' ∉ l) (hne : ls ≠ []) :
    (joinLines ls).splitOn '\n' = ls := by
  rw [joinLines, joinWith_eq_intercalate, List.splitOn_intercalate '\n' h hne]

theorem joinLines_splitOn (t : Text) : joinLines (t.splitOn '\n') = t := by
  rw [joinLines, joinWith_eq_intercalate, List.intercalate_splitOn]

theorem joinLines_append {a b : List Text} (ha : a ≠ []) (hb : b ≠ []) :
    joinLines (a ++ b) = joinLines a ++ '\n' :: joinLines b := by
  induction a with
  | nil => exact absurd rfl ha
  | cons l a ih =>
    rw [List.cons_append, joinLines_cons (by simp [hb])]
    by_cases hnil : a = []
    · rw [hnil]
      rfl
    · rw [ih hnil, joinLines_cons hnil, List.append_assoc, List.cons_append]

theorem splitOn_append_newline (a b : Text) :
    (a ++ '\n' :: b).splitOn '\n' = a.splitOn '\n' ++ b.splitOn '\n' := by
  have hfree : ∀ l ∈ a.splitOn '\n' ++ b.splitOn '\n', '\n' ∉ l := fun l hl =>
    (List.mem_append.1 hl).elim newline_not_mem_of_mem_splitOn newline_not_mem_of_mem_splitOn
  have hjoin := joinLines_append (List.splitOn_ne_nil '\n' a) (List.splitOn_ne_nil '\n' b)
  rw [joinLines_splitOn, joinLines_splitOn] at hjoin
  rw [← hjoin, splitOn_joinLines hfree (by simp [List.splitOn_ne_nil])]

theorem joinLines_concat (init : List Text) (last : Text) :
    joinLines (init ++ [last]) = unlines init ++ last := by
  induction init with
  | nil => rfl
  | cons l init ih =>
    rw [List.cons_append, joinLines_cons (by simp), ih, unlines, unlines, List.flatMap_cons,
      List.append_assoc, List.append_assoc]
    rfl

/-- A text is closed lines and what follows the last newline. -/
theorem exists_splitOn_concat (t : Text) : ∃ init last, t.splitOn '\n' = init ++ [last] ∧
    t = unlines init ++ last ∧ (∀ l ∈ init, '\n' ∉ l) ∧ '\n' ∉ last := by
  obtain ⟨init, last, hsplit⟩ :=
    (List.eq_nil_or_concat' (t.splitOn '\n')).resolve_left (List.splitOn_ne_nil '\n' t)
  have hfree : ∀ l ∈ init ++ [last], '\n' ∉ l := fun l hl =>
    newline_not_mem_of_mem_splitOn (hsplit ▸ hl)
  refine ⟨init, last, hsplit, ?_, fun l hl => hfree l (List.mem_append_left _ hl),
    hfree last (List.mem_append_right _ List.mem_cons_self)⟩
  rw [← joinLines_concat, ← hsplit, joinLines_splitOn]

/-- A last line without a newline is a line as well. -/
theorem lines_unlines_append {init : List Text} {last : Text} (h : ∀ l ∈ init, '\n' ∉ l)
    (hlast : '\n' ∉ last) (hne : last ≠ []) :
    lines (unlines init ++ last) = lines (unlines init) ++ [last] := by
  have hsegments := segments_flatten_append (isLine_of_mem_map h)
  have hinit := hsegments []
  rw [List.append_nil] at hinit
  rw [lines, lines, unlines, List.flatMap_def, hsegments, hinit,
    segments_of_not_mem hne hlast, List.map_append, List.map_append, List.map_singleton,
    chomp_of_not_mem hlast]
  simp [segments]

theorem bareLines_prefix_append_newline (t : Text) : bareLines t <+: bareLines (t ++ ['\n']) := by
  obtain ⟨init, last, hsplit, hjoin, hinit, hfree⟩ := exists_splitOn_concat t
  have hlong : bareLines (t ++ ['\n']) = init.map bare ++ [bare last] := by
    rw [bareLines, map_bare_lines, hsplit, List.map_append, List.map_singleton]
  rw [hlong]
  by_cases hlast : last = []
  · have hshort : bareLines t = init.map bare := by
      rw [hjoin, hlast, List.append_nil, bareLines, map_bare_lines_unlines hinit]
    rw [hshort]
    exact List.prefix_append _ _
  · have hshort : bareLines t = init.map bare ++ [bare last] := by
      rw [hjoin, bareLines, lines_unlines_append hinit hfree hlast, List.map_append,
        map_bare_lines_unlines hinit, List.map_singleton]
    rw [hshort]

theorem bareLines_joinLines_isPrefix {ls : List Text} (h : ∀ l ∈ ls, '\n' ∉ l) :
    bareLines (joinLines ls) <+: ls.map bare := by
  by_cases hnil : ls = []
  · rw [hnil]
    exact List.prefix_rfl
  · have hpre := bareLines_prefix_append_newline (joinLines ls)
    rwa [bareLines.eq_def (_ ++ _), map_bare_lines, splitOn_joinLines h hnil] at hpre

theorem bareLines_dropNewlines_isPrefix (t : Text) :
    bareLines (dropEndWhile (· == '\n') t) <+: bareLines t := by
  have happend : ∀ a b : Text, (∀ c ∈ b, c = '\n') → bareLines a <+: bareLines (a ++ b) := by
    intro a b hb
    induction b generalizing a with
    | nil => rw [List.append_nil]
    | cons c b ih =>
      obtain ⟨rfl, hrest⟩ := List.forall_mem_cons.1 hb
      rw [← List.singleton_append, ← List.append_assoc]
      exact (bareLines_prefix_append_newline a).trans (ih (a ++ ['\n']) hrest)
  have hsplit : t = dropEndWhile (· == '\n') t ++ t.rtakeWhile (· == '\n') :=
    List.rdropWhile_append_rtakeWhile.symm
  conv_rhs => rw [hsplit]
  exact happend _ _ fun c hc => by simpa using List.mem_rtakeWhile_imp hc

/-- The lines without the blank ones at the end, the last of them trimmed. -/
def tidyEnd : List Text → List Text
  | [] => []
  | l :: r =>
    if r.all allBlank then (if allBlank l then [] else [trimEnd l]) else l :: tidyEnd r

theorem tidyEnd_eq_nil_iff {ls : List Text} : tidyEnd ls = [] ↔ ls.all allBlank = true := by
  induction ls with
  | nil => simp [tidyEnd]
  | cons l r ih =>
    rw [tidyEnd]
    split
    · next hr => split <;> simp_all
    · next hr => simp [hr]

theorem tidyEnd_append (a : List Text) {b : List Text} (hb : b.all allBlank = false) :
    tidyEnd (a ++ b) = a ++ tidyEnd b := by
  induction a with
  | nil => rfl
  | cons l a ih => rw [List.cons_append, tidyEnd, if_neg (by simp [hb]), ih, List.cons_append]

theorem tidyEnd_append_blank (a : List Text) {b : List Text} (hb : b.all allBlank = true) :
    tidyEnd (a ++ b) = tidyEnd a := by
  induction a with
  | nil => exact tidyEnd_eq_nil_iff.2 hb
  | cons l a ih =>
    rw [List.cons_append, tidyEnd, tidyEnd, ih, List.all_append, hb, Bool.and_true]

theorem tidyEnd_rdropWhile (ls : List Text) : tidyEnd (ls.rdropWhile allBlank) = tidyEnd ls := by
  have hsplit : ls = ls.rdropWhile allBlank ++ ls.rtakeWhile allBlank :=
    List.rdropWhile_append_rtakeWhile.symm
  have hblank : (ls.rtakeWhile allBlank).all allBlank = true :=
    List.all_eq_true.2 fun l hl => List.mem_rtakeWhile_imp hl
  conv_rhs => rw [hsplit, tidyEnd_append_blank _ hblank]

theorem tidyEnd_bare (ls : List Text) : tidyEnd (ls.map bare) = (tidyEnd ls).map bare := by
  have hall : ∀ ls : List Text, (ls.map bare).all allBlank = ls.all allBlank := fun ls => by
    rw [List.all_map, show allBlank ∘ bare = allBlank from funext allBlank_bare]
  induction ls with
  | nil => rfl
  | cons l r ih =>
    rw [List.map_cons, tidyEnd, tidyEnd, hall, allBlank_bare, trimEnd_bare, ih]
    split
    · split
      · rfl
      · rw [List.map_singleton, bare_trimEnd]
    · rfl

theorem allBlank_joinLines (ls : List Text) : allBlank (joinLines ls) = ls.all allBlank := by
  induction ls with
  | nil => rfl
  | cons l r ih =>
    by_cases hr : r = []
    · rw [hr]
      simp [joinLines, joinWith]
    · rw [joinLines_cons hr, allBlank_append, List.all_cons, ← ih]
      rfl

theorem trimEnd_joinLines (ls : List Text) : trimEnd (joinLines ls) = joinLines (tidyEnd ls) := by
  induction ls with
  | nil => rfl
  | cons l r ih =>
    by_cases hr : r = []
    · rw [hr, tidyEnd]
      split
      · split
        · next hl => exact trimEnd_eq_nil_iff.2 hl
        · rfl
      · simp_all
    · rw [joinLines_cons hr, tidyEnd]
      split
      · next hblank =>
        have hjoin : allBlank ('\n' :: joinLines r) = true := by
          rw [← allBlank_joinLines] at hblank
          simpa [allBlank] using And.intro (by decide : isBlank '\n' = true) hblank
        rw [trimEnd_append_blank _ hjoin]
        split
        · next hl => exact trimEnd_eq_nil_iff.2 hl
        · rfl
      · next hblank =>
        have hjoin : allBlank (joinLines r) = false := by
          rw [allBlank_joinLines]
          simpa using hblank
        have htidy : tidyEnd r ≠ [] := by
          rw [Ne, tidyEnd_eq_nil_iff]
          exact hblank
        rw [joinLines_cons htidy, ← ih, ← List.singleton_append, ← List.append_assoc,
          trimEnd_append_of_not_blank _ hjoin, List.append_assoc]
        rfl

end TouchPanel.Text
