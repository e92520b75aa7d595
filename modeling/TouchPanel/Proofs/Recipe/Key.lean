import TouchPanel.Proofs.Text.Replace
import TouchPanel.Recipe.Section

/-!
# Keys at the margin

Whether a line opens a section does not depend on blanks at its end. Replacing a word by
quoted text neither makes such a line nor takes one away, unless the word stands in its key.
-/

namespace TouchPanel.Recipe

open Text

/-! ## Characters -/

theorem toNat_of_isAlphanum {c : Char} (h : c.isAlphanum = true) :
    48 ≤ c.toNat ∧ c.toNat ≤ 57 ∨ 65 ≤ c.toNat ∧ c.toNat ≤ 90 ∨ 97 ≤ c.toNat ∧ c.toNat ≤ 122 := by
  unfold Char.isAlphanum Char.isAlpha Char.isUpper Char.isLower Char.isDigit at h
  simp only [Bool.or_eq_true, Bool.and_eq_true, decide_eq_true_eq, ge_iff_le,
    UInt32.le_iff_toNat_le] at h
  have hval : c.toNat = c.val.toNat := rfl
  simp at h
  omega

theorem isKeyChar_bounds {c : Char} (h : isKeyChar c = true) : 45 ≤ c.toNat ∧ c.toNat ≤ 122 := by
  unfold isKeyChar at h
  simp only [Bool.or_eq_true, beq_iff_eq] at h
  rcases h with ((h | rfl) | rfl) | rfl
  · have := toNat_of_isAlphanum h
    omega
  all_goals decide

theorem isBlank_of_isKeyChar {c : Char} (h : isKeyChar c = true) : isBlank c = false := by
  obtain ⟨hlow, hhigh⟩ := isKeyChar_bounds h
  simp [isBlank]
  omega

theorem isKeyChar_of_isBlank {c : Char} (h : isBlank c = true) : isKeyChar c = false := by
  rw [← Bool.not_eq_true]
  intro hkey
  rw [isBlank_of_isKeyChar hkey] at h
  cases h

theorem isKeyChar_of_isKeyStart {c : Char} (h : isKeyStart c = true) : isKeyChar c = true := by
  unfold isKeyStart at h
  unfold isKeyChar Char.isAlphanum
  rcases Bool.or_eq_true_iff.1 h with h | h <;> simp [h]

theorem isKeyStart_of_isBlank {c : Char} (h : isBlank c = true) : isKeyStart c = false := by
  rw [← Bool.not_eq_true]
  intro hstart
  rw [isBlank_of_isKeyChar (isKeyChar_of_isKeyStart hstart)] at h
  cases h

/-! ## Lines that open a section -/

/-- Whether a text begins with the colon of a key, which may have blanks in front. -/
def opens (t : Text) : Bool :=
  match trimStart t with
  | ':' :: r => r.head?.all isBlank
  | _ => false

theorem topLevelKey?_eq (line : Text) :
    topLevelKey? line = if line.head?.any isKeyStart && opens (line.dropWhile isKeyChar)
      then some (line.takeWhile isKeyChar) else none := by
  unfold topLevelKey? opens
  by_cases hstart : line.head?.any isKeyStart = true
  · rw [if_pos hstart, hstart, Bool.true_and]
    generalize trimStart (line.dropWhile isKeyChar) = t
    cases t with
    | nil => rfl
    | cons c r =>
      by_cases hc : c = ':'
      · subst hc
        rfl
      · simp [hc]
  · simp [hstart]

theorem head?_of_topLevelKey? {line key : Text} (h : topLevelKey? line = some key) :
    line.head?.any isKeyStart = true := by
  rw [topLevelKey?_eq] at h
  by_contra hhead
  simp [hhead] at h

theorem topLevelKey?_of_head {line : Text} (h : ∀ c ∈ line.head?, isKeyStart c = false) :
    topLevelKey? line = none := by
  rw [Option.eq_none_iff_forall_ne_some]
  intro key hkey
  obtain ⟨c, hc, hstart⟩ := (Option.any_eq_true _ _).1 (head?_of_topLevelKey? hkey)
  rw [h c hc] at hstart
  cases hstart

theorem topLevelKey?_of_leadingBlanks {line : Text} (h : leadingBlanks line ≠ []) :
    topLevelKey? line = none := by
  refine topLevelKey?_of_head fun c hc => ?_
  cases line with
  | nil => cases hc
  | cons d r =>
    obtain rfl := Option.some.inj hc
    by_cases hblank : isBlank d = true
    · exact isKeyStart_of_isBlank hblank
    · exact absurd (List.takeWhile_cons_of_neg hblank) h

theorem topLevelKey?_of_allBlank {line : Text} (h : allBlank line = true) :
    topLevelKey? line = none := by
  refine topLevelKey?_of_head fun c hc => isKeyStart_of_isBlank ?_
  exact List.all_eq_true.1 h c (List.mem_of_mem_head? hc)

theorem topLevelKey?_of_isComment {line : Text} (h : isComment line = true) :
    topLevelKey? line = none := by
  by_cases hblank : leadingBlanks line = []
  · have hstart : trimStart line = line := by
      have := leadingBlanks_append_trimStart line
      rwa [hblank, List.nil_append] at this
    rw [isComment, hstart, beq_iff_eq] at h
    refine topLevelKey?_of_head fun c hc => ?_
    rw [h] at hc
    obtain rfl := Option.some.inj hc
    rfl
  · exact topLevelKey?_of_leadingBlanks hblank

theorem topLevelKey?_spec {line key : Text} (h : topLevelKey? line = some key) :
    key.all isKeyChar = true ∧ key.head?.any isKeyStart = true := by
  have hhead := head?_of_topLevelKey? h
  rw [topLevelKey?_eq] at h
  obtain ⟨-, hkey⟩ := Option.ite_none_right_eq_some.1 h
  obtain rfl := Option.some.inj hkey
  refine ⟨List.all_takeWhile, ?_⟩
  obtain ⟨c, hc, hstart⟩ := (Option.any_eq_true _ _).1 hhead
  obtain ⟨r, rfl⟩ := List.head?_eq_some_iff.1 hc
  rw [List.takeWhile_cons_of_pos (isKeyChar_of_isKeyStart hstart)]
  simpa using hstart

theorem prefix_of_topLevelKey? {line key : Text} (h : topLevelKey? line = some key) :
    key <+: line := by
  rw [topLevelKey?_eq] at h
  obtain ⟨-, hkey⟩ := Option.ite_none_right_eq_some.1 h
  obtain rfl := Option.some.inj hkey
  exact List.takeWhile_prefix _

theorem takeWhile_eq_nil_of_head? {t : Text} (h : ∀ c ∈ t.head?, isKeyChar c = false) :
    t.takeWhile isKeyChar = [] := by
  cases t with
  | nil => rfl
  | cons c t => exact List.takeWhile_cons_of_neg (by simp [h c rfl])

theorem dropWhile_eq_self_of_head? {t : Text} (h : ∀ c ∈ t.head?, isKeyChar c = false) :
    t.dropWhile isKeyChar = t := by
  cases t with
  | nil => rfl
  | cons c t => exact List.dropWhile_cons_of_neg (by simp [h c rfl])

/-- A key, blanks and a colon, and then nothing or a blank. -/
theorem topLevelKey?_key_gap {key gap rest : Text} (hkey : key.all isKeyChar = true)
    (hstart : key.head?.any isKeyStart = true) (hgap : allBlank gap = true)
    (hrest : rest.head?.all isBlank = true) :
    topLevelKey? (key ++ (gap ++ ':' :: rest)) = some key := by
  have hall : ∀ c ∈ key, isKeyChar c = true := List.all_eq_true.1 hkey
  have hhead : (key ++ (gap ++ ':' :: rest)).head?.any isKeyStart = true := by
    cases key with
    | nil => simp at hstart
    | cons c r => exact hstart
  have hnext : ∀ c ∈ (gap ++ ':' :: rest).head?, isKeyChar c = false := by
    intro c hc
    cases gap with
    | nil =>
      obtain rfl := Option.some.inj hc
      rfl
    | cons d gap =>
      obtain rfl := Option.some.inj hc
      exact isKeyChar_of_isBlank (List.all_eq_true.1 hgap d List.mem_cons_self)
  have htake : (key ++ (gap ++ ':' :: rest)).takeWhile isKeyChar = key := by
    rw [List.takeWhile_append_of_pos hall, takeWhile_eq_nil_of_head? hnext, List.append_nil]
  have hdrop : (key ++ (gap ++ ':' :: rest)).dropWhile isKeyChar = gap ++ ':' :: rest := by
    rw [List.dropWhile_append_of_pos hall, dropWhile_eq_self_of_head? hnext]
  have hopens : opens (gap ++ ':' :: rest) = true := by
    rw [opens, trimStart, List.dropWhile_append_of_pos (List.all_eq_true.1 hgap)]
    exact hrest
  rw [topLevelKey?_eq, hhead, htake, hdrop, hopens]
  rfl

theorem topLevelKey?_key_colon {key : Text} (hkey : key.all isKeyChar = true)
    (hstart : key.head?.any isKeyStart = true) {rest : Text}
    (hrest : rest.head?.all isBlank = true) :
    topLevelKey? (key ++ ':' :: rest) = some key :=
  topLevelKey?_key_gap hkey hstart (show allBlank [] = true from rfl) hrest

theorem newline_not_mem_key_colon {key : Text} (h : key.all isKeyChar = true) :
    '\n' ∉ key ++ [':'] := by
  intro hmem
  rw [List.mem_append, List.mem_singleton] at hmem
  rcases hmem with hmem | hmem
  · cases List.all_eq_true.1 h _ hmem
  · cases hmem

/-! ## Blanks at the end -/

theorem opens_append_blank (t : Text) {b : Text} (hb : allBlank b = true) :
    opens (t ++ b) = opens t := by
  have hall : ∀ c ∈ b, isBlank c = true := List.all_eq_true.1 hb
  have hnil : trimStart b = [] := List.dropWhile_eq_nil_iff.2 hall
  have hhead : b.head?.all isBlank = true := by
    cases b with
    | nil => rfl
    | cons c r => exact hall c List.mem_cons_self
  unfold opens
  rw [trimStart, List.dropWhile_append]
  change (match (if (trimStart t).isEmpty then trimStart b else trimStart t ++ b) with
    | ':' :: r => r.head?.all isBlank | _ => false) = _
  cases trimStart t with
  | nil => rw [hnil]; rfl
  | cons c r =>
    by_cases hc : c = ':'
    · subst hc
      cases r with
      | nil => exact hhead
      | cons d r => rfl
    · simp [hc]

theorem topLevelKey?_append_blank (l : Text) {b : Text} (hb : allBlank b = true) :
    topLevelKey? (l ++ b) = topLevelKey? l := by
  cases l with
  | nil => exact topLevelKey?_of_allBlank hb
  | cons c r =>
    have hall : ∀ d ∈ b, ¬ isKeyChar d = true := by
      intro d hd
      simp [isKeyChar_of_isBlank (List.all_eq_true.1 hb d hd)]
    have hb' : b.takeWhile isKeyChar = [] ∧ b.dropWhile isKeyChar = b := by
      cases b with
      | nil => exact ⟨rfl, rfl⟩
      | cons d b =>
        exact ⟨List.takeWhile_cons_of_neg (hall d List.mem_cons_self),
          List.dropWhile_cons_of_neg (hall d List.mem_cons_self)⟩
    have htake : (c :: r ++ b).takeWhile isKeyChar = (c :: r).takeWhile isKeyChar := by
      rw [List.takeWhile_append]
      split
      · next hlen => rw [hb'.1, List.append_nil, (List.takeWhile_prefix _).eq_of_length hlen]
      · rfl
    have hdrop : (c :: r ++ b).dropWhile isKeyChar = (c :: r).dropWhile isKeyChar ++ b := by
      rw [List.dropWhile_append]
      split
      · next hnil => rw [hb'.2, List.isEmpty_iff.1 hnil, List.nil_append]
      · rfl
    rw [topLevelKey?_eq, topLevelKey?_eq, htake, hdrop, opens_append_blank _ hb]
    rfl

theorem topLevelKey?_bare (l : Text) : topLevelKey? (bare l) = topLevelKey? l := by
  obtain ⟨b, hb, hl⟩ := exists_eq_bare_append l
  conv_rhs => rw [hl, topLevelKey?_append_blank _ hb]

theorem topLevelKey?_trimEnd (l : Text) : topLevelKey? (trimEnd l) = topLevelKey? l := by
  obtain ⟨b, hb, hl⟩ := exists_eq_trimEnd_append l
  conv_rhs => rw [hl, topLevelKey?_append_blank _ hb]

section Replace

variable {word fill : Text}

theorem opens_cons_blank {c : Char} (hc : isBlank c = true) (t : Text) :
    opens (c :: t) = opens t := by
  rw [opens, trimStart, List.dropWhile_cons_of_pos hc]
  rfl

theorem opens_cons_of_ne {c : Char} (hc : isBlank c = false) (hne : c ≠ ':') (t : Text) :
    opens (c :: t) = false := by
  rw [opens, trimStart, List.dropWhile_cons_of_neg (by simp [hc])]
  simp [hne]

theorem ne_colon_of_isKeyChar {c : Char} (hc : isKeyChar c = true) : c ≠ ':' := by
  rintro rfl
  cases hc

/-- A word of key characters, and a fill that begins with a quote. -/
structure IsQuoting (word fill : Text) : Prop where
  ne_nil : word ≠ []
  word_key : ∀ c ∈ word, isKeyChar c = true
  fill_head : ∃ r, fill = '"' :: r

theorem IsQuoting.head?_replace (h : IsQuoting word fill) (t : Text) :
    (replace word fill t).head?.all isBlank = t.head?.all isBlank := by
  obtain ⟨r, rfl⟩ := h.fill_head
  induction t using word_induction h.ne_nil with
  | nil => rfl
  | skip t _ =>
    obtain ⟨c, w, rfl⟩ := List.exists_cons_of_ne_nil h.ne_nil
    have hc := isBlank_of_isKeyChar (h.word_key c List.mem_cons_self)
    rw [replace_word_append h.ne_nil]
    exact hc.symm
  | cons c t hpre _ =>
    rw [replace_cons hpre]
    rfl

theorem IsQuoting.opens_replace (h : IsQuoting word fill) (t : Text) :
    opens (replace word fill t) = opens t := by
  obtain ⟨r, hfill⟩ := h.fill_head
  induction t using word_induction h.ne_nil with
  | nil => rfl
  | skip t _ =>
    obtain ⟨c, w, hword⟩ := List.exists_cons_of_ne_nil h.ne_nil
    have hc := h.word_key c (hword ▸ List.mem_cons_self)
    rw [replace_word_append h.ne_nil, hfill, hword, List.cons_append, List.cons_append,
      opens_cons_of_ne rfl (by decide),
      opens_cons_of_ne (isBlank_of_isKeyChar hc) (ne_colon_of_isKeyChar hc)]
  | cons c t hpre ih =>
    rw [replace_cons hpre]
    by_cases hc : isBlank c = true
    · rw [opens_cons_blank hc, opens_cons_blank hc, ih]
    · by_cases hcolon : c = ':'
      · subst hcolon
        exact h.head?_replace t
      · rw [opens_cons_of_ne (by simpa using hc) hcolon,
          opens_cons_of_ne (by simpa using hc) hcolon]

theorem IsQuoting.exists_of_infix (h : IsQuoting word fill) {ks : Text}
    (hks : ∀ c ∈ ks, isKeyChar c = true) (hin : word <:+: ks) (rest : Text) :
    ∃ a r, (∀ c ∈ a, isKeyChar c = true) ∧
      replace word fill (ks ++ rest) = a ++ '"' :: r := by
  obtain ⟨quoted, hfill⟩ := h.fill_head
  induction ks with
  | nil => exact absurd (List.infix_nil.1 hin) h.ne_nil
  | cons c ks ih =>
    rw [List.cons_append]
    by_cases hpre : word <+: c :: (ks ++ rest)
    · obtain ⟨t, ht⟩ := hpre
      refine ⟨[], quoted ++ replace word fill t, by simp, ?_⟩
      rw [← ht, replace_word_append h.ne_nil, hfill]
      rfl
    · have hrest : word <:+: ks := by
        rcases List.infix_cons_iff.1 hin with hp | hi
        · exact absurd (hp.trans (List.prefix_append _ rest)) hpre
        · exact hi
      obtain ⟨hc, hks'⟩ := List.forall_mem_cons.1 hks
      obtain ⟨a, r, ha, heq⟩ := ih hks' hrest
      refine ⟨c :: a, r, List.forall_mem_cons.2 ⟨hc, ha⟩, ?_⟩
      rw [replace_cons hpre, heq, List.cons_append]

theorem IsQuoting.replace_append (h : IsQuoting word fill) {ks rest : Text}
    (hin : ¬ word <:+: ks) (hrest : ∀ c ∈ rest.head?, isKeyChar c = false) :
    replace word fill (ks ++ rest) = ks ++ replace word fill rest := by
  induction ks with
  | nil => rfl
  | cons c ks ih =>
    -- a word of key characters does not reach beyond them
    have hpre : ¬ word <+: c :: (ks ++ rest) := by
      rw [← List.cons_append]
      intro hp
      rcases List.prefix_or_prefix_of_prefix hp (List.prefix_append (c :: ks) rest) with hw | hw
      · exact hin hw.isInfix
      · obtain ⟨tail, rfl⟩ := hw
        cases tail with
        | nil => exact hin (by simp)
        | cons d tail =>
          rw [List.prefix_append_right_inj] at hp
          obtain ⟨r, rfl⟩ := hp
          have hd := hrest d rfl
          rw [h.word_key d (by simp)] at hd
          cases hd
    have hin' : ¬ word <:+: ks := fun hi => hin (hi.trans (List.suffix_cons c ks).isInfix)
    rw [List.cons_append, replace_cons hpre, ih hin', List.cons_append]

theorem IsQuoting.head?_replace_of_not_key (h : IsQuoting word fill) {t : Text}
    (ht : ∀ c ∈ t.head?, isKeyChar c = false) : (replace word fill t).head? = t.head? := by
  cases t with
  | nil => rfl
  | cons c t =>
    have hpre : ¬ word <+: c :: t := by
      intro hp
      obtain ⟨d, w, rfl⟩ := List.exists_cons_of_ne_nil h.ne_nil
      obtain ⟨rfl, -⟩ := List.cons_prefix_cons.1 hp
      have hd := ht d rfl
      rw [h.word_key d List.mem_cons_self] at hd
      cases hd
    rw [replace_cons hpre]
    rfl

theorem IsQuoting.topLevelKey?_replace (h : IsQuoting word fill) {l : Text}
    (hl : ∀ key, topLevelKey? l = some key → ¬ word <:+: key) :
    topLevelKey? (replace word fill l) = topLevelKey? l := by
  have hsplit : l.takeWhile isKeyChar ++ l.dropWhile isKeyChar = l :=
    List.takeWhile_append_dropWhile
  have hks : ∀ c ∈ l.takeWhile isKeyChar, isKeyChar c = true := fun c hc =>
    List.mem_takeWhile_imp hc
  by_cases hin : word <:+: l.takeWhile isKeyChar
  · have hnone : topLevelKey? l = none := by
      rw [Option.eq_none_iff_forall_ne_some]
      intro key hkey
      have hin' := hl key hkey
      rw [topLevelKey?_eq] at hkey
      obtain ⟨-, heq⟩ := Option.ite_none_right_eq_some.1 hkey
      exact hin' (Option.some.inj heq ▸ hin)
    obtain ⟨a, r, ha, hreplace⟩ := h.exists_of_infix hks hin (l.dropWhile isKeyChar)
    rw [hsplit] at hreplace
    have hdrop : (a ++ '"' :: r).dropWhile isKeyChar = '"' :: r := by
      rw [List.dropWhile_append_of_pos ha]
      rfl
    rw [hnone, hreplace, topLevelKey?_eq, hdrop, opens_cons_of_ne rfl (by decide), Bool.and_false]
    rfl
  · have hhead : ∀ c ∈ (l.dropWhile isKeyChar).head?, isKeyChar c = false := by
      intro c hc
      have hnot := List.head?_dropWhile_not isKeyChar l
      rwa [Option.mem_def.1 hc] at hnot
    have hreplace : replace word fill l =
        l.takeWhile isKeyChar ++ replace word fill (l.dropWhile isKeyChar) := by
      conv_lhs => rw [← hsplit]
      exact h.replace_append hin hhead
    have hhead' : (replace word fill (l.dropWhile isKeyChar)).head? =
        (l.dropWhile isKeyChar).head? := h.head?_replace_of_not_key hhead
    have hboundary : ∀ c ∈ (replace word fill (l.dropWhile isKeyChar)).head?,
        isKeyChar c = false := by
      rw [hhead']
      exact hhead
    have htake : (replace word fill l).takeWhile isKeyChar = l.takeWhile isKeyChar := by
      rw [hreplace, List.takeWhile_append_of_pos hks, takeWhile_eq_nil_of_head? hboundary,
        List.append_nil]
    have hdrop : (replace word fill l).dropWhile isKeyChar =
        replace word fill (l.dropWhile isKeyChar) := by
      rw [hreplace, List.dropWhile_append_of_pos hks, dropWhile_eq_self_of_head? hboundary]
    have hhead'' : (replace word fill l).head? = l.head? := by
      conv_rhs => rw [← hsplit, List.head?_append]
      rw [hreplace, List.head?_append, hhead']
    rw [topLevelKey?_eq, topLevelKey?_eq, htake, hdrop, hhead'', h.opens_replace]

end Replace

end TouchPanel.Recipe
