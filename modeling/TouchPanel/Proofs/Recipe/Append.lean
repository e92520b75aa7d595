import TouchPanel.Proofs.Recipe.Parts

/-!
# Adding entries to a section

Entries are put among the lines of a section and leave the others as they are, but for an
empty list on the line of the key.
-/

namespace TouchPanel.Recipe

open Text

namespace Section

variable {s s' : Section} {entries : List Node} {l key : Text} {r : List Text}

/-- The indentation of entries in a section that can take them. -/
def entryIndent? (s : Section) : Option Nat :=
  match s.firstChild? with
  | some line => if isListItem line then some (indentOf line) else none
  | none => some 2

/-- The lines of a section, without an empty list on the line of the key. -/
def openedLines (s : Section) : List Text :=
  match s.key, s.lines with
  | some key, first :: r => (if s.inlineValue.isEmpty then first else key ++ [':']) :: r
  | _, lines => lines

theorem append?_eq (s : Section) (entries : List Node) :
    s.append? entries =
      if !s.inlineValue.isEmpty && s.inlineValue != ['[', ']'] then none
      else s.entryIndent?.map fun n =>
        { s with lines := (splitTail s.openedLines).1 ++ Text.lines (Node.renderList entries n) ++
          (splitTail s.openedLines).2 } := by
  unfold append? entryIndent?
  dsimp only
  by_cases hinline : (!s.inlineValue.isEmpty && s.inlineValue != ['[', ']']) = true
  · rw [if_pos hinline, if_pos hinline]
    rfl
  · rw [if_neg hinline, if_neg hinline]
    cases s.firstChild? with
    | none => rfl
    | some line =>
      dsimp only
      by_cases hitem : isListItem line = true
      · rw [if_pos hitem, if_pos hitem]
        rfl
      · rw [if_neg hitem, if_neg hitem]
        rfl

theorem append?_eq_some (h : s.append? entries = some s') :
    (s.inlineValue = [] ∨ s.inlineValue = ['[', ']']) ∧ ∃ n, s.entryIndent? = some n ∧
      { s with lines := (splitTail s.openedLines).1 ++ Text.lines (Node.renderList entries n) ++
        (splitTail s.openedLines).2 } = s' := by
  rw [append?_eq] at h
  obtain ⟨hinline, h⟩ := Option.ite_none_left_eq_some.1 h
  obtain ⟨n, hn, heq⟩ := Option.map_eq_some_iff.1 h
  refine ⟨?_, n, hn, heq⟩
  by_cases hempty : s.inlineValue = []
  · exact Or.inl hempty
  · exact Or.inr (by simpa [hempty] using hinline)

theorem append?_key (h : s.append? entries = some s') : s'.key = s.key := by
  obtain ⟨-, n, -, rfl⟩ := append?_eq_some h
  rfl

theorem splitTail_cons (l : Text) (r : List Text) :
    ∃ body tail, r = body ++ tail ∧ splitTail (l :: r) = (l :: body, tail) := by
  unfold splitTail
  dsimp only
  generalize ((l :: r).reverse.dropWhile _).length = count
  obtain ⟨n, hn⟩ : ∃ n, (if count = 0 then 1 else count) = n + 1 := by
    refine ⟨count - 1, ?_⟩
    split <;> omega
  rw [hn, List.splitAt_eq]
  exact ⟨r.take n, r.drop n, (List.take_append_drop n r).symm, rfl⟩

/-- The lines of a section with a key that took entries. -/
theorem IsKeyed.append?_lines (hs : s.IsKeyed key l r) (h : s.append? entries = some s') :
    ∃ n head body tail, s.entryIndent? = some n ∧ r = body ++ tail ∧
      (head = l ∨ s.inlineValue = ['[', ']'] ∧ head = key ++ [':']) ∧
      s' = { s with
        lines := head :: (body ++ (Text.lines (Node.renderList entries n) ++ tail)) } := by
  obtain ⟨hinline, n, hn, rfl⟩ := append?_eq_some h
  obtain ⟨head, hopened, hhead⟩ : ∃ head, s.openedLines = head :: r ∧
      (head = l ∨ s.inlineValue = ['[', ']'] ∧ head = key ++ [':']) := by
    unfold openedLines
    rw [hs.key_eq, hs.lines_eq]
    rcases hinline with hinline | hinline
    · exact ⟨l, by rw [hinline]; rfl, Or.inl rfl⟩
    · exact ⟨key ++ [':'], by rw [hinline]; rfl, Or.inr ⟨hinline, rfl⟩⟩
  obtain ⟨body, tail, hr, hsplit⟩ := splitTail_cons head r
  refine ⟨n, head, body, tail, hn, hr, hhead, ?_⟩
  rw [hopened, hsplit]
  simp

/-- A section with a key keeps it when it takes lines that open no section. -/
theorem IsKeyed.append? (hs : s.IsKeyed key l r) (h : s.append? entries = some s')
    (hentries : ∀ n, ∀ x ∈ Text.lines (Node.renderList entries n), isInner x = true) :
    ∃ l' r', s'.IsKeyed key l' r' := by
  obtain ⟨n, head, body, tail, -, hr, hhead, rfl⟩ := hs.append?_lines h
  have hinner : ∀ x ∈ body ++ tail, isInner x = true := hr ▸ hs.tail
  refine ⟨head, _, hs.key_eq, rfl, ?_, fun x hx => ?_⟩
  · rcases hhead with rfl | ⟨-, rfl⟩
    · exact hs.head
    · obtain ⟨hkey, hstart⟩ := topLevelKey?_spec hs.head
      exact topLevelKey?_key_colon hkey hstart rfl
  · simp only [List.mem_append] at hx hinner
    rcases hx with hx | hx | hx
    · exact hinner x (Or.inl hx)
    · exact hentries n x hx
    · exact hinner x (Or.inr hx)

end Section

/-! ## The indentation of entries -/

open Section (isListItem)

variable {s : Section} {l : Text} {ls : List Text}

theorem isContent_of_head? {c : Char} (h : (trimStart l).head? = some c) (hc : c ≠ '#') :
    isContent l = true := by
  have hblank : allBlank l = false := by
    rw [← Bool.not_eq_true]
    intro hblank
    rw [trimStart_of_allBlank hblank] at h
    cases h
  have hcomment : isComment l = false := by
    rw [isComment, h]
    simpa using hc
  rw [isContent, hblank, hcomment]
  rfl

theorem not_allBlank_of_isContent (h : isContent l = true) : allBlank l = false := by
  rw [isContent, Bool.and_eq_true, Bool.not_eq_true'] at h
  exact h.1

theorem isListItem_append_blank (l : Text) {b : Text} (hb : allBlank b = true) :
    isListItem (l ++ b) = isListItem l := by
  cases hblank : allBlank l with
  | true =>
    have hall : allBlank (l ++ b) = true := by rw [allBlank_append, hblank, hb]; rfl
    rw [isListItem, isListItem, trim_append_blank l hb, trimStart_of_allBlank hblank,
      trimStart_of_allBlank hall]
  | false =>
    rw [isListItem, isListItem, trim_append_blank l hb, trimStart_append hblank, Bool.eq_iff_iff,
      Bool.or_eq_true, Bool.or_eq_true, startsWith_iff_isPrefix, startsWith_iff_isPrefix]
    refine ⟨fun h => h.elim (fun h => ?_) Or.inr, fun h => h.imp ?_ id⟩
    · rcases List.prefix_or_prefix_of_prefix h (List.prefix_append (trimStart l) b) with h' | h'
      · exact Or.inl h'
      · -- the dash is all that there is besides blanks
        have htrim : trim l = trimEnd (trimStart l) := rfl
        have hne : trimStart l ≠ [] := by
          intro hnil
          have hsplit := leadingBlanks_append_trimStart l
          rw [hnil, List.append_nil] at hsplit
          have hlead : allBlank (leadingBlanks l) = true := List.all_takeWhile
          rw [hsplit, hblank] at hlead
          cases hlead
        refine Or.inr (beq_iff_eq.2 ?_)
        obtain ⟨c, r, hc⟩ := List.exists_cons_of_ne_nil hne
        rw [hc, List.cons_prefix_cons] at h'
        obtain ⟨rfl, hr⟩ := h'
        rw [htrim, hc]
        rcases List.prefix_cons_iff.1 hr with rfl | ⟨r', rfl, hr'⟩
        · rfl
        · rw [List.prefix_nil.1 hr']
          rfl
    · exact fun h => h.trans (List.prefix_append _ b)

/-- What stands behind the first colon of a line, without a comment. -/
def lineValue (l : Text) : Text :=
  match splitAt? ':' l with
  | none => []
  | some (_, rest) => trim ((cut [' ', '#'] rest).headD [])

theorem inlineValue_eq {r : List Text} (h : s.lines = l :: r) : s.inlineValue = lineValue l := by
  unfold Section.inlineValue
  rw [h]
  rfl

theorem trim_trimEnd (t : Text) : trim (trimEnd t) = trim t := by
  obtain ⟨b, hb, ht⟩ := exists_eq_trimEnd_append t
  conv_rhs => rw [ht, trim_append_blank _ hb]

theorem trimEnd_cons_trimEnd (c : Char) (t : Text) :
    trimEnd (c :: trimEnd t) = trimEnd (c :: t) := by
  obtain ⟨b, hb, ht⟩ := exists_eq_trimEnd_append t
  conv_rhs => rw [ht, ← List.cons_append, trimEnd_append_blank _ hb]

section Cut

variable {word b : Text}

theorem headD_consHead (c : Char) {ps : List Text} (h : ps ≠ []) :
    (consHead c ps).headD [] = c :: ps.headD [] := by
  obtain ⟨p, ps, rfl⟩ := List.exists_cons_of_ne_nil h
  rfl

theorem allBlank_headD_cutFrom {t : Text} (ht : allBlank t = true) (k : Nat) :
    allBlank ((cutFrom word k t).headD []) = true := by
  induction t generalizing k with
  | nil => cases k <;> rfl
  | cons c t ih =>
    obtain ⟨hc, hrest⟩ := Bool.and_eq_true_iff.1 ht
    cases k with
    | succ k => exact ih hrest k
    | zero =>
      rw [cutFrom]
      split
      · rfl
      · rw [headD_consHead c (cutFrom_ne_nil word 0 _)]
        exact Bool.and_eq_true_iff.2 ⟨hc, ih hrest 0⟩

/-- A word that ends with a character that is no blank does not reach into blanks. -/
theorem prefix_append_blank_iff (hword : word.getLast?.any isBlank = false)
    (hb : allBlank b = true) {t : Text} : word <+: t ++ b ↔ word <+: t := by
  refine ⟨fun h => ?_, fun h => h.trans (List.prefix_append t b)⟩
  rcases List.prefix_or_prefix_of_prefix h (List.prefix_append t b) with h' | ⟨r, rfl⟩
  · exact h'
  · rcases List.eq_nil_or_concat' r with rfl | ⟨r, c, rfl⟩
    · rw [List.append_nil]
    · rw [List.prefix_append_right_inj] at h
      have hblank := List.all_eq_true.1 hb c (h.subset (by simp))
      have hlast : isBlank c = false := by simpa [← List.append_assoc] using hword
      rw [hlast] at hblank
      cases hblank

/-- Blanks at the end do not change the first piece but for its end. -/
theorem trimEnd_headD_cutFrom (hb : allBlank b = true) (hword : word.getLast?.any isBlank = false)
    (k : Nat) (t : Text) :
    trimEnd ((cutFrom word k (t ++ b)).headD []) = trimEnd ((cutFrom word k t).headD []) := by
  induction t generalizing k with
  | nil =>
    rw [List.nil_append, trimEnd_eq_nil_iff.2 (allBlank_headD_cutFrom hb k)]
    cases k <;> rfl
  | cons c t ih =>
    cases k with
    | succ k => exact ih k
    | zero =>
      have hstart : startsWith word (c :: (t ++ b)) = startsWith word (c :: t) := by
        rw [Bool.eq_iff_iff, startsWith_iff_isPrefix, startsWith_iff_isPrefix, ← List.cons_append]
        exact prefix_append_blank_iff hword hb
      rw [List.cons_append, cutFrom, cutFrom, hstart]
      split
      · rfl
      · rw [headD_consHead c (cutFrom_ne_nil word 0 _), headD_consHead c (cutFrom_ne_nil word 0 _),
          ← trimEnd_cons_trimEnd, ih 0, trimEnd_cons_trimEnd]

theorem splitAt?_append_of_not_mem {c : Char} (hc : c ∉ b) (t : Text) :
    splitAt? c (t ++ b) = (splitAt? c t).map fun (front, rest) => (front, rest ++ b) := by
  induction t with
  | nil =>
    have hall : b.dropWhile (· != c) = [] :=
      List.dropWhile_eq_nil_iff.2 fun x hx => bne_iff_ne.2 fun heq => hc (heq ▸ hx)
    rw [List.nil_append, splitAt?, hall]
    rfl
  | cons d t ih =>
    unfold splitAt? at ih ⊢
    by_cases hd : d = c
    · rw [hd, List.cons_append, List.dropWhile_cons_of_neg (by simp),
        List.dropWhile_cons_of_neg (by simp), List.takeWhile_cons_of_neg (by simp),
        List.takeWhile_cons_of_neg (by simp)]
      rfl
    · rw [List.cons_append, List.dropWhile_cons_of_pos (by simpa using hd),
        List.dropWhile_cons_of_pos (by simpa using hd),
        List.takeWhile_cons_of_pos (by simpa using hd),
        List.takeWhile_cons_of_pos (by simpa using hd)]
      revert ih
      cases (t ++ b).dropWhile (· != c) <;> cases t.dropWhile (· != c) <;> simp

end Cut

theorem lineValue_append_blank (l : Text) {b : Text} (hb : allBlank b = true) :
    lineValue (l ++ b) = lineValue l := by
  have hcolon : ':' ∉ b := fun hmem => by
    have hblank := List.all_eq_true.1 hb _ hmem
    cases hblank
  unfold lineValue
  rw [splitAt?_append_of_not_mem hcolon]
  cases splitAt? ':' l with
  | none => rfl
  | some parts =>
    have hend : trimEnd ((cut [' ', '#'] (parts.2 ++ b)).headD []) =
        trimEnd ((cut [' ', '#'] parts.2).headD []) :=
      trimEnd_headD_cutFrom hb (by decide) 0 parts.2
    dsimp only [Option.map_some]
    rw [← trim_trimEnd, hend, trim_trimEnd]

theorem lineValue_bare (l : Text) : lineValue (bare l) = lineValue l := by
  obtain ⟨b, hb, hl⟩ := exists_eq_bare_append l
  conv_rhs => rw [hl, lineValue_append_blank _ hb]

end TouchPanel.Recipe
