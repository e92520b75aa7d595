import TouchPanel.Proofs.Document.Fill

/-!
# The sections of a device's identity

The name and the key of a device are put on indented lines, so `esphome` and `api` stay one
section each. A text that holds a section is known by the lines of the section.
-/

namespace TouchPanel.Document

open Text Recipe

/-- A line that can stand in a section. -/
def IsBody (l : Text) : Prop := isInner l = true ∧ '\n' ∉ l

/-- A text that is a section, up to blanks at its end. -/
structure Writes (t : Text) (s : Section) : Prop where
  keyed : ∃ key l r, s.IsKeyed key l r
  free : ∀ l ∈ s.lines, '\n' ∉ l
  text_eq : trimEnd t = joinLines (tidyEnd s.lines)

variable {s : Section} {key l : Text} {r : List Text}

theorem trimEnd_text (s : Section) : trimEnd s.text = joinLines (tidyEnd s.lines) := by
  have htext : s.text = joinLines (s.lines.rdropWhile allBlank) := rfl
  rw [htext, trimEnd_joinLines, tidyEnd_rdropWhile]

theorem writes_text (h : s.IsKeyed key l r) (hfree : ∀ x ∈ s.lines, '\n' ∉ x) :
    Writes s.text s :=
  ⟨⟨key, l, r, h⟩, hfree, trimEnd_text s⟩

theorem isBody_spaces {n : Nat} (hn : 0 < n) {t : Text} (ht : '\n' ∉ t) :
    IsBody (spaces n ++ t) := by
  obtain ⟨n, rfl⟩ := Nat.exists_eq_succ_of_ne_zero (Nat.ne_of_gt hn)
  constructor
  · exact isInner_iff.2 (topLevelKey?_of_head fun c hc => by cases hc; rfl)
  · rw [List.mem_append]
    rintro (h | h)
    · have := List.eq_of_mem_replicate h
      simp at this
    · exact ht h

theorem newline_not_mem_quotedLine (n : Nat) {key : Text} (hkey : '\n' ∉ key) (value : Text) :
    '\n' ∉ quotedLine n key value := by
  simp [quotedLine, spaces, hkey, newline_not_mem_quote]

theorem isBody_quotedLine {n : Nat} (hn : 0 < n) {key : Text} (hkey : '\n' ∉ key) (value : Text) :
    IsBody (quotedLine n key value) := by
  unfold quotedLine
  rw [List.append_assoc, List.append_assoc]
  refine isBody_spaces hn ?_
  simp [hkey, newline_not_mem_quote]

theorem indentOf_pos {l : Text} (h : leadingBlanks l ≠ []) : 0 < indentOf l := by
  obtain ⟨c, b, hb⟩ := List.exists_cons_of_ne_nil h
  rw [indentOf, hb, byteSize]
  have := c.utf8Size_pos
  omega

theorem indentOf_pos_of_valueOf? {key l : Text} (h : (valueOf? key l).isSome = true) :
    0 < indentOf l := by
  refine indentOf_pos fun hnil => ?_
  rw [valueOf?, hnil] at h
  cases h

/-- A value stands behind a colon. -/
theorem exists_suffix_of_valueOf? {key l value : Text} (h : valueOf? key l = some value) :
    ∃ r, ':' :: r <:+ l ∧ value = trim r := by
  obtain ⟨-, hmatch⟩ := Option.ite_none_left_eq_some.1 h
  split at hmatch
  · next r hr =>
    obtain ⟨rest, hrest, hstart⟩ := Option.map_eq_some_iff.1 hr
    have hsuffix : rest <:+ trimStart l := ⟨key, (after?_eq_some_iff.1 hrest).symm⟩
    refine ⟨r, ?_, (Option.some.inj hmatch).symm⟩
    rw [← hstart]
    exact (List.dropWhile_suffix _).trans (hsuffix.trans (List.dropWhile_suffix _))
  · cases hmatch

/-- The first element that meets the condition is the one that is changed. -/
theorem exists_of_updateFirst? {p : Text → Bool} {f : Text → Text} {ls ls' : List Text}
    (h : updateFirst? p f ls = some ls') :
    ∃ a x b, ls = a ++ x :: b ∧ (∀ y ∈ a, p y = false) ∧ p x = true ∧ ls' = a ++ f x :: b := by
  induction ls generalizing ls' with
  | nil => cases h
  | cons l r ih =>
    rw [updateFirst?] at h
    split at h
    · next hl => exact ⟨[], l, r, rfl, List.forall_mem_nil _, hl, (Option.some.inj h).symm⟩
    · next hl =>
      obtain ⟨r', hr', rfl⟩ := Option.map_eq_some_iff.1 h
      obtain ⟨a, x, b, rfl, ha, hx, rfl⟩ := ih hr'
      exact ⟨l :: a, x, b, rfl, List.forall_mem_cons.2 ⟨Bool.eq_false_of_not_eq_true hl, ha⟩, hx,
        rfl⟩

theorem mem_of_updateFirst? {p : Text → Bool} {f : Text → Text} {ls ls' : List Text}
    (h : updateFirst? p f ls = some ls') {x : Text} (hx : x ∈ ls') :
    x ∈ ls ∨ ∃ y ∈ ls, p y = true ∧ x = f y := by
  obtain ⟨a, y, b, rfl, -, hy, rfl⟩ := exists_of_updateFirst? h
  rcases List.mem_append.1 hx with hx | hx
  · exact Or.inl (List.mem_append_left _ hx)
  · rcases List.mem_cons.1 hx with rfl | hx
    · exact Or.inr ⟨y, List.mem_append_right _ List.mem_cons_self, hy, rfl⟩
    · exact Or.inl (List.mem_append_right _ (List.mem_cons_of_mem _ hx))

/-! ## The name of the device -/

/-- A section whose lines below the key are blank, comments or indented. -/
structure IsBelow (s : Section) (key l : Text) (r : List Text) : Prop extends
    s.IsKeyed key l r where
  free : ∀ x ∈ s.lines, '\n' ∉ x
  below : ∀ x ∈ r, isBelowKey x = true

theorem IsBelow.isBody (h : IsBelow s key l r) : ∀ x ∈ r, IsBody x := fun x hx =>
  ⟨h.tail x hx, h.free x (h.lines_eq ▸ List.mem_cons_of_mem l hx)⟩

theorem IsBelow.childIndent_pos (h : IsBelow s key l r) : 0 < s.childIndent := by
  unfold Section.childIndent Section.firstChild?
  rw [h.lines_eq]
  cases hchild : ((l :: r).drop 1).find? isContent with
  | none => decide
  | some x =>
    have hcontent := List.find?_some hchild
    have hbelow := h.below x (List.mem_of_find?_eq_some hchild)
    refine indentOf_pos ?_
    rw [isContent, Bool.and_eq_true, Bool.not_eq_true', Bool.not_eq_true'] at hcontent
    rw [isBelowKey, hcontent.1, hcontent.2] at hbelow
    simpa using hbelow

theorem isBody_nameLine {name x : Text} (hx : IsBody x)
    (hname : (valueOf? "name".toList x).isSome = true) : IsBody (nameLine name x) := by
  unfold nameLine
  dsimp only
  split
  · exact hx
  · exact isBody_quotedLine (indentOf_pos_of_valueOf? hname) (by decide) name

theorem IsBelow.namedLines (h : IsBelow s key l r) (name : Text) (namedElsewhere : Bool) :
    ∀ x ∈ Document.namedLines name namedElsewhere s, IsBody x := by
  have hdrop : s.lines.drop 1 = r := by rw [h.lines_eq]; rfl
  have hall := h.isBody
  unfold Document.namedLines
  rw [hdrop]
  dsimp only
  cases hupdate : updateFirst? (isNameLine s) (nameLine name) r with
  | some ls =>
    intro x hx
    rcases mem_of_updateFirst? hupdate hx with hx | ⟨y, hy, hname, rfl⟩
    · exact hall x hx
    · exact isBody_nameLine (hall y hy) (Bool.and_eq_true_iff.1 hname).1
  | none =>
    dsimp only
    split
    · exact hall
    · exact List.forall_mem_cons.2
        ⟨isBody_quotedLine h.childIndent_pos (by decide) name, hall⟩

theorem trim_ne_encryption (hl : topLevelKey? l = some "api".toList) :
    trim l ≠ "encryption:".toList := by
  intro htrim
  have hstart : trimStart l = l := by
    obtain ⟨c, hc, hkey⟩ := (Option.any_eq_true _ _).1 (head?_of_topLevelKey? hl)
    obtain ⟨t, rfl⟩ := List.head?_eq_some_iff.1 hc
    refine List.dropWhile_cons_of_neg ?_
    rw [isBlank_of_isKeyChar (isKeyChar_of_isKeyStart hkey)]
    decide
  rw [trim, hstart] at htrim
  rw [← topLevelKey?_trimEnd, htrim] at hl
  exact absurd hl (by decide)

/-- Only lines below the key are dropped. -/
theorem dropKeyPlaceholder_cons (hl : topLevelKey? l = some "api".toList)
    (hplain : occurs apiKeyPlaceholder l = false) (r : List Text) :
    ∃ r', dropKeyPlaceholder (l :: r) = l :: r' ∧ r' ⊆ r := by
  have hsplit : r.takeWhile (!occurs apiKeyPlaceholder ·) ++
      r.dropWhile (!occurs apiKeyPlaceholder ·) = r := List.takeWhile_append_dropWhile
  have hbefore : ∀ x ∈ r.takeWhile (!occurs apiKeyPlaceholder ·), x ∈ r := fun x hx =>
    hsplit ▸ List.mem_append_left _ hx
  unfold dropKeyPlaceholder
  rw [List.takeWhile_cons_of_pos (by simp [hplain]), List.dropWhile_cons_of_pos (by simp [hplain])]
  dsimp only
  cases hafter : r.dropWhile (!occurs apiKeyPlaceholder ·) with
  | nil => exact ⟨r, rfl, List.Subset.refl r⟩
  | cons p after =>
    have hrest : ∀ x ∈ after, x ∈ r := fun x hx =>
      hsplit ▸ List.mem_append_right _ (hafter ▸ List.mem_cons_of_mem p hx)
    generalize r.takeWhile (!occurs apiKeyPlaceholder ·) = before at hbefore ⊢
    have hkept : before ++ after ⊆ r := fun x hx =>
      (List.mem_append.1 hx).elim (hbefore x) (hrest x)
    cases before with
    | nil =>
      refine ⟨after, ?_, hrest⟩
      have hne : (trim l == "encryption:".toList) = false := by
        rw [beq_eq_false_iff_ne]
        exact trim_ne_encryption hl
      rw [List.getLast?_singleton]
      dsimp only
      rw [hne, Bool.false_and, if_neg (by decide)]
      rfl
    | cons b before =>
      rw [List.getLast?_cons_cons, List.getLast?_eq_some_getLast (List.cons_ne_nil b before)]
      dsimp only
      split
      · refine ⟨(b :: before).dropLast ++ after, rfl, fun x hx => ?_⟩
        rcases List.mem_append.1 hx with hx | hx
        · exact hbefore x (List.mem_of_mem_dropLast hx)
        · exact hrest x hx
      · exact ⟨b :: before ++ after, rfl, hkept⟩

/-- An `encryption` that is put in stands at the indentation of the other lines. -/
theorem isBody_encryptedLines (hall : ∀ x ∈ s.lines.drop 1, IsBody x)
    (hindent : (s.lines.drop 1).any isEncryptionLine = true ∨ 0 < s.childIndent) (secret : Text) :
    ∀ x ∈ Document.encryptedLines secret s, IsBody x := by
  have hquoted : ∀ n, 0 < n → IsBody (quotedLine n "key".toList secret) := fun n hn =>
    isBody_quotedLine hn (by decide) secret
  unfold Document.encryptedLines
  generalize s.lines.drop 1 = r at hall hindent ⊢
  have hsplit : r.takeWhile (!isEncryptionLine ·) ++ r.dropWhile (!isEncryptionLine ·) = r :=
    List.takeWhile_append_dropWhile
  dsimp only
  cases hopening : r.dropWhile (!isEncryptionLine ·) with
  | nil =>
    have hnone : r.any isEncryptionLine = false := by
      rw [List.dropWhile_eq_nil_iff] at hopening
      rw [List.any_eq_false]
      simpa using hopening
    have hpos : 0 < s.childIndent := hindent.resolve_left (by simp [hnone])
    dsimp only
    refine List.forall_mem_cons.2 ⟨isBody_spaces hpos (by decide), ?_⟩
    exact List.forall_mem_cons.2 ⟨hquoted _ (by omega), hall⟩
  | cons opening after =>
    dsimp only
    rw [hopening] at hsplit
    have hbefore : ∀ x ∈ r.takeWhile (!isEncryptionLine ·), IsBody x := fun x hx =>
      hall x (hsplit ▸ List.mem_append_left _ hx)
    have hrest : ∀ x ∈ opening :: after, IsBody x := fun x hx =>
      hall x (hsplit ▸ List.mem_append_right _ hx)
    obtain ⟨hopen, hafter⟩ := List.forall_mem_cons.1 hrest
    refine List.forall_mem_append.2 ⟨hbefore, List.forall_mem_cons.2 ⟨hopen, ?_⟩⟩
    split
    · next inner hinner =>
      refine List.forall_mem_append.2 ⟨fun x hx => ?_, fun x hx =>
        hafter x ((List.dropWhile_suffix _).subset hx)⟩
      rcases mem_of_updateFirst? hinner hx with hx | ⟨y, -, hkey, rfl⟩
      · exact hafter x ((List.takeWhile_prefix _).subset hx)
      · exact hquoted _ (indentOf_pos_of_valueOf? hkey)
    · exact List.forall_mem_cons.2 ⟨hquoted _ (by omega), hafter⟩

theorem IsBelow.encryptedLines (h : IsBelow s key l r) (secret : Text) :
    ∀ x ∈ Document.encryptedLines secret s, IsBody x := by
  refine isBody_encryptedLines ?_ (Or.inr h.childIndent_pos) secret
  rw [h.lines_eq]
  exact h.isBody

end TouchPanel.Document
