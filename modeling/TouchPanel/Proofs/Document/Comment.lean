import TouchPanel.Proofs.Document.Content
import TouchPanel.Proofs.Document.Encryption

/-!
# Comments

A comment in a recipe changes nothing in the content of the document but for two searches that
read comments: the one for the placeholder of the name, and the one for the key in the section
`api`.
-/

namespace TouchPanel.Document

open Text Recipe

variable {d : Device} {key l : Text} {ls : List Text} {s s' : Section}

/-! ## Searching among lines -/

theorem isContent_of_startsWith {c : Char} {word : Text} (hc : c ≠ '#')
    (h : startsWith (c :: word) (trimStart l) = true) : isContent l = true := by
  obtain ⟨rest, hrest⟩ := startsWith_iff.1 h
  exact isContent_of_head? (by rw [hrest]; rfl) hc

theorem isContent_of_isEncryptionLine (h : isEncryptionLine l = true) : isContent l = true :=
  isContent_of_startsWith (by decide) h

theorem isEncryptionLine_trimEnd (l : Text) :
    isEncryptionLine (trimEnd l) = isEncryptionLine l := by
  rw [isEncryptionLine, trimStart_trimEnd, startsWith_trim (by decide)]
  rfl

theorem isContent_of_valueOf? {c : Char} {word : Text} (hc : c ≠ '#')
    (h : (valueOf? (c :: word) l).isSome = true) : isContent l = true := by
  suffices hword : startsWith (c :: word) (trimStart l) = true from isContent_of_startsWith hc hword
  unfold valueOf? at h
  rw [startsWith]
  cases hafter : after? (c :: word) (trimStart l) with
  | some rest => rfl
  | none =>
    rw [hafter] at h
    simp at h

theorem valueOf?_trimEnd (hkey : key.getLast?.any isBlank = false) (l : Text) :
    valueOf? key (trimEnd l) = valueOf? key l := by
  cases hblank : allBlank l with
  | true =>
    rw [valueOf?_of_allBlank hblank, valueOf?_of_allBlank ((allBlank_trimEnd l).trans hblank)]
  | false =>
    obtain ⟨b, hb, hl⟩ := exists_eq_trimEnd_append (trimStart l)
    have hstart : trimStart l = trim l ++ b := hl
    unfold valueOf?
    rw [leadingBlanks_trimEnd hblank, trimStart_trimEnd]
    refine ite_congr rfl (fun _ => rfl) fun _ => ?_
    cases hafter : after? key (trim l) with
    | none =>
      have hnone : after? key (trimStart l) = none := by
        have hword := startsWith_trim hkey l
        rw [startsWith, startsWith, hafter] at hword
        exact Option.isSome_eq_false_iff.1 hword.symm |> Option.isNone_iff_eq_none.1
      rw [hnone]
    | some rest =>
      have hmore : after? key (trimStart l) = some (rest ++ b) := by
        rw [after?_eq_some_iff, hstart, after?_eq_some_iff.1 hafter, List.append_assoc]
      rw [hmore, Option.map_some, Option.map_some]
      cases hrest : allBlank rest with
      | true =>
        have hall : allBlank (rest ++ b) = true := by rw [allBlank_append, hrest, hb]; rfl
        rw [trimStart_of_allBlank hrest, trimStart_of_allBlank hall]
      | false =>
        obtain ⟨c, r, hc, -⟩ := exists_cons_trimStart hrest
        rw [trimStart_append hrest, hc]
        by_cases hcolon : c = ':'
        · rw [hcolon, List.cons_append]
          exact congrArg some (trim_append_blank r hb).symm
        · simp [hcolon]

section

variable {p : Text → Bool} {f g : Text → Text} (htrim : ∀ l, p (trimEnd l) = p l)

include htrim

theorem chosen_takeWhile (hp : ∀ l, p l = false → isContent l = true) (ls : List Text) :
    chosen isContent (ls.takeWhile p) = (chosen isContent ls).takeWhile p := by
  induction ls with
  | nil => rfl
  | cons l r ih =>
    cases hl : p l with
    | false =>
      have hl' : p (trimEnd l) = false := (htrim l).trans hl
      rw [List.takeWhile_cons_of_neg (by simp [hl]), chosen_cons_of_pos (hp l hl),
        List.takeWhile_cons_of_neg (by simp [hl'])]
      rfl
    | true =>
      rw [List.takeWhile_cons_of_pos hl]
      cases hcontent : isContent l with
      | false => rw [chosen_cons_of_neg hcontent, chosen_cons_of_neg hcontent, ih]
      | true =>
        rw [chosen_cons_of_pos hcontent, chosen_cons_of_pos hcontent,
          List.takeWhile_cons_of_pos ((htrim l).trans hl), ih]

theorem chosen_dropWhile (hp : ∀ l, p l = false → isContent l = true) (ls : List Text) :
    chosen isContent (ls.dropWhile p) = (chosen isContent ls).dropWhile p := by
  have hsplit : chosen isContent (ls.takeWhile p) ++ chosen isContent (ls.dropWhile p) =
      (chosen isContent ls).takeWhile p ++ (chosen isContent ls).dropWhile p := by
    rw [← chosen_append, List.takeWhile_append_dropWhile, List.takeWhile_append_dropWhile]
  rw [chosen_takeWhile htrim hp] at hsplit
  exact List.append_cancel_left hsplit

/-- Changing a line of content is changing a line among the content. -/
theorem map_chosen_updateFirst? (hp : ∀ l, p l = true → isContent l = true)
    (hf : ∀ l, p l = true → chosen isContent [f (trimEnd l)] = chosen isContent [f l])
    (ls : List Text) :
    (updateFirst? p f ls).map (chosen isContent) =
      (updateFirst? p f (chosen isContent ls)).map (chosen isContent) := by
  induction ls with
  | nil => rfl
  | cons l r ih =>
    have hcons : ∀ r, chosen isContent (l :: r) = chosen isContent [l] ++ chosen isContent r :=
      fun r => chosen_append isContent [l] r
    cases hl : p l with
    | true =>
      have hl' : p (trimEnd l) = true := (htrim l).trans hl
      rw [chosen_cons_of_pos (hp l hl), updateFirst?, updateFirst?, if_pos hl, if_pos hl',
        Option.map_some, Option.map_some, ← List.singleton_append,
        ← List.singleton_append (l := chosen isContent r), chosen_append, chosen_append, hf l hl,
        chosen_chosen isChoice_isContent]
    | false =>
      have hstep : ∀ {x} (r : List Text), p x = false →
          updateFirst? p f (x :: r) = (updateFirst? p f r).map (x :: ·) := by
        intro x r hx
        rw [updateFirst?, hx]
        rfl
      rw [hstep r hl]
      cases hcontent : isContent l with
      | false => rw [map_chosen_cons_of_neg hcontent, chosen_cons_of_neg hcontent, ih]
      | true =>
        rw [map_chosen_cons_of_pos hcontent, chosen_cons_of_pos hcontent,
          hstep _ ((htrim l).trans hl),
          map_chosen_cons_of_pos ((isChoice_isContent.trimEnd l).trans hcontent),
          trimEnd_trimEnd, ih]

end

/-! ## The name -/

theorem isContent_of_isNameLine (h : isNameLine s l = true) : isContent l = true :=
  isContent_of_valueOf? (by decide) (Bool.and_eq_true_iff.1 h).1

theorem isNameLine_trimEnd (s : Section) (l : Text) :
    isNameLine s (trimEnd l) = isNameLine s l := by
  rw [isNameLine, isNameLine, valueOf?_trimEnd (by decide)]
  cases hblank : allBlank l with
  | true => rw [valueOf?_of_allBlank hblank]; rfl
  | false => rw [indentOf_trimEnd hblank]

theorem chosen_nameLine (name : Text) (h : isContent l = true) :
    chosen isContent [nameLine name (trimEnd l)] = chosen isContent [nameLine name l] := by
  unfold nameLine
  rw [valueOf?_trimEnd (by decide), indentOf_trimEnd (not_allBlank_of_isContent h)]
  dsimp only
  split
  · exact chosen_map isChoice_isContent trimEnd_trimEnd [l]
  · rfl

theorem map_chosen_nameLine (name : Text) (s : Section) (ls : List Text) :
    (updateFirst? (isNameLine s) (nameLine name) ls).map (chosen isContent) =
      (updateFirst? (isNameLine s) (nameLine name) (chosen isContent ls)).map
        (chosen isContent) :=
  map_chosen_updateFirst? (isNameLine_trimEnd s) (fun _ => isContent_of_isNameLine)
    (fun _ hl => chosen_nameLine name (isContent_of_isNameLine hl)) ls

theorem newline_not_mem_namedLines (h : ∀ l ∈ s.lines, '\n' ∉ l) (name : Text)
    (namedElsewhere : Bool) : ∀ l ∈ namedLines name namedElsewhere s, '\n' ∉ l := by
  have hdrop : ∀ l ∈ s.lines.drop 1, '\n' ∉ l := fun l hl => h l (List.mem_of_mem_drop hl)
  have hname := fun n => newline_not_mem_quotedLine n (by decide : '\n' ∉ "name".toList) name
  unfold namedLines
  dsimp only
  split
  · next hupdate =>
    intro l hl
    rcases mem_of_updateFirst? hupdate hl with hl | ⟨y, hy, -, rfl⟩
    · exact hdrop l hl
    · unfold nameLine
      dsimp only
      split
      · exact hdrop y hy
      · exact hname _
  · split
    · exact hdrop
    · exact List.forall_mem_cons.2 ⟨hname _, hdrop⟩

theorem Agrees.namedLines (h : Agrees s s') (name : Text) (namedElsewhere : Bool) :
    chosen isContent (namedLines name namedElsewhere s') =
      chosen isContent (namedLines name namedElsewhere s) := by
  have hline : isNameLine s' = isNameLine s := by
    funext l
    rw [isNameLine, isNameLine, h.childIndent_eq]
  have hupdate := map_chosen_nameLine name s (s'.lines.drop 1)
  rw [h.drop_eq, ← map_chosen_nameLine] at hupdate
  unfold Document.namedLines
  rw [hline, h.childIndent_eq]
  dsimp only
  generalize updateFirst? (isNameLine s) (nameLine name) (s'.lines.drop 1) = u' at hupdate
  generalize updateFirst? (isNameLine s) (nameLine name) (s.lines.drop 1) = u at hupdate
  cases u with
  | some ls =>
    obtain ⟨ls', rfl, heq⟩ := Option.map_eq_some_iff.1 hupdate
    exact heq
  | none =>
    obtain rfl := Option.map_eq_none_iff.1 hupdate
    dsimp only
    split
    · exact h.drop_eq
    · rw [← List.singleton_append, chosen_append, h.drop_eq, ← chosen_append]
      rfl

theorem Agrees.esphomeSection (h : Agrees s s') (name : Text) {recipe recipe' : Text}
    (hname : occurs deviceNamePlaceholder recipe' = occurs deviceNamePlaceholder recipe) :
    SameContent (esphomeSection name recipe (some s)) (esphomeSection name recipe' (some s')) := by
  have hkey : '\n' ∉ "esphome:".toList := by decide
  have hfree : ∀ s : Section, IsHeaded s → ∀ l ∈ "esphome:".toList ::
      Document.namedLines name (occurs deviceNamePlaceholder recipe) s, '\n' ∉ l :=
    fun s hs => List.forall_mem_cons.2 ⟨hkey, newline_not_mem_namedLines hs.free _ _⟩
  unfold Document.esphomeSection
  rw [hname]
  dsimp only
  rw [SameContent, contentLines_text (hfree s' h.right), contentLines_text (hfree s h.left),
    chosen_cons_of_pos rfl, chosen_cons_of_pos rfl, h.namedLines]

/-! ## The key -/

/-- The lines of a section around the placeholder of the key: the ones in front of it that stay,
the ones that go with it, and the ones behind it. -/
def cutPlaceholder (ls : List Text) : List Text × List Text × List Text :=
  let before := ls.takeWhile (!occurs apiKeyPlaceholder ·)
  match ls.dropWhile (!occurs apiKeyPlaceholder ·) with
  | [] => (ls, [], [])
  | line :: after =>
    match before.getLast? with
    | none => ([], [line], after)
    | some opening =>
      let hasMore := (after.find? (!allBlank ·)).any (indentOf opening < indentOf ·)
      if trim opening == "encryption:".toList && !hasMore then
        (before.dropLast, [opening, line], after)
      else (before, [line], after)

theorem cutPlaceholder_spec (ls : List Text) :
    ls = (cutPlaceholder ls).1 ++ (cutPlaceholder ls).2.1 ++ (cutPlaceholder ls).2.2 ∧
      dropKeyPlaceholder ls = (cutPlaceholder ls).1 ++ (cutPlaceholder ls).2.2 := by
  have hsplit :=
    (List.takeWhile_append_dropWhile (p := (!occurs apiKeyPlaceholder ·)) (l := ls)).symm
  unfold cutPlaceholder dropKeyPlaceholder
  dsimp only
  cases hrest : ls.dropWhile (!occurs apiKeyPlaceholder ·) with
  | nil => simp
  | cons line after =>
    rw [hrest] at hsplit
    generalize ls.takeWhile (!occurs apiKeyPlaceholder ·) = before at hsplit ⊢
    dsimp only
    cases hlast : before.getLast? with
    | none =>
      rw [List.getLast?_eq_none_iff.1 hlast] at hsplit
      exact ⟨hsplit, rfl⟩
    | some opening =>
      obtain ⟨init, rfl⟩ := List.getLast?_eq_some_iff.1 hlast
      dsimp only
      split
      · rw [List.dropLast_concat]
        exact ⟨by simpa using hsplit, rfl⟩
      · exact ⟨by simpa using hsplit, rfl⟩

/-- The content that goes with the placeholder of the key: how many lines of content stand in front
of it, and how many it has. -/
def lostContent? (ls : List Text) : Option (Nat × Nat) :=
  let (front, lost, _) := cutPlaceholder ls
  if lost.any isContent then
    some ((chosen isContent front).length, (chosen isContent lost).length)
  else none

theorem chosen_dropKeyPlaceholder (ls : List Text) :
    chosen isContent (dropKeyPlaceholder ls) =
      match lostContent? ls with
      | none => chosen isContent ls
      | some (n, m) => (chosen isContent ls).take n ++ (chosen isContent ls).drop (n + m) := by
  obtain ⟨hsplit, hdrop⟩ := cutPlaceholder_spec ls
  unfold lostContent?
  generalize cutPlaceholder ls = parts at hsplit hdrop ⊢
  obtain ⟨front, lost, back⟩ := parts
  dsimp only at hsplit hdrop ⊢
  rw [hdrop, hsplit, chosen_append, chosen_append, chosen_append]
  by_cases hlost : lost.any isContent = true
  · rw [if_pos hlost]
    dsimp only
    rw [List.append_assoc, List.take_left, ← List.append_assoc, ← List.length_append,
      List.drop_left]
  · have hnone : chosen isContent lost = [] := by
      rw [chosen, List.filter_eq_nil_iff.2 fun l hl hcontent =>
        hlost (List.any_eq_true.2 ⟨l, hl, hcontent⟩)]
      rfl
    rw [if_neg hlost, hnone, List.append_nil]

/-- Whether the first line `encryption` has a line `key` below it. -/
def hasKeyLine (ls : List Text) : Bool :=
  match ls.dropWhile (!isEncryptionLine ·) with
  | [] => false
  | opening :: after =>
    (after.takeWhile (isUnder opening)).any fun l => (valueOf? "key".toList l).isSome

/-- The lines below the key of a section with a key put in: below the line `encryption` in place of
the next line `key`, or right behind it. -/
def withKey (key : Text) (indent : Nat) (replaced : Bool) (ls : List Text) : List Text :=
  let keyLine (n : Nat) := quotedLine n "key".toList key
  match ls.dropWhile (!isEncryptionLine ·) with
  | [] => (spaces indent ++ "encryption:".toList) :: keyLine (indent + 2) :: ls
  | opening :: after =>
    ls.takeWhile (!isEncryptionLine ·) ++ opening ::
      if replaced then (updateFirst? (fun l => (valueOf? "key".toList l).isSome)
        (fun l => keyLine (indentOf l)) after).getD after
      else keyLine (indentOf opening + 2) :: after

theorem updateFirst?_append_of_some {p : Text → Bool} {f : Text → Text} {a u : List Text}
    (h : updateFirst? p f a = some u) (b : List Text) :
    updateFirst? p f (a ++ b) = some (u ++ b) := by
  induction a generalizing u with
  | nil => cases h
  | cons l a ih =>
    rw [List.cons_append, updateFirst?]
    rw [updateFirst?] at h
    split at h
    · next hl => rw [if_pos hl, ← Option.some.inj h, List.cons_append]
    · next hl =>
      obtain ⟨r, hr, rfl⟩ := Option.map_eq_some_iff.1 h
      rw [if_neg hl, ih hr, Option.map_some, List.cons_append]

theorem isSome_updateFirst? (p : Text → Bool) (f : Text → Text) (ls : List Text) :
    (updateFirst? p f ls).isSome = ls.any p := by
  induction ls with
  | nil => rfl
  | cons l r ih =>
    rw [updateFirst?, List.any_cons, ← ih]
    cases hl : p l <;> simp

/-- Changing a line among the first ones is changing it among all. -/
theorem updateFirst?_takeWhile (p q : Text → Bool) (f : Text → Text) (ls x : List Text) :
    (match updateFirst? p f (ls.takeWhile q) with
      | some inner => inner ++ ls.dropWhile q
      | none => x) =
      if (ls.takeWhile q).any p then (updateFirst? p f ls).getD ls else x := by
  have hany := isSome_updateFirst? p f (ls.takeWhile q)
  cases hupdate : updateFirst? p f (ls.takeWhile q) with
  | none =>
    rw [hupdate] at hany
    rw [if_neg (by simp [← hany])]
  | some inner =>
    rw [hupdate] at hany
    have hwhole := updateFirst?_append_of_some hupdate (ls.dropWhile q)
    rw [List.takeWhile_append_dropWhile] at hwhole
    have hpos : (ls.takeWhile q).any p = true := hany.symm
    rw [if_pos hpos, hwhole, Option.getD_some]

theorem encryptedLines_eq (key : Text) (s : Section) :
    encryptedLines key s =
      withKey key s.childIndent (hasKeyLine (s.lines.drop 1)) (s.lines.drop 1) := by
  unfold encryptedLines withKey hasKeyLine
  generalize s.lines.drop 1 = r
  dsimp only
  cases r.dropWhile (!isEncryptionLine ·) with
  | nil => rfl
  | cons opening after =>
    exact congrArg (fun rest => r.takeWhile (!isEncryptionLine ·) ++ opening :: rest)
      (updateFirst?_takeWhile _ (isUnder opening) _ after _)

theorem isContent_of_keyLine (h : (valueOf? "key".toList l).isSome = true) : isContent l = true :=
  isContent_of_valueOf? (by decide) h

/-- The content of a section with a key put in is known from its content. -/
theorem chosen_withKey (key : Text) (indent : Nat) (replaced : Bool) (ls : List Text) :
    chosen isContent (withKey key indent replaced ls) =
      chosen isContent (withKey key indent replaced (chosen isContent ls)) := by
  have hopening : ∀ l, (!isEncryptionLine (trimEnd l)) = !isEncryptionLine l := fun l => by
    rw [isEncryptionLine_trimEnd]
  have hcontent : ∀ l, (!isEncryptionLine l) = false → isContent l = true := fun l hl =>
    isContent_of_isEncryptionLine (by simpa using hl)
  have htake := chosen_takeWhile hopening hcontent ls
  have hdrop := chosen_dropWhile hopening hcontent ls
  have hupdate := map_chosen_updateFirst? (p := fun l => (valueOf? "key".toList l).isSome)
    (f := fun l => quotedLine (indentOf l) "key".toList key)
    (fun l => by rw [valueOf?_trimEnd (by decide)]) (fun _ => isContent_of_keyLine) fun l hl => by
      rw [indentOf_trimEnd (not_allBlank_of_isContent (isContent_of_keyLine hl))]
  have hcons : ∀ (l : Text) (ls : List Text),
      chosen isContent (l :: chosen isContent ls) = chosen isContent (l :: ls) := fun l ls => by
    rw [← List.singleton_append, chosen_append, chosen_chosen isChoice_isContent, ← chosen_append]
    rfl
  unfold withKey
  dsimp only
  rw [← htake, ← hdrop]
  generalize ls.takeWhile (!isEncryptionLine ·) = before
  cases hrest : ls.dropWhile (!isEncryptionLine ·) with
  | nil =>
    refine Eq.symm ?_
    change chosen isContent ([_, _] ++ chosen isContent ls) = chosen isContent ([_, _] ++ ls)
    rw [chosen_append, chosen_append, chosen_chosen isChoice_isContent]
  | cons opening after =>
    have hopen : isContent opening = true := by
      have hhead := List.head?_dropWhile_not (!isEncryptionLine ·) ls
      rw [hrest] at hhead
      exact isContent_of_isEncryptionLine (by simpa using hhead)
    have hindent : indentOf (trimEnd opening) = indentOf opening :=
      indentOf_trimEnd (not_allBlank_of_isContent hopen)
    have hopen' : isContent (trimEnd opening) = true :=
      (isChoice_isContent.trimEnd opening).trans hopen
    rw [chosen_cons_of_pos hopen]
    dsimp only
    rw [hindent, chosen_append, chosen_append, chosen_chosen isChoice_isContent,
      chosen_cons_of_pos hopen, chosen_cons_of_pos hopen', trimEnd_trimEnd]
    refine congrArg (fun rest => chosen isContent before ++ trimEnd opening :: rest) ?_
    cases replaced with
    | false => exact (hcons _ after).symm
    | true =>
      rw [if_pos rfl, if_pos rfl, ← Option.getD_map (chosen isContent),
        ← Option.getD_map (chosen isContent), hupdate after, chosen_chosen isChoice_isContent]

theorem newline_not_mem_withKey (key : Text) (indent : Nat) (replaced : Bool)
    (h : ∀ l ∈ ls, '\n' ∉ l) : ∀ l ∈ withKey key indent replaced ls, '\n' ∉ l := by
  have hkey := fun n => newline_not_mem_quotedLine n (by decide : '\n' ∉ "key".toList) key
  unfold withKey
  dsimp only
  split
  · refine List.forall_mem_cons.2 ⟨?_, List.forall_mem_cons.2 ⟨hkey _, h⟩⟩
    simp [spaces]
  · next opening after hrest =>
    have hdrop : ∀ l ∈ opening :: after, '\n' ∉ l := fun l hl =>
      h l ((List.dropWhile_suffix _).subset (hrest ▸ hl))
    obtain ⟨hopening, hafter⟩ := List.forall_mem_cons.1 hdrop
    refine List.forall_mem_append.2 ⟨fun l hl => h l ((List.takeWhile_prefix _).subset hl), ?_⟩
    refine List.forall_mem_cons.2 ⟨hopening, ?_⟩
    split
    · cases hupdate : updateFirst? (fun l => (valueOf? "key".toList l).isSome)
        (fun l => quotedLine (indentOf l) "key".toList key) after with
      | none => exact hafter
      | some u =>
        intro l hl
        rcases mem_of_updateFirst? hupdate hl with hl | ⟨y, -, -, rfl⟩
        · exact hafter l hl
        · exact hkey _
    · exact List.forall_mem_cons.2 ⟨hkey _, hafter⟩

/-- Whether a section shows a key or its placeholder. -/
def showsKey (key : Text) (s : Section) : Bool :=
  occurs key s.text || occurs apiKeyPlaceholder s.text

/-- Two sections in which the search for the key of a device finds the same: without a key the
same content goes with the placeholder, a key is shown by both or by none, and if it is not shown
it takes the place of a line `key` in both or in none. -/
def SearchedAlike (key : Option Text) (s s' : Section) : Prop :=
  match key with
  | none => lostContent? s'.lines = lostContent? s.lines
  | some key => showsKey key s' = showsKey key s ∧
      (showsKey key s = true ∨ hasKeyLine (s'.lines.drop 1) = hasKeyLine (s.lines.drop 1))

instance (key : Option Text) (s s' : Section) : Decidable (SearchedAlike key s s') :=
  match key with
  | none => inferInstanceAs (Decidable (_ = _))
  | some _ => inferInstanceAs (Decidable (_ ∧ _))

theorem Agrees.apiSection (h : Agrees s s') {key : Option Text} (hsearch : SearchedAlike key s s') :
    SameContent (apiSection key (some s)) (apiSection key (some s')) := by
  unfold Document.apiSection
  cases key with
  | none =>
    have hfree : ∀ s : Section, IsHeaded s → ∀ l ∈ dropKeyPlaceholder s.lines, '\n' ∉ l := by
      intro s hs l hl
      obtain ⟨hsplit, hdrop⟩ := cutPlaceholder_spec s.lines
      refine hs.free l ?_
      rw [hdrop, List.mem_append] at hl
      rw [hsplit, List.mem_append, List.mem_append]
      exact hl.elim (fun hl => Or.inl (Or.inl hl)) Or.inr
    have hlost : lostContent? s'.lines = lostContent? s.lines := hsearch
    dsimp only
    rw [SameContent, contentLines_text (hfree s' h.right), contentLines_text (hfree s h.left),
      chosen_dropKeyPlaceholder, chosen_dropKeyPlaceholder, hlost, h.content_eq]
  | some key =>
    obtain ⟨hshown, hline⟩ := hsearch
    have hfree : ∀ s : Section, IsHeaded s →
        ∀ l ∈ "api:".toList :: encryptedLines key s, '\n' ∉ l := by
      intro s hs
      rw [encryptedLines_eq]
      exact List.forall_mem_cons.2 ⟨by decide, newline_not_mem_withKey key _ _ fun l hl =>
        hs.free l (List.mem_of_mem_drop hl)⟩
    have hcases : ∀ s : Section, (occurs key s.text || occurs apiKeyPlaceholder s.text) =
        showsKey key s := fun s => rfl
    dsimp only
    rw [hcases, hcases, hshown]
    split
    · exact h.text
    · next hnot =>
      rw [SameContent, contentLines_text (hfree s' h.right), contentLines_text (hfree s h.left),
        chosen_cons_of_pos rfl, chosen_cons_of_pos rfl, encryptedLines_eq, encryptedLines_eq,
        hline.resolve_left hnot, h.childIndent_eq, chosen_withKey, h.drop_eq, ← chosen_withKey]

/-! ## The document -/

/-- The content of a document is known from what is read in the recipe, and from the search for the
key. -/
theorem sameContent_assemble (d : Device) {recipe recipe' : Text} {f : Fragments}
    (options : Options) (hnames : ∀ s ∈ f.sensors ++ f.trailing, s.1 ∈ generatedNames)
    (h : readLines (d.project.userText.inject (normalize recipe')) =
      readLines (d.project.userText.inject (normalize recipe)))
    (hsearch : ∀ s ∈ (named "api".toList (keyedOf (lines
        (fill (d.project.userText.inject (normalize recipe)) f).text))).head?,
      ∀ s' ∈ (named "api".toList (keyedOf (lines
        (fill (d.project.userText.inject (normalize recipe')) f).text))).head?,
      SearchedAlike (d.key?.map String.toList) s s') :
    SameContent (assemble d recipe f options).1 (assemble d recipe' f options).1 := by
  rw [assemble_eq_keyed, assemble_eq_keyed]
  dsimp only
  generalize d.project.userText.inject (normalize recipe') = t' at h hsearch ⊢
  generalize d.project.userText.inject (normalize recipe) = t at h hsearch ⊢
  have hapi := fun t => takeSection_merged (t := t) hnames "api"
    (by decide : "api" ∉ generatedNames)
    (keyedOf (lines (fill t f).text))
  obtain ⟨hread, hexisting, hleft⟩ := fill_of_readLines h f
  have hhas := hasSection_of_readLines hread
  rw [← hapi t, ← hapi t'] at hsearch
  rw [hexisting, hhas] at hsearch
  rw [hexisting, hleft, hhas]
  obtain ⟨hmerged, -⟩ := forall₂_mergeSections (fun _ _ h => h.key_eq)
    (fun _ _ entries h _ => Agrees.append? h entries) (forall₂_agrees hread)
    ((fill t f).existing ++ f.trailing.filter fun s => hasSection (fill t f).text s.1.toList)
  have hkey : ∀ s s', Agrees s s' → s'.key = s.key := fun _ _ h => h.key_eq
  have hesphome := (rel_takeSection hkey hmerged "esphome").1
  have hfound := (rel_takeSection hkey hmerged "api").1
  refine sameContent_joinSections d (List.rel_append ?_ ?_)
  · have hfree : ∀ t : Text, ∀ l ∈ leadOf (lines t), '\n' ∉ l := fun t l hl =>
      newline_not_mem_of_mem_lines ((List.takeWhile_prefix _).subset hl)
    refine List.rel_append (R := SameContent) (List.forall₂_same.2 fun _ _ => rfl) (.cons ?_ .nil)
    rw [SameContent, contentLines_preamble (hfree _), contentLines_preamble (hfree _),
      chosen_leadOf_eq hread]
  · refine forall₂_bodyTexts (T := SameContent) hkey (fun _ => rfl) (fun _ _ h => h.text)
      options _ hmerged ?_ ?_
    · generalize (takeSection "esphome" _).1 = found at hesphome ⊢
      generalize (takeSection "esphome" _).1 = found' at hesphome ⊢
      cases hesphome with
      | none => rfl
      | some hs => exact hs.esphomeSection _ (occurs_of_readLines hread)
    · generalize (takeSection "api" _).1 = found at hfound hsearch ⊢
      generalize (takeSection "api" _).1 = found' at hfound hsearch ⊢
      cases hfound with
      | none => rfl
      | some hs => exact hs.apiSection (hsearch _ rfl _ rfl)

/-- A comment between the lines of a recipe changes nothing in the content of the document. It must
not hold the placeholder of the name, and the search for the key in the section `api` has to find
the same with and without it. -/
theorem comment_changes_no_content (d : Device) (registry : Registry) (options : Options)
    {a c : Text} (b : Text) (ha : Closed a) (hne : a ≠ []) (hc : '\n' ∉ c)
    (hcomment : isComment c = true) (hpoint : isInsertionPoint c = false)
    (hname : occurs deviceNamePlaceholder c = false)
    (hsearch : ∀ s ∈ recipeSection? "api" d (a ++ b) registry options,
      ∀ s' ∈ recipeSection? "api" d (a ++ (c ++ '\n' :: b)) registry options,
      SearchedAlike (d.key?.map String.toList) s s') :
    contentLines (Compilation.ofDevice d (a ++ (c ++ '\n' :: b)) registry options).document =
      contentLines (Compilation.ofDevice d (a ++ b) registry options).document := by
  have hread : isRead c = false := by
    rw [isRead, isContent, hcomment, hpoint, hname]
    simp
  have hinsert := readLines_normalize (readLines_insert ha hne hc hread b)
  unfold recipeSection? at hsearch
  simp only [named_split] at hsearch
  exact sameContent_assemble d options (name_mem_of_ofProject d.project registry options)
    (UserText.readLines_inject d.project.userText hinsert) hsearch

/-- The lines of a recipe up to the key of the device. -/
def frontOfKey : Text :=
  unlines (["esphome:", "  platform: esp32", "api:", "  encryption:"].map String.toList)

/-- The lines of a recipe from the key of the device on. -/
def backOfKey : Text :=
  unlines (["    key: __ETD_API_KEY__", "lvgl:", "  #__LVGL_PAGES__"].map String.toList)

theorem comment_changes_no_content_panel :
    contentLines (Compilation.ofDevice keyedPanel
        (frontOfKey ++ ("    # from the vault".toList ++ '\n' :: backOfKey)) .builtin {}).document =
      contentLines (Compilation.ofDevice keyedPanel (frontOfKey ++ backOfKey)
        .builtin {}).document :=
  comment_changes_no_content keyedPanel .builtin {} backOfKey (closed_unlines _) (by decide)
    (by decide) (by decide) (by decide) (by decide) (by decide +kernel)

/-- A comment that holds the placeholder of the key is removed in place of the line with the key. -/
theorem comment_keeps_placeholder :
    (Closed frontOfKey ∧ frontOfKey ≠ [] ∧ isComment "    # key: __ETD_API_KEY__".toList = true ∧
      isInsertionPoint "    # key: __ETD_API_KEY__".toList = false) ∧
      contentLines (Compilation.ofDevice panel
        (frontOfKey ++ ("    # key: __ETD_API_KEY__".toList ++ '\n' :: backOfKey))
          .builtin {}).document ≠
        contentLines (Compilation.ofDevice panel (frontOfKey ++ backOfKey)
          .builtin {}).document := by
  refine ⟨⟨closed_unlines _, by decide⟩, ?_⟩
  decide +kernel

end TouchPanel.Document
