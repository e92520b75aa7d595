import TouchPanel.Proofs.Text.Lines

/-!
# Trimming

Trimming twice is trimming once, and what is trimmed at the end of a text is trimmed at the
end of its last line that is not blank.
-/

namespace TouchPanel.Text

theorem allBlank_append (a b : Text) : allBlank (a ++ b) = (allBlank a && allBlank b) :=
  List.all_append

theorem trimEnd_trimEnd (t : Text) : trimEnd (trimEnd t) = trimEnd t :=
  List.rdropWhile_idempotent isBlank t

theorem trimEnd_eq_nil_iff {t : Text} : trimEnd t = [] ↔ allBlank t = true := by
  rw [allBlank, List.all_eq_true]
  exact List.rdropWhile_eq_nil_iff

theorem trimEnd_isPrefix (t : Text) : trimEnd t <+: t := List.rdropWhile_prefix isBlank t

theorem mem_rdropWhile {α : Type} {p : α → Bool} {l : List α} {a : α} (ha : p a = false)
    (h : a ∈ l) : a ∈ l.rdropWhile p := by
  rw [← List.rdropWhile_append_rtakeWhile (p := p) (l := l)] at h
  refine (List.mem_append.1 h).resolve_right fun hmem => ?_
  rw [List.mem_rtakeWhile_imp hmem] at ha
  cases ha

theorem trim_subset (t : Text) : trim t ⊆ t := fun _ hc =>
  (List.dropWhile_suffix isBlank).subset ((trimEnd_isPrefix _).subset hc)

theorem trimStart_trim (t : Text) : trimStart (trim t) = trim t := by
  have hpre : trim t <+: trimStart t := trimEnd_isPrefix _
  cases htrim : trim t with
  | nil => rfl
  | cons c r =>
    have hne : trimStart t ≠ [] := by
      intro hnil
      rw [htrim, hnil] at hpre
      cases List.prefix_nil.1 hpre
    have hhead : (trimStart t).head hne = c := by
      obtain ⟨s, hs⟩ := hpre
      simp [← hs, htrim]
    have hblank : isBlank c = false := by
      have := List.head_dropWhile_not isBlank hne
      rwa [← hhead]
    simp [trimStart, hblank]

theorem trim_trim (t : Text) : trim (trim t) = trim t := by
  rw [trim, trimStart_trim]
  exact trimEnd_trimEnd _

theorem trimmed_trimmed (s : String) : trimmed (trimmed s) = trimmed s := by
  simp [trimmed, trim_trim]

theorem trimEnd_append_of_not_blank (a : Text) {b : Text} (hb : allBlank b = false) :
    trimEnd (a ++ b) = a ++ trimEnd b := by
  have hne : b.reverse.dropWhile isBlank ≠ [] := by
    intro hnil
    rw [← Bool.not_eq_true, ← trimEnd_eq_nil_iff] at hb
    exact hb (by rw [trimEnd, dropEndWhile, hnil]; rfl)
  rw [trimEnd, dropEndWhile, List.reverse_append, List.dropWhile_append,
    if_neg (by simpa using hne), List.reverse_append, List.reverse_reverse]
  rfl

/-- What is trimmed at the end are blanks. -/
theorem exists_eq_trimEnd_append (t : Text) : ∃ b, allBlank b = true ∧ t = trimEnd t ++ b := by
  refine ⟨t.rtakeWhile isBlank, ?_, List.rdropWhile_append_rtakeWhile.symm⟩
  rw [allBlank, List.all_eq_true]
  exact fun c hc => List.mem_rtakeWhile_imp hc

theorem leadingBlanks_append {a : Text} (ha : allBlank a = false) (b : Text) :
    leadingBlanks (a ++ b) = leadingBlanks a := by
  obtain ⟨c, hc, hblank⟩ := List.all_eq_false.1 ha
  rw [leadingBlanks, List.takeWhile_append, if_neg]
  · rfl
  · intro hlen
    have hwhole := (List.takeWhile_prefix isBlank).eq_of_length hlen
    exact hblank (List.mem_takeWhile_imp (hwhole.symm ▸ hc))

theorem trimStart_append {a : Text} (ha : allBlank a = false) (b : Text) :
    trimStart (a ++ b) = trimStart a ++ b := by
  have hlead := leadingBlanks_append ha b
  have hwhole := leadingBlanks_append_trimStart (a ++ b)
  rw [hlead] at hwhole
  conv_rhs at hwhole => rw [← leadingBlanks_append_trimStart a, List.append_assoc]
  exact List.append_cancel_left hwhole

theorem trimStart_of_allBlank {t : Text} (h : allBlank t = true) : trimStart t = [] :=
  List.dropWhile_eq_nil_iff.2 (List.all_eq_true.1 h)

/-! ## Carriage returns at the end of a line -/

/-- A line without carriage returns at its end. -/
def bare (l : Text) : Text := dropEndWhile (· == '\r') l

theorem bare_append_return (l : Text) : bare (l ++ ['\r']) = bare l := by
  rw [bare, dropEndWhile, List.reverse_append]
  rfl

theorem bare_append_returns (l : Text) {b : Text} (hb : ∀ c ∈ b, c = '\r') :
    bare (l ++ b) = bare l := by
  induction b generalizing l with
  | nil => rw [List.append_nil]
  | cons c b ih =>
    obtain ⟨rfl, hrest⟩ := List.forall_mem_cons.1 hb
    rw [← List.singleton_append, ← List.append_assoc, ih _ hrest, bare_append_return]

theorem exists_eq_bare_append_returns (l : Text) :
    ∃ b, (∀ c ∈ b, c = '\r') ∧ l = bare l ++ b :=
  ⟨l.rtakeWhile (· == '\r'), fun _ hc => by simpa using List.mem_rtakeWhile_imp hc,
    List.rdropWhile_append_rtakeWhile.symm⟩

theorem exists_eq_bare_append (l : Text) : ∃ b, allBlank b = true ∧ l = bare l ++ b := by
  obtain ⟨b, hb, hl⟩ := exists_eq_bare_append_returns l
  refine ⟨b, List.all_eq_true.2 fun c hc => ?_, hl⟩
  rw [hb c hc]
  rfl

theorem trim_bare (l : Text) : trim (bare l) = trim l := by
  obtain ⟨b, hb, hl⟩ := exists_eq_bare_append l
  conv_rhs => rw [hl, trim_append_blank _ hb]

theorem trimEnd_bare (l : Text) : trimEnd (bare l) = trimEnd l := by
  obtain ⟨b, hb, hl⟩ := exists_eq_bare_append l
  conv_rhs => rw [hl, trimEnd_append_blank _ hb]

theorem bare_trimEnd (l : Text) : bare (trimEnd l) = trimEnd l := by
  refine List.rdropWhile_eq_self_iff.2 fun hne hreturn => ?_
  have hlast : isBlank ((trimEnd l).getLast hne) = true := by
    rw [beq_iff_eq.1 hreturn]
    rfl
  exact List.rdropWhile_last_not isBlank l hne hlast

theorem allBlank_bare (l : Text) : allBlank (bare l) = allBlank l := by
  obtain ⟨b, hb, hl⟩ := exists_eq_bare_append l
  conv_rhs => rw [hl, allBlank_append, hb, Bool.and_true]

theorem leadingBlanks_bare {l : Text} (h : allBlank l = false) :
    leadingBlanks (bare l) = leadingBlanks l := by
  obtain ⟨b, -, hl⟩ := exists_eq_bare_append l
  conv_rhs => rw [hl, leadingBlanks_append (by rwa [allBlank_bare])]

theorem trimStart_bare {l : Text} (h : allBlank l = false) :
    ∃ b, (∀ c ∈ b, c = '\r') ∧ trimStart l = trimStart (bare l) ++ b := by
  obtain ⟨b, hb, hl⟩ := exists_eq_bare_append_returns l
  refine ⟨b, hb, ?_⟩
  conv_lhs => rw [hl, trimStart_append (by rwa [allBlank_bare])]

end TouchPanel.Text
