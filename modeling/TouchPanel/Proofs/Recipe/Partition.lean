import TouchPanel.Proofs.Document.Padding
import TouchPanel.Proofs.Document.Parts
import TouchPanel.Proofs.Recipe.Tail

/-!
# Sections as parts of a text

The sections of a text are its lines, each in one section and in their order, and a line with a
key at the margin begins a section. Sections that are joined with an empty line between each two
are read back with their keys and texts.
-/

namespace TouchPanel.Recipe

open Text Document

variable {t l key : Text} {ls lead : List Text} {s : Section} {ss : List Section}

/-! ## Lines with a key -/

/-- A line that begins with a key: a name, blanks, a colon, and then nothing or a blank. -/
def HasKey (line key : Text) : Prop :=
  ∃ gap rest, line = key ++ (gap ++ ':' :: rest) ∧ key.all isKeyChar = true ∧
    key.head?.any isKeyStart = true ∧ allBlank gap = true ∧ rest.head?.all isBlank = true

theorem exists_of_opens (h : opens t = true) :
    ∃ gap rest, t = gap ++ ':' :: rest ∧ allBlank gap = true ∧ rest.head?.all isBlank = true := by
  have hsplit := leadingBlanks_append_trimStart t
  have hgap : allBlank (leadingBlanks t) = true := List.all_takeWhile
  unfold opens at h
  split at h
  · next rest hstart => exact ⟨leadingBlanks t, rest, by rw [← hstart, hsplit], hgap, h⟩
  · cases h

theorem topLevelKey?_eq_some_iff : topLevelKey? l = some key ↔ HasKey l key := by
  constructor
  · intro h
    obtain ⟨hchars, hstart⟩ := topLevelKey?_spec h
    rw [topLevelKey?_eq] at h
    obtain ⟨hopens, hkey⟩ := Option.ite_none_right_eq_some.1 h
    obtain ⟨gap, rest, hdrop, hgap, hrest⟩ := exists_of_opens (Bool.and_eq_true_iff.1 hopens).2
    refine ⟨gap, rest, ?_, hchars, hstart, hgap, hrest⟩
    rw [← hdrop, ← Option.some.inj hkey, List.takeWhile_append_dropWhile]
  · rintro ⟨gap, rest, rfl, hchars, hstart, hgap, hrest⟩
    exact topLevelKey?_key_gap hchars hstart hgap hrest

theorem topLevelKey?_eq_none_iff : topLevelKey? l = none ↔ ∀ key, ¬ HasKey l key := by
  rw [Option.eq_none_iff_forall_ne_some]
  exact forall_congr' fun key => topLevelKey?_eq_some_iff.not

/-! ## Sections of a text -/

/-- The sections that lines have in front of those with a key. -/
def leadSections (lead : List Text) : List Section := if lead = [] then [] else [⟨none, lead⟩]

theorem split_eq (t : Text) :
    Section.split t = leadSections (leadOf (lines t)) ++ keyedOf (lines t) :=
  ofLines_eq (lines t)

theorem flatMap_lines_split (t : Text) : (Section.split t).flatMap (·.lines) = lines t := by
  have hlead : (leadSections (leadOf (lines t))).flatMap (·.lines) = leadOf (lines t) := by
    unfold leadSections
    split
    · next hnil => rw [hnil]; rfl
    · rw [List.flatMap_singleton]
  rw [split_eq, List.flatMap_append, hlead, leadOf_append_flatMap_keyedOf]

/-- The first line of a section may have a key, and that is the key of the section. -/
theorem exists_cons_of_mem_split (h : s ∈ Section.split t) :
    ∃ first rest, s.lines = first :: rest ∧ topLevelKey? first = s.key ∧
      ∀ l ∈ rest, topLevelKey? l = none := by
  rw [split_eq] at h
  rcases List.mem_append.1 h with h | h
  · unfold leadSections at h
    split at h
    · cases h
    · next hlead =>
      obtain rfl := List.mem_singleton.1 h
      have hinner : ∀ l ∈ leadOf (lines t), topLevelKey? l = none := fun l hl =>
        isInner_iff.1 (isInner_of_mem_leadOf hl)
      obtain ⟨first, rest, hcons⟩ := List.exists_cons_of_ne_nil hlead
      rw [hcons] at hinner
      exact ⟨first, rest, hcons, List.forall_mem_cons.1 hinner⟩
  · obtain ⟨key, first, rest, hs⟩ := isKeyed_of_mem_keyedOf h
    exact ⟨first, rest, hs.lines_eq, hs.head.trans hs.key_eq.symm, fun l hl =>
      isInner_iff.1 (hs.tail l hl)⟩

theorem key_ne_none_of_mem_keyedOf (h : s ∈ keyedOf ls) : s.key ≠ none := by
  obtain ⟨key, l, r, hs⟩ := isKeyed_of_mem_keyedOf h
  rw [hs.key_eq]
  exact Option.some_ne_none key

theorem key_ne_none_of_mem_tail_split (h : s ∈ (Section.split t).tail) : s.key ≠ none := by
  have hmem : s ∈ keyedOf (lines t) := by
    rw [split_eq, leadSections] at h
    split at h
    · exact List.mem_of_mem_tail h
    · exact h
  exact key_ne_none_of_mem_keyedOf hmem

theorem hasSection_iff_exists_mem_split :
    hasSection t key = true ↔ ∃ s ∈ Section.split t, s.key = some key := by
  rw [hasSection_iff, ← not_iff_not, ← named_eq_nil_iff, ← named_split]
  simp [named, List.filter_eq_nil_iff]

/-! ## Sections that are joined -/

/-- A section without the blank lines at its end. -/
def contentOf (s : Section) : Section := { s with lines := s.lines.rdropWhile allBlank }

theorem text_eq_joinLines (s : Section) : s.text = joinLines (contentOf s).lines := rfl

theorem text_contentOf (s : Section) : (contentOf s).text = s.text :=
  congrArg joinLines (List.rdropWhile_idempotent allBlank s.lines)

theorem allBlank_text (s : Section) : allBlank s.text = s.lines.all allBlank := by
  have hdropped : (s.lines.rtakeWhile allBlank).all allBlank = true :=
    List.all_eq_true.2 fun l hl => List.mem_rtakeWhile_imp hl
  conv_rhs => rw [← List.rdropWhile_append_rtakeWhile (p := allBlank) (l := s.lines),
    List.all_append, hdropped, Bool.and_true]
  rw [text_eq_joinLines, allBlank_joinLines]
  rfl

theorem lines_contentOf_ne_nil (h : allBlank s.text = false) : (contentOf s).lines ≠ [] := by
  intro hnil
  rw [text_eq_joinLines, hnil] at h
  cases h

theorem allBlank_text_keyed {r : List Text} (h : s.IsKeyed key l r) : allBlank s.text = false := by
  rw [allBlank_text, h.lines_eq, List.all_cons, Bool.and_eq_false_iff]
  refine Or.inl ?_
  rw [← Bool.not_eq_true]
  intro hblank
  have hhead := h.head
  rw [topLevelKey?_of_allBlank hblank] at hhead
  cases hhead

theorem isKeyed_contentOf {r : List Text} (h : s.IsKeyed key l r) :
    ∃ r', (contentOf s).IsKeyed key l r' := by
  have hne := lines_contentOf_ne_nil (allBlank_text_keyed h)
  obtain ⟨first, r', hcons⟩ := List.exists_cons_of_ne_nil hne
  obtain ⟨blanks, hblanks⟩ : (contentOf s).lines <+: s.lines := List.rdropWhile_prefix _ _
  rw [hcons, h.lines_eq, List.cons_append] at hblanks
  obtain ⟨rfl, rfl⟩ := List.cons.inj hblanks
  exact ⟨r', h.key_eq, hcons, h.head, fun x hx => h.tail x (List.mem_append_left _ hx)⟩

theorem exists_isKeyed_contentOf (ls : List Text) :
    ∀ s ∈ (keyedOf ls).map contentOf, ∃ key l r, s.IsKeyed key l r := by
  refine List.forall_mem_map.2 fun s hs => ?_
  obtain ⟨key, l, r, h⟩ := isKeyed_of_mem_keyedOf hs
  obtain ⟨r', h'⟩ := isKeyed_contentOf h
  exact ⟨key, l, r', h'⟩

/-! ### Blocks of lines -/

variable {blocks : List (List Text)}

theorem mem_spaced (h : l ∈ spaced blocks) : l = [] ∨ ∃ b ∈ blocks, l ∈ b := by
  induction blocks with
  | nil => cases h
  | cons b blocks ih =>
    by_cases hnil : blocks = []
    · rw [hnil, spaced, List.intercalate_singleton] at h
      exact Or.inr ⟨b, List.mem_cons_self, h⟩
    · rw [spaced_cons hnil, List.mem_append, List.mem_cons] at h
      rcases h with h | rfl | h
      · exact Or.inr ⟨b, List.mem_cons_self, h⟩
      · exact Or.inl rfl
      · rcases ih h with rfl | ⟨c, hc, hl⟩
        · exact Or.inl rfl
        · exact Or.inr ⟨c, List.mem_cons_of_mem b hc, hl⟩

theorem spaced_ne_nil (hne : blocks ≠ []) (h : ∀ b ∈ blocks, b ≠ []) : spaced blocks ≠ [] := by
  obtain ⟨b, rest, rfl⟩ := List.exists_cons_of_ne_nil hne
  have hb := h b List.mem_cons_self
  by_cases hnil : rest = []
  · rwa [hnil, spaced, List.intercalate_singleton]
  · rw [spaced_cons hnil]
    exact List.append_ne_nil_of_left_ne_nil hb _

theorem exists_getLast?_spaced (h : ∀ b ∈ blocks, b ≠ []) (hl : l ∈ (spaced blocks).getLast?) :
    ∃ b ∈ blocks, l ∈ b.getLast? := by
  induction blocks with
  | nil => cases hl
  | cons b blocks ih =>
    obtain ⟨-, hrest⟩ := List.forall_mem_cons.1 h
    by_cases hnil : blocks = []
    · rw [hnil, spaced, List.intercalate_singleton] at hl
      exact ⟨b, List.mem_cons_self, hl⟩
    · obtain ⟨x, xs, hcons⟩ := List.exists_cons_of_ne_nil (spaced_ne_nil hnil hrest)
      have hlast : (spaced (b :: blocks)).getLast? = (spaced blocks).getLast? := by
        rw [spaced_cons hnil, hcons, List.getLast?_append_of_ne_nil _ (List.cons_ne_nil _ _),
          List.getLast?_cons_cons]
      obtain ⟨c, hc, hmem⟩ := ih hrest (hlast ▸ hl)
      exact ⟨c, List.mem_cons_of_mem b hc, hmem⟩

/-- Joined with an empty line between each two, blocks are joined line by line. -/
theorem joinWith_joinLines (h : ∀ b ∈ blocks, b ≠ []) :
    joinWith ['\n', '\n'] (blocks.map joinLines) = joinLines (spaced blocks) := by
  induction blocks with
  | nil => rfl
  | cons b blocks ih =>
    obtain ⟨hb, hrest⟩ := List.forall_mem_cons.1 h
    cases blocks with
    | nil =>
      rw [spaced, List.intercalate_singleton]
      rfl
    | cons c blocks =>
      have hne : spaced (c :: blocks) ≠ [] := spaced_ne_nil (List.cons_ne_nil c blocks) hrest
      rw [spaced_cons (List.cons_ne_nil c blocks), joinLines_append hb (List.cons_ne_nil _ _),
        joinLines_cons hne, ← ih hrest, List.map_cons, List.map_cons, joinWith, List.append_assoc]
      rfl

/-! ### Reading joined sections -/

/-- Lines without a key and sections with one, joined with an empty line between each two, are
read back with no more than empty lines behind them. -/
theorem forall₂_isPadded_ofLines (hlead : ∀ l ∈ lead, isInner l = true)
    (hss : ∀ s ∈ ss, ∃ key l r, s.IsKeyed key l r) :
    List.Forall₂ IsPadded (leadSections lead ++ ss)
      (Section.ofLines (spaced ((leadSections lead ++ ss).map (·.lines)))) := by
  have hnone : leadOf (spaced (ss.map (·.lines))) = [] := by
    cases ss with
    | nil => rfl
    | cons s ss =>
      obtain ⟨key, l, r, hs⟩ := hss s List.mem_cons_self
      exact leadOf_spaced hs _
  have hkeyed := keyedOf_spaced hss
  unfold leadSections
  split
  · rw [List.nil_append, ofLines_eq, if_pos hnone]
    exact hkeyed
  · next hne =>
    rw [List.singleton_append, List.map_cons, ofLines_eq]
    cases ss with
    | nil =>
      have hwhole : leadOf lead = lead := List.takeWhile_eq_self_iff.2 hlead
      have hkeyless : keyedOf lead = [] := by
        simpa [keyedOf] using keyedOf_inner_append hlead []
      rw [List.map_nil, spaced, List.intercalate_singleton, hwhole, hkeyless, if_neg hne]
      exact .cons ⟨rfl, 0, (List.append_nil _).symm⟩ .nil
    | cons s ss =>
      have hspaced : spaced (lead :: (s :: ss).map (·.lines)) =
          (lead ++ [[]]) ++ spaced ((s :: ss).map (·.lines)) := by
        rw [spaced_cons (by simp), List.append_assoc]
        rfl
      have hinner : ∀ l ∈ lead ++ [[]], isInner l = true :=
        List.forall_mem_append.2 ⟨hlead, List.forall_mem_singleton.2 rfl⟩
      rw [hspaced, leadOf_inner_append hinner, keyedOf_inner_append hinner, hnone, List.append_nil,
        if_neg (by simp)]
      exact .cons ⟨rfl, 1, rfl⟩ hkeyed

/-! ### Sections that hold more than blanks -/

/-- The sections of a text that hold more than blanks. -/
def nonblankSections (t : Text) : List Section :=
  (Section.split t).filter (!allBlank ·.text)

theorem not_allBlank_of_mem_nonblankSections (h : s ∈ nonblankSections t) :
    allBlank s.text = false := by
  simpa using List.of_mem_filter h

/-- The last line of what a section holds is not blank. -/
theorem ne_nil_of_mem_getLast?_contentOf (h : l ∈ (contentOf s).lines.getLast?) : l ≠ [] := by
  rintro rfl
  have hne : (contentOf s).lines ≠ [] := by
    intro hnil
    rw [hnil] at h
    cases h
  have hlast := List.rdropWhile_last_not allBlank s.lines hne
  have hnil := Option.some.inj ((List.getLast?_eq_some_getLast hne).symm.trans h)
  exact hlast (congrArg allBlank hnil)

/-- Only the lines in front of the first key can be blank. -/
theorem nonblankSections_eq (t : Text) :
    nonblankSections t =
      (leadSections (leadOf (lines t))).filter (!allBlank ·.text) ++ keyedOf (lines t) := by
  rw [nonblankSections, split_eq, List.filter_append]
  congr 1
  refine List.filter_eq_self.2 fun s hs => ?_
  obtain ⟨key, l, r, h⟩ := isKeyed_of_mem_keyedOf hs
  rw [allBlank_text_keyed h]
  rfl

theorem map_contentOf_leadSections (lead : List Text) :
    ((leadSections lead).filter (!allBlank ·.text)).map contentOf =
      leadSections (lead.rdropWhile allBlank) := by
  by_cases hblank : ∀ l ∈ lead, allBlank l = true
  · have hnil : lead.rdropWhile allBlank = [] := List.rdropWhile_eq_nil_iff.2 hblank
    rw [hnil, leadSections]
    split
    · rfl
    · have htext : allBlank (⟨none, lead⟩ : Section).text = true := by
        rw [allBlank_text]
        exact List.all_eq_true.2 hblank
      rw [List.filter_cons_of_neg (by simp [htext])]
      rfl
  · have hne : lead.rdropWhile allBlank ≠ [] := fun hnil =>
      hblank (List.rdropWhile_eq_nil_iff.1 hnil)
    have hlead : lead ≠ [] := by
      rintro rfl
      exact hne rfl
    have htext : allBlank (⟨none, lead⟩ : Section).text = false := by
      rw [allBlank_text, ← Bool.not_eq_true, List.all_eq_true]
      exact hblank
    rw [leadSections, leadSections, if_neg hlead, if_neg hne,
      List.filter_cons_of_pos (by simp [htext])]
    rfl

theorem mem_nonblankSections_of_key (h : s ∈ Section.split t) (hkey : s.key ≠ none) :
    s ∈ nonblankSections t := by
  rw [nonblankSections_eq]
  rw [split_eq] at h
  refine List.mem_append_right _ ((List.mem_append.1 h).resolve_left fun hlead => ?_)
  unfold leadSections at hlead
  split at hlead
  · cases hlead
  · rw [List.mem_singleton.1 hlead] at hkey
    exact hkey rfl

theorem allLines_contentOf (ht : '\r' ∉ t) (h : s ∈ nonblankSections t) :
    AllLines (contentOf s).lines := by
  intro l hl
  have hline : l ∈ s.lines := (List.rdropWhile_prefix _ _).subset hl
  have hmem : l ∈ (Section.split t).flatMap (·.lines) :=
    List.mem_flatMap.2 ⟨s, List.mem_of_mem_filter h, hline⟩
  rw [flatMap_lines_split] at hmem
  exact allLines_lines ht l hmem

theorem lines_join_nonblankSections (ht : '\r' ∉ t) :
    lines (joinWith ['\n', '\n'] ((nonblankSections t).map Section.text)) =
      spaced (((nonblankSections t).map contentOf).map (·.lines)) := by
  have hblock : ∀ b ∈ ((nonblankSections t).map contentOf).map (·.lines), AllLines b ∧ b ≠ [] ∧
      ∀ l ∈ b.getLast?, l ≠ [] := by
    refine List.forall_mem_map.2 (List.forall_mem_map.2 fun s hs => ?_)
    exact ⟨allLines_contentOf ht hs,
      lines_contentOf_ne_nil (not_allBlank_of_mem_nonblankSections hs),
      fun l => ne_nil_of_mem_getLast?_contentOf⟩
  have htexts : (nonblankSections t).map Section.text =
      (((nonblankSections t).map contentOf).map (·.lines)).map joinLines := by
    rw [List.map_map, List.map_map]
    rfl
  rw [htexts, joinWith_joinLines fun b hb => (hblock b hb).2.1]
  refine AllLines.lines_joinLines (fun l hl => ?_) fun l hl => ?_
  · rcases mem_spaced hl with rfl | ⟨b, hb, hmem⟩
    · exact ⟨List.not_mem_nil, rfl⟩
    · exact (hblock b hb).1 l hmem
  · obtain ⟨b, hb, hmem⟩ := exists_getLast?_spaced (fun b hb => (hblock b hb).2.1) hl
    exact (hblock b hb).2.2 l hmem

theorem split_join_nonblankSections (ht : '\r' ∉ t) :
    List.Forall₂ IsPadded ((nonblankSections t).map contentOf)
      (Section.split (joinWith ['\n', '\n'] ((nonblankSections t).map Section.text))) := by
  have hlead : ∀ l ∈ (leadOf (lines t)).rdropWhile allBlank, isInner l = true := fun l hl =>
    isInner_of_mem_leadOf ((List.rdropWhile_prefix _ _).subset hl)
  rw [Section.split, lines_join_nonblankSections ht, nonblankSections_eq, List.map_append,
    map_contentOf_leadSections]
  exact forall₂_isPadded_ofLines hlead (exists_isKeyed_contentOf _)

theorem text_of_isPadded {s' : Section} (h : IsPadded s s') : s'.text = s.text := by
  obtain ⟨-, n, hlines⟩ := h
  have htext := text_append_blank s' (b := List.replicate n [])
    (fun l hl => by rw [List.eq_of_mem_replicate hl]; rfl) s.lines
  rw [← hlines] at htext
  exact htext

/-! ## Lines of a text by its sections -/

/-- The sections of a text are its lines in their order. The first line of a section has the key
of the section if that has one, no other line has a key, and only the first section can be
without. Without carriage returns, the sections that hold more than blanks are read back if they
are joined with an empty line between each two, and these are all that have a key. -/
theorem split_partitions (t : Text) :
    (Section.split t).flatMap (·.lines) = lines t ∧
      (∀ s ∈ Section.split t, ∃ first rest, s.lines = first :: rest ∧
        (∀ key, HasKey first key ↔ s.key = some key) ∧ ∀ l ∈ rest, ∀ key, ¬ HasKey l key) ∧
      (∀ s ∈ (Section.split t).tail, s.key ≠ none) ∧
      (∀ key, hasSection t key = true ↔ ∃ s ∈ Section.split t, s.key = some key) ∧
      (∀ s ∈ Section.split t, s.key ≠ none → s ∈ nonblankSections t) ∧
      ('\r' ∉ t →
        (Section.split (joinWith ['\n', '\n'] ((nonblankSections t).map Section.text))).map
          (fun s => (s.key, s.text)) = (nonblankSections t).map fun s => (s.key, s.text)) := by
  refine ⟨flatMap_lines_split t, fun s hs => ?_, fun _ => key_ne_none_of_mem_tail_split,
    fun _ => hasSection_iff_exists_mem_split, fun _ => mem_nonblankSections_of_key, fun ht => ?_⟩
  · obtain ⟨first, rest, hlines, hfirst, hrest⟩ := exists_cons_of_mem_split hs
    refine ⟨first, rest, hlines, fun key => ?_, fun l hl => topLevelKey?_eq_none_iff.1 (hrest l hl)⟩
    rw [← topLevelKey?_eq_some_iff, hfirst]
  · have hread : ∀ s s' : Section, IsPadded s s' → (s'.key, s'.text) = (s.key, s.text) :=
      fun s s' h => by rw [h.1, text_of_isPadded h]
    rw [map_of_forall₂ hread (split_join_nonblankSections ht), List.map_map]
    exact List.map_congr_left fun s _ => by rw [Function.comp_apply, text_contentOf]; rfl

/-- A text that begins with blank lines and whose second key has a blank behind it. -/
theorem split_partitions_blank :
    let t := "\n \nesphome:\n  name: x\n \n\n# note\n\nsensor\u00a0:\n- a:".toList
    '\r' ∉ t ∧
      (Section.split (joinWith ['\n', '\n'] ((nonblankSections t).map Section.text))).map
          (fun s => (s.key, s.text)) =
        [(some "esphome".toList, "esphome:\n  name: x\n \n\n# note".toList),
          (some "sensor".toList, "sensor\u00a0:\n- a:".toList)] := by
  intro t
  have ht : '\r' ∉ t := by decide
  obtain ⟨-, -, -, -, -, hread⟩ := split_partitions t
  refine ⟨ht, (hread ht).trans ?_⟩
  decide

end TouchPanel.Recipe
