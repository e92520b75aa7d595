import TouchPanel.Proofs.Document.Padding
import TouchPanel.Proofs.Recipe.Read

/-!
# Content of a document

The content of a text are its lines that are neither blank nor comments. Two recipes whose lines
agree in what is read have sections that agree in their content, and such sections take the same
entries and give documents of the same content.
-/

namespace TouchPanel.Document

open Text Recipe

variable {d : Device} {f : Fragments} {t t' key l : Text} {ls ls' : List Text} {s s' : Section}

/-- The lines of a text that are neither blank nor comments, without the blanks at their ends. -/
def contentLines (t : Text) : List Text := chosen isContent (lines t)

/-- Two texts of the same content. -/
def SameContent (t t' : Text) : Prop := contentLines t' = contentLines t

theorem contentLines_trimEnd (t : Text) : contentLines (trimEnd t) = contentLines t :=
  chosen_lines_trimEnd isChoice_isContent t

theorem contentLines_joinLines (h : ∀ l ∈ ls, '\n' ∉ l) :
    contentLines (joinLines ls) = chosen isContent ls :=
  chosen_lines_joinLines isChoice_isContent h

theorem contentLines_text (h : ∀ l ∈ s.lines, '\n' ∉ l) :
    contentLines s.text = chosen isContent s.lines := by
  rw [← contentLines_trimEnd, trimEnd_text, contentLines_joinLines (newline_not_mem_tidyEnd h),
    chosen_tidyEnd isChoice_isContent]

/-! ## The filled recipe -/

theorem keysOf_readLines (t : Text) : keysOf (readLines t) = keysOf (lines t) := by
  have htrim : topLevelKey? ∘ trimEnd = topLevelKey? := funext topLevelKey?_trimEnd
  rw [readLines, chosen, keysOf, List.filterMap_map, htrim]
  exact keysOf_filter (fun l => isInner_of_not_isRead) (lines t)

theorem hasSection_of_readLines (h : readLines t' = readLines t) :
    hasSection t' = hasSection t := by
  funext key
  rw [Bool.eq_iff_iff, hasSection_iff, hasSection_iff, ← keysOf_readLines, h, keysOf_readLines]

theorem readLines_paged (h : readLines t' = readLines t) (f : Fragments) :
    readLines (paged t' f) = readLines (paged t f) :=
  readLines_replaceMarker?_getD pagesMarker_eq _ h h

/-- Recipes that agree in what is read are filled in the same way. -/
theorem fill_of_readLines (h : readLines t' = readLines t) (f : Fragments) :
    readLines (fill t' f).text = readLines (fill t f).text ∧
      (fill t' f).existing = (fill t f).existing ∧ (fill t' f).left = (fill t f).left := by
  have hpaged := readLines_paged h f
  have hhas := hasSection_of_readLines hpaged
  have hmissing : fresh (paged t' f) f = fresh (paged t f) f := by rw [fresh, fresh, hhas]
  rw [fill_eq_paged, fill_eq_paged, hmissing, hhas]
  dsimp only
  generalize (Mapping.ofList _).render 0 = payload
  refine ⟨readLines_replaceMarker?_getD bindingsMarker_eq payload hpaged hpaged, rfl, ?_⟩
  have hsome := congrArg Option.isSome (readLines_replaceMarker? bindingsMarker_eq payload hpaged)
  rw [Option.isSome_map, Option.isSome_map] at hsome
  rw [hsome]

theorem occurs_of_readLines (h : readLines t' = readLines t) :
    occurs deviceNamePlaceholder t' = occurs deviceNamePlaceholder t := by
  have hread : ∀ t, occurs deviceNamePlaceholder t =
      (readLines t).any (occurs deviceNamePlaceholder) := by
    intro t
    rw [occurs_eq_any_lines (by decide) (by decide) (by decide), readLines, chosen, List.any_map,
      List.any_filter]
    refine congrArg (List.any (lines t)) (funext fun l => ?_)
    rw [Function.comp_apply, occurs_trimEnd (by decide) (by decide), isRead]
    cases occurs deviceNamePlaceholder l <;> simp
  rw [hread, hread, h]

/-! ## Sections -/

/-- A section that begins with the line of its key. -/
structure IsHeaded (s : Section) : Prop where
  free : ∀ l ∈ s.lines, '\n' ∉ l
  head : ∃ key l r, s.key = some key ∧ s.lines = l :: r ∧ topLevelKey? l = some key

/-- Two sections of one key and the same content. -/
structure Agrees (s s' : Section) : Prop where
  left : IsHeaded s
  right : IsHeaded s'
  key_eq : s'.key = s.key
  content_eq : chosen isContent s'.lines = chosen isContent s.lines

theorem isContent_of_topLevelKey? (h : topLevelKey? l = some key) : isContent l = true := by
  have hblank : allBlank l = false := by
    rw [← Bool.not_eq_true]
    intro hblank
    rw [topLevelKey?_of_allBlank hblank] at h
    cases h
  have hcomment : isComment l = false := by
    rw [← Bool.not_eq_true]
    intro hcomment
    rw [topLevelKey?_of_isComment hcomment] at h
    cases h
  rw [isContent, hblank, hcomment]
  rfl

theorem isHeaded_of_mem_keyedOf (h : s ∈ keyedOf (lines t)) : IsHeaded s := by
  obtain ⟨key, l, r, hs⟩ := isKeyed_of_mem_keyedOf h
  exact ⟨fun l hl => newline_not_mem_of_mem_lines (lines_subset_of_mem_keyedOf h hl),
    key, l, r, hs.key_eq, hs.lines_eq, hs.head⟩

theorem chosen_isContent_isRead (ls : List Text) :
    chosen isContent (chosen isRead ls) = chosen isContent ls := by
  rw [chosen.eq_def isRead, chosen_map isChoice_isContent trimEnd_trimEnd, chosen,
    List.filter_filter]
  refine congrArg (List.map trimEnd) (List.filter_congr fun l _ => ?_)
  cases hl : isContent l with
  | true => rw [isRead_of_isContent hl]; rfl
  | false => rfl

theorem leadOf_readLines (ls : List Text) :
    leadOf (chosen isRead ls) = chosen isRead (leadOf ls) := by
  rw [chosen, leadOf_map trimEnd fun l _ => topLevelKey?_trimEnd l,
    leadOf_filter fun l => isInner_of_not_isRead]
  rfl

/-- A section with the lines that are read. -/
def readOf (s : Section) : Section := { s with lines := chosen isRead s.lines }

theorem keyedOf_readLines (ls : List Text) :
    keyedOf (chosen isRead ls) = (keyedOf ls).map readOf := by
  rw [chosen, keyedOf_map trimEnd fun l _ => topLevelKey?_trimEnd l,
    keyedOf_filter fun l => isInner_of_not_isRead, List.map_map]
  rfl

theorem forall₂_of_map_eq {g : Section → Section} {P : Section → Prop} {ss ss' : List Section}
    (h : ss.map g = ss'.map g) (hss : ∀ s ∈ ss, P s) (hss' : ∀ s ∈ ss', P s) :
    List.Forall₂ (fun s s' => P s ∧ P s' ∧ g s = g s') ss ss' := by
  induction ss generalizing ss' with
  | nil =>
    obtain rfl := List.map_eq_nil_iff.1 h.symm
    exact .nil
  | cons s ss ih =>
    obtain ⟨s', ss', rfl, hhead, htail⟩ := List.map_eq_cons_iff.1 h.symm
    obtain ⟨hs, hrest⟩ := List.forall_mem_cons.1 hss
    obtain ⟨hs', hrest'⟩ := List.forall_mem_cons.1 hss'
    exact .cons ⟨hs, hs', hhead.symm⟩ (ih htail.symm hrest hrest')

/-- Recipes that agree in what is read have sections that agree. -/
theorem forall₂_agrees (h : readLines t' = readLines t) :
    List.Forall₂ Agrees (keyedOf (lines t)) (keyedOf (lines t')) := by
  have hmap : (keyedOf (lines t)).map readOf = (keyedOf (lines t')).map readOf := by
    rw [← keyedOf_readLines, ← keyedOf_readLines]
    exact congrArg keyedOf h.symm
  refine (forall₂_of_map_eq hmap (fun _ => isHeaded_of_mem_keyedOf)
    fun _ => isHeaded_of_mem_keyedOf).imp fun s s' ⟨hs, hs', heq⟩ => ⟨hs, hs', ?_, ?_⟩
  · exact (congrArg Section.key heq).symm
  · have hread : chosen isRead s'.lines = chosen isRead s.lines :=
      (congrArg Section.lines heq).symm
    rw [← chosen_isContent_isRead, hread, chosen_isContent_isRead]

theorem chosen_leadOf_eq (h : readLines t' = readLines t) :
    chosen isContent (leadOf (lines t')) = chosen isContent (leadOf (lines t)) := by
  rw [← chosen_isContent_isRead, ← leadOf_readLines]
  conv_rhs => rw [← chosen_isContent_isRead, ← leadOf_readLines]
  exact congrArg (fun ls => chosen isContent (leadOf ls)) h

/-! ## What a section is asked for -/

theorem indentOf_trimEnd (h : allBlank l = false) : indentOf (trimEnd l) = indentOf l := by
  rw [indentOf, indentOf, leadingBlanks_trimEnd h]

theorem isListItem_trimEnd (l : Text) : Section.isListItem (trimEnd l) = Section.isListItem l := by
  obtain ⟨b, hb, hl⟩ := exists_eq_trimEnd_append l
  conv_rhs => rw [hl, isListItem_append_blank _ hb]

theorem lineValue_trimEnd (l : Text) : lineValue (trimEnd l) = lineValue l := by
  obtain ⟨b, hb, hl⟩ := exists_eq_trimEnd_append l
  conv_rhs => rw [hl, lineValue_append_blank _ hb]

/-- A section with the line of its key, and the content of the other lines. -/
theorem IsHeaded.chosen_eq (h : IsHeaded s) : ∃ l, s.lines = l :: s.lines.drop 1 ∧
    chosen isContent s.lines = trimEnd l :: chosen isContent (s.lines.drop 1) := by
  obtain ⟨key, l, r, -, hlines, hkey⟩ := h.head
  refine ⟨l, by rw [hlines]; rfl, ?_⟩
  rw [hlines, chosen_cons_of_pos (isContent_of_topLevelKey? hkey)]
  rfl

theorem Agrees.drop_eq (h : Agrees s s') :
    chosen isContent (s'.lines.drop 1) = chosen isContent (s.lines.drop 1) := by
  obtain ⟨l, -, hl⟩ := h.left.chosen_eq
  obtain ⟨l', -, hl'⟩ := h.right.chosen_eq
  have heq := h.content_eq
  rw [hl, hl'] at heq
  exact (List.cons.inj heq).2

theorem Agrees.inlineValue_eq (h : Agrees s s') : s'.inlineValue = s.inlineValue := by
  obtain ⟨l, hlines, hl⟩ := h.left.chosen_eq
  obtain ⟨l', hlines', hl'⟩ := h.right.chosen_eq
  have heq := h.content_eq
  rw [hl, hl'] at heq
  rw [Recipe.inlineValue_eq hlines, Recipe.inlineValue_eq hlines', ← lineValue_trimEnd,
    (List.cons.inj heq).1, lineValue_trimEnd]

theorem Agrees.firstChild?_eq (h : Agrees s s') :
    s'.firstChild?.map trimEnd = s.firstChild?.map trimEnd := by
  have hfirst : ∀ s : Section, s.firstChild?.map trimEnd =
      (chosen isContent (s.lines.drop 1)).head? := fun s => by
    rw [Section.firstChild?, chosen, List.head?_map, List.head?_filter]
  rw [hfirst, hfirst, h.drop_eq]

theorem map_firstChild? {α : Type} {g : Text → α}
    (hg : ∀ l, isContent l = true → g (trimEnd l) = g l) (s : Section) :
    (s.firstChild?.map trimEnd).map g = s.firstChild?.map g := by
  rw [Option.map_map]
  exact Option.map_congr fun l hl => hg l (List.find?_some hl)

theorem Agrees.childIndent_eq (h : Agrees s s') : s'.childIndent = s.childIndent := by
  have hg : ∀ l, isContent l = true → indentOf (trimEnd l) = indentOf l := fun l hl =>
    indentOf_trimEnd (not_allBlank_of_isContent hl)
  rw [Section.childIndent, Section.childIndent, ← map_firstChild? hg, ← map_firstChild? hg,
    h.firstChild?_eq]

theorem Agrees.entryIndent?_eq (h : Agrees s s') : s'.entryIndent? = s.entryIndent? := by
  have hg : ∀ l, isContent l = true →
      (if Section.isListItem (trimEnd l) then some (indentOf (trimEnd l)) else none) =
        if Section.isListItem l then some (indentOf l) else none := fun l hl => by
    rw [isListItem_trimEnd, indentOf_trimEnd (not_allBlank_of_isContent hl)]
  have hentry : ∀ s : Section, s.entryIndent? = ((s.firstChild?.map trimEnd).map fun l =>
      if Section.isListItem l then some (indentOf l) else none).getD (some 2) := by
    intro s
    rw [map_firstChild? hg, Section.entryIndent?]
    cases s.firstChild? <;> rfl
  rw [hentry, hentry, h.firstChild?_eq]

/-! ## Entries -/

theorem of_mem_drop_rdropWhile {p : Text → Bool} {n : Nat} (hn : (ls.rdropWhile p).length ≤ n)
    (h : l ∈ ls.drop n) : p l = true := by
  have hsplit : ls = ls.rdropWhile p ++ ls.rtakeWhile p :=
    List.rdropWhile_append_rtakeWhile.symm
  rw [hsplit, List.drop_append, List.drop_eq_nil_of_le hn, List.nil_append] at h
  exact List.mem_rtakeWhile_imp (List.mem_of_mem_drop h)

/-- Entries are put behind all lines of content. -/
theorem isContent_of_mem_splitTail (h : l ∈ (Section.splitTail ls).2) : isContent l = false := by
  have htail : (allBlank l || l.head? == some '#') = true := by
    unfold Section.splitTail at h
    dsimp only at h
    rw [List.splitAt_eq] at h
    refine of_mem_drop_rdropWhile (p := fun l => allBlank l || l.head? == some '#') ?_ h
    rw [List.rdropWhile, List.length_reverse]
    split
    · next hcount => omega
    · exact Nat.le_refl _
  rw [Bool.or_eq_true, beq_iff_eq] at htail
  rcases htail with hblank | hhash
  · exact isContent_of_allBlank hblank
  · obtain ⟨r, rfl⟩ := List.head?_eq_some_iff.1 hhash
    exact Bool.and_false _

theorem IsHeaded.exists_openedLines (h : IsHeaded s) :
    ∃ key head, s.key = some key ∧ s.openedLines = head :: s.lines.drop 1 ∧
      topLevelKey? head = some key ∧ '\n' ∉ head ∧
      (s.inlineValue = [] ∧ s.openedLines = s.lines ∨
        s.inlineValue ≠ [] ∧ head = key ++ [':']) := by
  obtain ⟨key, l, r, hkey, hlines, hhead⟩ := h.head
  obtain ⟨hchars, hstart⟩ := topLevelKey?_spec hhead
  have hopened : s.openedLines =
      (if s.inlineValue.isEmpty then l else key ++ [':']) :: s.lines.drop 1 := by
    rw [Section.openedLines, hkey, hlines]
    rfl
  by_cases hinline : s.inlineValue = []
  · have hsame : s.openedLines = s.lines := by
      rw [hopened, hinline, hlines]
      rfl
    refine ⟨key, l, hkey, by rw [hsame, hlines]; rfl, hhead, ?_, Or.inl ⟨hinline, hsame⟩⟩
    exact h.free l (hlines ▸ List.mem_cons_self)
  · rw [if_neg (by simpa using hinline)] at hopened
    exact ⟨key, _, hkey, hopened, topLevelKey?_key_colon hchars hstart rfl,
      newline_not_mem_key_colon hchars, Or.inr ⟨hinline, rfl⟩⟩

theorem Agrees.openedLines_eq (h : Agrees s s') :
    chosen isContent s'.openedLines = chosen isContent s.openedLines := by
  obtain ⟨key, head, hkey, hopened, htop, -, hcase⟩ := h.left.exists_openedLines
  obtain ⟨key', head', hkey', hopened', htop', -, hcase'⟩ := h.right.exists_openedLines
  obtain rfl : key' = key := Option.some.inj (hkey'.symm.trans (h.key_eq.trans hkey))
  rw [h.inlineValue_eq] at hcase'
  rcases hcase with ⟨hinline, hsame⟩ | ⟨hinline, rfl⟩
  · rcases hcase' with ⟨-, hsame'⟩ | ⟨hne, -⟩
    · rw [hsame, hsame', h.content_eq]
    · exact absurd hinline hne
  · rcases hcase' with ⟨hnil, -⟩ | ⟨-, rfl⟩
    · exact absurd hnil hinline
    · have hcontent := isContent_of_topLevelKey? htop
      rw [hopened, hopened', chosen_cons_of_pos hcontent, chosen_cons_of_pos hcontent, h.drop_eq]

/-- A section with lines put behind its content. -/
def withLines (s : Section) (more : List Text) : Section :=
  { s with lines := (Section.splitTail s.openedLines).1 ++ more ++
      (Section.splitTail s.openedLines).2 }

theorem chosen_withLines (s : Section) (more : List Text) :
    chosen isContent (withLines s more).lines =
      chosen isContent s.openedLines ++ chosen isContent more := by
  have hsplit : s.openedLines =
      (Section.splitTail s.openedLines).1 ++ (Section.splitTail s.openedLines).2 := by
    unfold Section.splitTail
    rw [List.splitAt_eq, List.take_append_drop]
  have htail : chosen isContent (Section.splitTail s.openedLines).2 = [] := by
    rw [chosen, List.filter_eq_nil_iff.2 fun l hl => by simp [isContent_of_mem_splitTail hl]]
    rfl
  conv_rhs => rw [hsplit]
  rw [withLines, chosen_append, chosen_append, chosen_append, htail, List.append_nil,
    List.append_nil]

theorem IsHeaded.withLines (h : IsHeaded s) {more : List Text} (hmore : ∀ l ∈ more, '\n' ∉ l) :
    IsHeaded (withLines s more) := by
  obtain ⟨key, head, hkey, hopened, htop, hfree, -⟩ := h.exists_openedLines
  obtain ⟨body, tail, hdrop, hsplit⟩ := Section.splitTail_cons head (s.lines.drop 1)
  have hlines : (Document.withLines s more).lines = head :: (body ++ more ++ tail) := by
    rw [Document.withLines, hopened, hsplit]
    rfl
  have hrest : ∀ l ∈ body ++ tail, '\n' ∉ l := fun l hl =>
    h.free l (List.mem_of_mem_drop (hdrop ▸ hl))
  refine ⟨?_, key, head, _, hkey, hlines, htop⟩
  rw [hlines]
  simp only [List.forall_mem_cons, List.forall_mem_append] at hrest ⊢
  exact ⟨hfree, ⟨hrest.1, hmore⟩, hrest.2⟩

/-- Sections that agree take the same entries. -/
theorem Agrees.append? (h : Agrees s s') (entries : List Node) :
    Option.Rel Agrees (s.append? entries) (s'.append? entries) := by
  rw [Section.append?_eq, Section.append?_eq, h.inlineValue_eq, h.entryIndent?_eq]
  split
  · exact .none
  · cases s.entryIndent? with
    | none => exact .none
    | some n =>
      have hfree : ∀ l ∈ lines (Node.renderList entries n), '\n' ∉ l := fun l =>
        newline_not_mem_of_mem_lines
      refine .some ⟨h.left.withLines hfree, h.right.withLines hfree, h.key_eq, ?_⟩
      exact (chosen_withLines s' _).trans
        (h.openedLines_eq ▸ (chosen_withLines s _).symm)

/-! ## Texts -/

theorem Agrees.text (h : Agrees s s') : SameContent s.text s'.text := by
  rw [SameContent, contentLines_text h.right.free, contentLines_text h.left.free, h.content_eq]

theorem contentLines_preamble (h : ∀ l ∈ s.lines, '\n' ∉ l) :
    contentLines (preamble s) = (chosen isContent s.lines).filter fun l =>
      !(trim l == "---".toList || trim l == "...".toList) := by
  have hfree : ∀ l ∈ (lines s.text).filter fun l =>
      !(trim l == "---".toList || trim l == "...".toList), '\n' ∉ l := fun l hl =>
    newline_not_mem_of_mem_lines (List.mem_of_mem_filter hl)
  have hpreamble : preamble s = joinLines ((lines s.text).filter fun l =>
      !(trim l == "---".toList || trim l == "...".toList)) := rfl
  rw [hpreamble, contentLines_joinLines hfree, chosen_filter fun l => by rw [trim_trimEnd],
    ← contentLines_text h]
  rfl

theorem trimEnd_substitute (d : Device) (l : Text) :
    trimEnd (substitute d (trimEnd l)) = trimEnd (substitute d l) := by
  obtain ⟨b, hb, hl⟩ := exists_eq_trimEnd_append l
  conv_rhs => rw [hl, substitute_append_right d (isApart_of_allBlank hb), trimEnd_append_blank _ hb]

theorem chosen_map_substitute (d : Device) (ls : List Text) :
    chosen isContent (ls.map (substitute d)) =
      (chosen isContent ls).map fun l => trimEnd (substitute d l) := by
  have hcomp : isContent ∘ substitute d = isContent := funext fun l => isContent_substitute d l
  rw [chosen, List.filter_map, hcomp, chosen, List.map_map, List.map_map]
  exact List.map_congr_left fun l _ => (trimEnd_substitute d l).symm

theorem chosen_spaced (blocks : List (List Text)) :
    chosen isContent (spaced blocks) = blocks.flatMap (chosen isContent) := by
  induction blocks with
  | nil => rfl
  | cons block blocks ih =>
    by_cases hnil : blocks = []
    · rw [hnil, spaced, List.intercalate_singleton, List.flatMap_singleton]
    · rw [spaced_cons hnil, chosen_append, chosen_cons_of_neg rfl, ih, List.flatMap_cons]

/-- The content of joined texts is theirs, with the name and the key put in. -/
theorem contentLines_joinSections (d : Device) (texts : List Text) :
    contentLines (joinSections d texts) =
      (texts.flatMap contentLines).map fun l => trimEnd (substitute d l) := by
  have htexts : ∀ ts : List Text, ((ts.map trimEnd).filter (!·.isEmpty)).flatMap contentLines =
      ts.flatMap contentLines := by
    intro ts
    induction ts with
    | nil => rfl
    | cons t ts ih =>
      rw [List.map_cons, List.flatMap_cons, ← contentLines_trimEnd t]
      by_cases hnil : trimEnd t = []
      · rw [List.filter_cons_of_neg (by simp [hnil]), ih, hnil]
        rfl
      · rw [List.filter_cons_of_pos (by simpa using hnil), List.flatMap_cons, ih]
  rw [joinSections, contentLines, chosen_lines_append_newline isChoice_isContent,
    ← chosen_splitOn isChoice_isContent, splitOn_substitute, chosen_map_substitute, ← htexts]
  generalize (texts.map trimEnd).filter (!·.isEmpty) = ts
  refine congrArg (List.map _) ?_
  by_cases hnil : ts = []
  · rw [hnil]
    rfl
  · rw [splitOn_joinWith hnil, chosen_spaced, List.flatMap_map]
    exact List.flatMap_congr fun t _ => chosen_splitOn isChoice_isContent t

theorem sameContent_joinSections (d : Device) {texts texts' : List Text}
    (h : List.Forall₂ SameContent texts texts') :
    SameContent (joinSections d texts) (joinSections d texts') := by
  rw [SameContent, contentLines_joinSections, contentLines_joinSections]
  refine congrArg (List.map _) ?_
  induction h with
  | nil => rfl
  | cons hhead _ ih => rw [List.flatMap_cons, List.flatMap_cons, ih, hhead]

end TouchPanel.Document
