import TouchPanel.Proofs.Document.Encryption
import TouchPanel.Proofs.Document.Placeholder
import TouchPanel.Proofs.Document.Related
import TouchPanel.Proofs.Recipe.Tail

/-!
# A device without a key

The section `api` of a recipe loses the placeholder of the key if the device has none, and a line
`encryption` that nothing is nested under then. Its other lines stay, and the placeholder stands
nowhere in the document unless it does so outside of the section.
-/

namespace TouchPanel.Document

open Text Recipe

variable {d : Device} {s : Section} {ls : List Text}

/-! ## Texts without the placeholder -/

/-- The placeholder of the key does not stand in a text. -/
def IsKeyFree (t : Text) : Prop := occurs apiKeyPlaceholder t = false

instance (t : Text) : Decidable (IsKeyFree t) :=
  inferInstanceAs (Decidable (occurs apiKeyPlaceholder t = false))

theorem isKeyFree_iff {t : Text} : IsKeyFree t ↔ ¬ apiKeyPlaceholder <:+: t := by
  rw [IsKeyFree, ← Bool.not_eq_true, occurs_iff_infix]

theorem isKeyFree_nil : IsKeyFree [] := by decide

theorem IsKeyFree.part {a b : Text} (hb : IsKeyFree b) (h : a <:+: b) : IsKeyFree a :=
  isKeyFree_iff.2 fun hin => isKeyFree_iff.1 hb (hin.trans h)

theorem IsKeyFree.append_cons {a b : Text} (ha : IsKeyFree a) (hb : IsKeyFree b) {c : Char}
    (hc : c ∉ apiKeyPlaceholder) : IsKeyFree (a ++ c :: b) :=
  isKeyFree_iff.2 fun h =>
    (infix_append_cons hc h).elim (isKeyFree_iff.1 ha) (isKeyFree_iff.1 hb)

-- `List.all` evaluates over the list; the bounded `∀` would be decided over every character.
theorem IsKeyFree.append_left {a b : Text} (ha : a.all (· ∉ apiKeyPlaceholder))
    (hb : IsKeyFree b) : IsKeyFree (a ++ b) := by
  have hchars : ∀ c ∈ a, c ∉ apiKeyPlaceholder := fun c hc =>
    of_decide_eq_true (List.all_eq_true.1 ha c hc)
  exact isKeyFree_iff.2 fun h => isKeyFree_iff.1 hb (infix_of_append_left (by decide) hchars h)

theorem isKeyFree_joinWith {c : Char} {sep : Text} {ts : List Text}
    (hc : c ∉ apiKeyPlaceholder) (hsep : sep.all (· ∉ apiKeyPlaceholder))
    (h : ∀ t ∈ ts, IsKeyFree t) : IsKeyFree (joinWith (c :: sep) ts) := by
  induction ts with
  | nil => exact isKeyFree_nil
  | cons t r ih =>
    obtain ⟨ht, hr⟩ := List.forall_mem_cons.1 h
    cases r with
    | nil => exact ht
    | cons u r =>
      rw [joinWith, List.append_assoc, List.cons_append]
      exact ht.append_cons (.append_left hsep (ih hr)) hc

theorem isKeyFree_joinLines (h : ∀ l ∈ ls, IsKeyFree l) : IsKeyFree (joinLines ls) :=
  isKeyFree_joinWith (by decide) rfl h

theorem isKeyFree_iff_lines {t : Text} : IsKeyFree t ↔ ∀ l ∈ lines t, IsKeyFree l := by
  rw [IsKeyFree, occurs_eq_any_lines (by decide) (by decide) (by decide), List.any_eq_false]
  simp only [IsKeyFree, Bool.not_eq_true]

theorem isKeyFree_spaces_append (n : Nat) {t : Text} (ht : IsKeyFree t) :
    IsKeyFree (spaces n ++ t) :=
  .append_left (List.all_eq_true.2 fun c hc =>
    decide_eq_true (isApart_of_allBlank (allBlank_spaces n) c hc).2) ht

theorem isKeyFree_renderList {items : List Node} (n : Nat)
    (h : Row.Each IsKeyFree (Node.listRows items)) : IsKeyFree (Node.renderList items n) := by
  have hline : ∀ r ∈ Node.listRows items, IsKeyFree (Row.line n r) := by
    intro r hr
    unfold Row.line
    split
    · exact isKeyFree_nil
    · exact isKeyFree_spaces_append _ (h r hr)
  rw [Node.renderList, Row.render_eq_unlines]
  generalize Node.listRows items = rows at hline
  induction rows with
  | nil => exact isKeyFree_nil
  | cons r rows ih =>
    obtain ⟨hr, hrows⟩ := List.forall_mem_cons.1 hline
    have hcons : unlines ((r :: rows).map (Row.line n)) =
        Row.line n r ++ '\n' :: unlines (rows.map (Row.line n)) := by
      simp [unlines]
    rw [hcons]
    exact hr.append_cons (ih hrows) (by decide)

/-! ## What is left of the section -/

/-- Whether a line is nested under another one that stands in front of the lines `ls`. Blank lines
and comments count for nothing. -/
def hasNested (opening : Text) (ls : List Text) : Bool :=
  (ls.find? isContent).any (indentOf opening < indentOf ·)

/-- Whether a comment parts a line `encryption` and the placeholder that follows it from what is
nested under the line. -/
def hidesNested : List Text → Bool
  | opening :: line :: r =>
    trim opening == "encryption:".toList && occurs apiKeyPlaceholder line &&
      (hasNested opening r && !(r.find? (!allBlank ·)).any (indentOf opening < indentOf ·)) ||
      hidesNested (line :: r)
  | _ => false

/-- Whether the placeholder stands on one line at most, below the first one, and goes without
anything else. -/
def IsSeparate (ls : List Text) : Prop :=
  (∀ l ∈ ls.head?, IsKeyFree l) ∧ ls.countP (occurs apiKeyPlaceholder) ≤ 1 ∧
    hidesNested ls = false

instance (ls : List Text) : Decidable (IsSeparate ls) :=
  inferInstanceAs (Decidable ((∀ l ∈ ls.head?, IsKeyFree l) ∧ _))

/-- All lines, or all but a line `encryption` that nothing is nested under. -/
def IsPruned (ls kept : List Text) : Prop :=
  kept = ls ∨ ∃ a opening b, ls = a ++ opening :: b ∧ trim opening = "encryption:".toList ∧
    hasNested opening b = false ∧ kept = a ++ b

theorem hasNested_of_hidesNested {a b : List Text} {opening line : Text}
    (h : hidesNested (a ++ opening :: line :: b) = false)
    (hopening : trim opening = "encryption:".toList)
    (hline : occurs apiKeyPlaceholder line = true)
    (hmore : (b.find? (!allBlank ·)).any (indentOf opening < indentOf ·) = false) :
    hasNested opening b = false := by
  induction a with
  | nil =>
    rw [List.nil_append, hidesNested, hopening, hline, hmore] at h
    simpa using (Bool.or_eq_false_iff.1 h).1
  | cons x a ih =>
    refine ih ?_
    cases a with
    | nil => exact (Bool.or_eq_false_iff.1 h).2
    | cons y a => exact (Bool.or_eq_false_iff.1 h).2

/-- The lines without the placeholder stay, but for a line `encryption`. -/
theorem dropKeyPlaceholder_spec (honce : ls.countP (occurs apiKeyPlaceholder) ≤ 1)
    (hnested : hidesNested ls = false) :
    IsPruned (ls.filter (!occurs apiKeyPlaceholder ·)) (dropKeyPlaceholder ls) := by
  have hsplit := List.takeWhile_append_dropWhile (p := (!occurs apiKeyPlaceholder ·)) (l := ls)
  have hbefore : ∀ l ∈ ls.takeWhile (!occurs apiKeyPlaceholder ·),
      (!occurs apiKeyPlaceholder l) = true := fun l hl =>
    List.mem_takeWhile_imp (p := (!occurs apiKeyPlaceholder ·)) hl
  have hhead := List.head?_dropWhile_not (!occurs apiKeyPlaceholder ·) ls
  unfold dropKeyPlaceholder
  generalize ls.takeWhile (!occurs apiKeyPlaceholder ·) = before at hsplit hbefore ⊢
  cases hrest : ls.dropWhile (!occurs apiKeyPlaceholder ·) with
  | nil =>
    rw [hrest, List.append_nil] at hsplit
    rw [← hsplit, List.filter_eq_self.2 hbefore]
    exact Or.inl rfl
  | cons line after =>
    rw [hrest] at hsplit hhead
    have hline : occurs apiKeyPlaceholder line = true := by simpa using hhead
    subst hsplit
    -- the line that goes is the only one with the placeholder
    have hafter : ∀ l ∈ after, (!occurs apiKeyPlaceholder l) = true := by
      rw [List.countP_append, List.countP_cons_of_pos hline] at honce
      have hzero : after.countP (occurs apiKeyPlaceholder) = 0 := by omega
      intro l hl
      simpa using List.countP_eq_zero.1 hzero l hl
    have hkept : (before ++ line :: after).filter (!occurs apiKeyPlaceholder ·) =
        before ++ after := by
      rw [List.filter_append, List.filter_eq_self.2 hbefore,
        List.filter_cons_of_neg (by simp [hline]), List.filter_eq_self.2 hafter]
    rw [hkept]
    dsimp only
    cases hlast : before.getLast? with
    | none =>
      rw [List.getLast?_eq_none_iff.1 hlast]
      exact Or.inl rfl
    | some opening =>
      obtain ⟨init, rfl⟩ := List.getLast?_eq_some_iff.1 hlast
      dsimp only
      split
      · next hcut =>
        obtain ⟨hopening, hmore⟩ := Bool.and_eq_true_iff.1 hcut
        rw [List.append_assoc] at hnested
        refine Or.inr ⟨init, opening, after, by simp, beq_iff_eq.1 hopening,
          hasNested_of_hidesNested hnested (beq_iff_eq.1 hopening) hline (by simpa using hmore), ?_⟩
        rw [List.dropLast_concat]
      · exact Or.inl rfl

theorem isKeyFree_dropKeyPlaceholder (honce : ls.countP (occurs apiKeyPlaceholder) ≤ 1)
    (hnested : hidesNested ls = false) : ∀ l ∈ dropKeyPlaceholder ls, IsKeyFree l := by
  have hfilter : ∀ l ∈ ls.filter (!occurs apiKeyPlaceholder ·), IsKeyFree l := fun l hl => by
    simpa [IsKeyFree] using (List.mem_filter.1 hl).2
  rcases dropKeyPlaceholder_spec honce hnested with heq | ⟨a, opening, b, hsplit, -, -, heq⟩
  · rwa [heq]
  · rw [hsplit] at hfilter
    rw [heq]
    intro l hl
    exact hfilter l (by simp at hl ⊢; tauto)

/-! ## Sections without the placeholder -/

/-- The placeholder stands neither in a section nor in its key. -/
def ShowsNone (s : Section) : Prop :=
  (∀ key ∈ s.key, IsKeyFree key) ∧ ∀ l ∈ s.lines, IsKeyFree l

theorem ShowsNone.text (h : ShowsNone s) : IsKeyFree s.text :=
  isKeyFree_joinLines fun l hl => h.2 l ((List.rdropWhile_prefix _ _).subset hl)

theorem showsNone_of_isPart (hs : IsPart s) (h : ∀ l ∈ s.lines, IsKeyFree l) : ShowsNone s := by
  refine ⟨fun key hkey => ?_, h⟩
  obtain ⟨l, r, hkeyed⟩ := hs.keyed key hkey
  obtain ⟨rest, hrest⟩ := prefix_of_topLevelKey? hkeyed.head
  refine (h l (by rw [hkeyed.lines_eq]; exact List.mem_cons_self)).part ?_
  rw [← hrest]
  exact (List.prefix_append key _).isInfix

theorem isKeyFree_openedLines (h : ShowsNone s) : ∀ l ∈ s.openedLines, IsKeyFree l := by
  obtain ⟨key, lines⟩ := s
  unfold Section.openedLines
  cases key with
  | none => exact h.2
  | some key =>
    cases lines with
    | nil => exact h.2
    | cons first r =>
      obtain ⟨hfirst, hr⟩ := List.forall_mem_cons.1 h.2
      refine List.forall_mem_cons.2 ⟨?_, hr⟩
      split
      · exact hfirst
      · exact (h.1 key rfl).append_cons isKeyFree_nil (by decide)

theorem ShowsNone.append? (h : ShowsNone s) {entries : List Node} {s' : Section}
    (hentries : Row.Each IsKeyFree (Node.listRows entries)) (hs' : s.append? entries = some s') :
    ShowsNone s' := by
  obtain ⟨-, n, -, rfl⟩ := Section.append?_eq_some hs'
  have hsplit : (Section.splitTail s.openedLines).1 ++ (Section.splitTail s.openedLines).2 =
      s.openedLines := by
    rw [Section.splitTail, List.splitAt_eq]
    exact List.take_append_drop _ _
  have hopened := isKeyFree_openedLines h
  rw [← hsplit, List.forall_mem_append] at hopened
  refine ⟨h.1, List.forall_mem_append.2 ⟨List.forall_mem_append.2 ⟨hopened.1, ?_⟩, hopened.2⟩⟩
  exact isKeyFree_iff_lines.1 (isKeyFree_renderList n hentries)

theorem isKeyFree_quotedLine (n : Nat) {key value : Text}
    (hkey : key.all (· ∉ apiKeyPlaceholder)) (hvalue : IsKeyFree value) :
    IsKeyFree (quotedLine n key value) := by
  unfold quotedLine
  rw [List.append_assoc, List.append_assoc]
  refine isKeyFree_spaces_append n (.append_left hkey (.append_left (by decide) ?_))
  exact isKeyFree_iff.2 (not_infix_quote (by decide) (isKeyFree_iff.1 hvalue))

theorem isKeyFree_namedLines {name : Text} (hname : IsKeyFree name) (namedElsewhere : Bool)
    (h : ∀ l ∈ s.lines.drop 1, IsKeyFree l) :
    ∀ l ∈ namedLines name namedElsewhere s, IsKeyFree l := by
  unfold namedLines
  dsimp only
  split
  · next hupdate =>
    intro l hl
    rcases mem_of_updateFirst? hupdate hl with hl | ⟨y, hy, -, rfl⟩
    · exact h l hl
    · unfold nameLine
      dsimp only
      split
      · exact h y hy
      · exact isKeyFree_quotedLine _ (by decide) hname
  · split
    · exact h
    · exact List.forall_mem_cons.2 ⟨isKeyFree_quotedLine _ (by decide) hname, h⟩

theorem isKeyFree_esphomeSection {name : Text} (hname : IsKeyFree name) (recipe : Text)
    {found : Option Section} (h : ∀ s ∈ found, ShowsNone s) :
    IsKeyFree (esphomeSection name recipe found) := by
  unfold esphomeSection
  cases found with
  | none =>
    exact isKeyFree_joinLines (List.forall_mem_cons.2 ⟨by decide,
      List.forall_mem_singleton.2 (isKeyFree_quotedLine 2 (by decide) hname)⟩)
  | some s =>
    have hlines : ∀ l ∈ s.lines.drop 1, IsKeyFree l := fun l hl =>
      (h s rfl).2 l (List.mem_of_mem_drop hl)
    refine isKeyFree_joinLines fun l hl => ?_
    refine List.forall_mem_cons.2 ⟨by decide, isKeyFree_namedLines hname _ hlines⟩ l
      ((List.rdropWhile_prefix _ _).subset hl)

theorem isKeyFree_preamble (h : ShowsNone s) : IsKeyFree (preamble s) :=
  isKeyFree_joinLines fun l hl => isKeyFree_iff_lines.1 h.text l (List.mem_of_mem_filter hl)

theorem isKeyFree_networkTexts (options : Options) {default : Text} (hdefault : IsKeyFree default)
    {found : Option Section} (h : ∀ s ∈ found, ShowsNone s) :
    ∀ u ∈ networkTexts options default found, IsKeyFree u := by
  unfold networkTexts
  cases found with
  | none =>
    dsimp only
    split
    · exact List.forall_mem_singleton.2 hdefault
    · exact fun u hu => nomatch hu
  | some s => exact List.forall_mem_singleton.2 (h s rfl).text

theorem isKeyFree_sectionText {e : String × List Node} (hname : e.1 ∈ generatedNames)
    (h : Row.Each IsKeyFree (Node.listRows e.2)) : IsKeyFree (sectionText e) := by
  have hnames : ∀ name ∈ generatedNames, IsKeyFree name.toList := by decide
  have hrest : IsKeyFree (trimEnd (Node.renderList e.2 2)) :=
    (isKeyFree_renderList 2 h).part (trimEnd_isPrefix _).isInfix
  unfold sectionText
  exact (hnames e.1 hname).append_cons (.append_left (a := ['\n']) (by decide) hrest) (by decide)

/-! ## Sections but the one that is taken out -/

theorem snd_takeSection_mergeSection {name other : String} (hne : other ≠ name)
    (ss : List Section) (entries : List Node) :
    (takeSection name (mergeSection ss other entries).1).2 =
      (mergeSection (takeSection name ss).2 other entries).1 := by
  have hkeys : ∀ {s : Section}, s.key = some other.toList → s.key ≠ some name.toList := by
    intro s hs hname
    rw [hs, Option.some_inj, String.toList_inj] at hname
    exact hne hname
  induction ss with
  | nil => rfl
  | cons s r ih =>
    by_cases hother : s.key = some other.toList
    · have hmerged : ((s.append? entries).getD s).key ≠ some name.toList := by
        rw [key_getD_append?]
        exact hkeys hother
      rw [mergeSection_cons_self hother, takeSection_cons_of_ne (hkeys hother),
        takeSection_cons_of_ne hmerged, mergeSection_cons_self hother]
    · rw [mergeSection_cons_of_ne hother]
      by_cases hname : s.key = some name.toList
      · rw [takeSection_cons_self hname, takeSection_cons_self hname]
      · rw [takeSection_cons_of_ne hname, takeSection_cons_of_ne hname,
          mergeSection_cons_of_ne hother, ih]

theorem snd_takeSection_mergeSections {name : String} {added : List (String × List Node)}
    (hadded : ∀ e ∈ added, e.1 ≠ name) (ss : List Section) :
    (takeSection name (mergeSections ss added).1).2 =
      (mergeSections (takeSection name ss).2 added).1 := by
  induction added generalizing ss with
  | nil => rfl
  | cons e added ih =>
    obtain ⟨he, hrest⟩ := List.forall_mem_cons.1 hadded
    rw [mergeSections_cons, mergeSections_cons, ih hrest, snd_takeSection_mergeSection he]

theorem mem_takeSection_of_ne {name other : String} (hne : other ≠ name) {ss : List Section}
    (h : s ∈ (takeSection other ss).1) : s ∈ (takeSection name ss).2 := by
  have hkey := key_of_mem_takeSection h
  refine (List.mem_eraseP_of_neg ?_).2 (List.mem_of_find?_eq_some h)
  rw [hkey, beq_iff_eq, Option.some_inj, String.toList_inj]
  exact hne

theorem others_subset {ss : List Section} : others ss ⊆ (takeSection "api" ss).2 := by
  have hsub : ∀ name (ss : List Section), (takeSection name ss).2 ⊆ ss := fun _ _ =>
    List.eraseP_sublist.subset
  have hswap : (takeSection "api" (takeSection "esphome" ss).2).2 =
      (takeSection "esphome" (takeSection "api" ss).2).2 := by
    refine List.eraseP_comm fun s _ => ?_
    by_cases h : s.key = some "esphome".toList
    · exact Or.inr (by simp [h])
    · exact Or.inl (by simpa using h)
  intro s hs
  have hs' : s ∈ (takeSection "api" (takeSection "esphome" ss).2).2 := hsub _ _ (hsub _ _ hs)
  rw [hswap] at hs'
  exact hsub _ _ hs'

/-! ## The document -/

/-- Neither the other sections of a recipe with the pages and the inbound data put in, nor the
generated entries, nor the name and the header show the placeholder. -/
def ShowsOnlyInApi (d : Device) (recipe : Text) (registry : Registry) (options : Options) : Prop :=
  let f := (Fragments.ofProject d.project registry options).1
  let filled := fill (d.project.userText.inject (normalize recipe)) f
  ((∀ s ∈ (takeSection "api" (Section.split filled.text)).2, ∀ l ∈ s.lines, IsKeyFree l) ∧
    ∀ e ∈ f.sensors ++ f.trailing, ∀ r ∈ Node.listRows e.2, IsKeyFree r.body) ∧
    IsKeyFree d.nodeName.toList ∧ (options.headerComment = true → IsKeyFree (header d))

instance (d : Device) (recipe : Text) (registry : Registry) (options : Options) :
    Decidable (ShowsOnlyInApi d recipe registry options) :=
  inferInstanceAs (Decidable ((_ ∧ _) ∧ _))

theorem isKeyFree_sectionTexts (hkey : d.key? = none) (hname : IsKeyFree d.nodeName.toList)
    {options : Options} (hheader : options.headerComment = true → IsKeyFree (header d))
    (recipe : Text) {ss : List Section} {added : List (String × List Node)}
    (hss : ∀ s ∈ (takeSection "api" ss).2, ShowsNone s)
    (hapi : ∀ s ∈ (takeSection "api" ss).1, ∀ l ∈ dropKeyPlaceholder s.lines, IsKeyFree l)
    (hadded : ∀ e ∈ added, e.1 ∈ generatedNames ∧ Row.Each IsKeyFree (Node.listRows e.2)) :
    ∀ u ∈ sectionTexts d options recipe ss added, IsKeyFree u := by
  have htaken : ∀ name ≠ "api", ∀ s ∈ (takeSection name ss).1, ShowsNone s := fun name hne s hs =>
    hss s (mem_takeSection_of_ne hne hs)
  have hsection : IsKeyFree (apiSection (d.key?.map String.toList) (takeSection "api" ss).1) := by
    rw [hkey]
    cases hfound : (takeSection "api" ss).1 with
    | none => decide
    | some s =>
      exact isKeyFree_joinLines fun l hl =>
        hapi s hfound l ((List.rdropWhile_prefix _ _).subset hl)
  rw [sectionTexts_eq]
  simp only [List.forall_mem_append, List.forall_mem_cons, List.forall_mem_map]
  refine ⟨⟨?_, fun s hs => ?_⟩, ?_, hsection, ?_, ?_, fun s hs => ?_, fun e he => ?_⟩
  · split
    · next hcomment => exact List.forall_mem_singleton.2 (hheader hcomment)
    · exact fun u hu => nomatch hu
  · exact isKeyFree_preamble (hss s (others_subset (List.mem_of_mem_filter hs)))
  · exact isKeyFree_esphomeSection hname recipe (htaken "esphome" (by decide))
  · exact isKeyFree_networkTexts options (by decide) (htaken "wifi" (by decide))
  · exact isKeyFree_networkTexts options (by decide) (htaken "ota" (by decide))
  · exact (hss s (others_subset (List.mem_of_mem_filter hs))).text
  · exact isKeyFree_sectionText (hadded e he).1 (hadded e he).2

/-- The placeholder that texts do not show is in no document of them. -/
theorem isKeyFree_joinSections (hkey : d.key? = none) (hname : IsKeyFree d.nodeName.toList)
    {texts : List Text} (h : ∀ u ∈ texts, IsKeyFree u) : IsKeyFree (joinSections d texts) := by
  have hjoined : IsKeyFree (joinWith ['\n', '\n'] ((texts.map trimEnd).filter (!·.isEmpty))) := by
    refine isKeyFree_joinWith (by decide) (by decide) fun t ht => ?_
    obtain ⟨u, hu, rfl⟩ := List.mem_map.1 (List.mem_of_mem_filter ht)
    exact (h u hu).part (trimEnd_isPrefix u).isInfix
  have hsubstituted : IsKeyFree (substitute d
      (joinWith ['\n', '\n'] ((texts.map trimEnd).filter (!·.isEmpty)))) := by
    refine isKeyFree_iff.2 fun hin => ?_
    rcases infix_of_infix_substitute (by decide) hin with hin | ⟨key, hmem, -⟩ | ⟨hin, -⟩
    · exact isKeyFree_iff.1 hname hin
    · rw [hkey] at hmem
      cases hmem
    · exact isKeyFree_iff.1 hjoined hin
  exact hsubstituted.append_cons isKeyFree_nil (by decide)

/-- The section `api` of the recipe as it is written for a device without a key. -/
theorem writes_apiSection_none {s : Section} (hpart : IsPart s) (hkey : s.key = some "api".toList)
    (hfirst : ∀ l ∈ s.lines.head?, IsKeyFree l) :
    Writes (apiSection none (some s)) { s with lines := dropKeyPlaceholder s.lines } := by
  obtain ⟨l, r, hkeyed⟩ := hpart.keyed _ hkey
  have hl : IsKeyFree l := hfirst l (by rw [hkeyed.lines_eq]; rfl)
  obtain ⟨r', hdrop, hsub⟩ := dropKeyPlaceholder_cons hkeyed.head hl r
  have hlines : dropKeyPlaceholder s.lines = l :: r' := by rw [hkeyed.lines_eq, hdrop]
  have hmem : ∀ x ∈ l :: r', x ∈ s.lines := by
    rw [hkeyed.lines_eq]
    exact List.cons_subset_cons l hsub
  refine writes_text ⟨hkey, hlines, hkeyed.head, fun x hx => hkeyed.tail x (hsub hx)⟩ fun x hx => ?_
  rw [show ({ s with lines := dropKeyPlaceholder s.lines } : Section).lines = _ from hlines] at hx
  exact hpart.free x (hmem x hx)

theorem existing_subset (t : Text) (f : Fragments) : (fill t f).existing ⊆ f.sensors := by
  rw [fill_eq_paged]
  exact List.filter_subset_self _

theorem left_subset (t : Text) (f : Fragments) : (fill t f).left ⊆ f.sensors := by
  rw [fill_eq_paged]
  dsimp only
  split
  · exact List.nil_subset _
  · exact List.filter_subset_self _

/-- The placeholder that is dropped from the section `api`, and that stands nowhere else, is not in
the document. -/
theorem isKeyFree_document (d : Device) (recipe : Text) (registry : Registry) (options : Options)
    (hkey : d.key? = none)
    (hapi : ∀ s ∈ recipeSection? "api" d recipe registry options,
      ∀ l ∈ dropKeyPlaceholder s.lines, IsKeyFree l)
    (honly : ShowsOnlyInApi d recipe registry options) :
    IsKeyFree (Compilation.ofDevice d recipe registry options).document := by
  have hnames := name_mem_of_ofProject d.project registry options
  have hdocument : (Compilation.ofDevice d recipe registry options).document =
      (assemble d recipe (Fragments.ofProject d.project registry options).1 options).1 := rfl
  unfold recipeSection? at hapi
  unfold ShowsOnlyInApi at honly
  rw [hdocument, assemble_eq_filled]
  generalize (Fragments.ofProject d.project registry options).1 = f at hapi honly hnames ⊢
  generalize d.project.userText.inject (normalize recipe) = t at hapi honly ⊢
  obtain ⟨⟨hlines, hentries⟩, hname, hheader⟩ := honly
  have hexisting : ∀ e ∈ (fill t f).existing ++
      f.trailing.filter fun s => hasSection (fill t f).text s.1.toList,
      e ∈ f.sensors ++ f.trailing := fun e he =>
    List.mem_append.2 ((List.mem_append.1 he).imp (existing_subset t f ·) List.mem_of_mem_filter)
  have hadded : ∀ e ∈ (fill t f).left ++
      f.trailing.filter fun s => !hasSection (fill t f).text s.1.toList,
      e ∈ f.sensors ++ f.trailing := fun e he =>
    List.mem_append.2 ((List.mem_append.1 he).imp (left_subset t f ·) List.mem_of_mem_filter)
  refine isKeyFree_joinSections hkey hname (isKeyFree_sectionTexts hkey hname hheader _ ?_ ?_
    fun e he => ⟨hnames e (hadded e he), hentries e (hadded e he)⟩)
  · rw [snd_takeSection_mergeSections fun e he heq =>
      absurd (hnames e (hexisting e he)) (by rw [heq]; decide)]
    refine forall_mem_mergeSections (fun s hs => showsNone_of_isPart ?_ (hlines s hs))
      fun e he s s' _ hs happend => hs.append? (hentries e (hexisting e he)) happend
    exact isPart_of_mem_split (List.mem_of_mem_eraseP hs)
  · rwa [takeSection_merged hnames "api" (by decide)]

/-- Without a key of the device, the section `api` keeps the lines that do not hold the
placeholder, but for a line `encryption` that nothing is nested under and blank lines at its end.
The document does not show the placeholder then, unless it stands outside of the section. It must
not stand on the line of the section's key or on two lines, and no comment may hide what is nested
under `encryption`. -/
theorem api_section_loses_placeholder (d : Device) (recipe : Text) (registry : Registry)
    (options : Options) (hkey : d.key? = none) {s : Section}
    (hs : recipeSection? "api" d recipe registry options = some s)
    (hseparate : IsSeparate s.lines) :
    let document := (Compilation.ofDevice d recipe registry options).document
    (∃ s' ∈ sectionsNamed "api".toList document,
      (∃ kept, IsPruned (s.lines.filter (!occurs apiKeyPlaceholder ·)) kept ∧
        (tidyEnd kept).map (written d) <+: s'.lines) ∧
      (IsLineText d.deviceId ∧ IsLineText d.slug →
        (sectionsNamed "api".toList document).head? = some s')) ∧
      (ShowsOnlyInApi d recipe registry options → occurs apiKeyPlaceholder document = false) := by
  intro document
  obtain ⟨hfirst, honce, hnested⟩ := hseparate
  obtain ⟨hmem, hname⟩ := mem_named.1 (List.mem_of_mem_head? hs)
  have hwrites : Writes (apiSection (d.key?.map String.toList)
      (recipeSection? "api" d recipe registry options))
        { s with lines := dropKeyPlaceholder s.lines } := by
    rw [hkey, hs]
    exact writes_apiSection_none (isPart_of_mem_split hmem) hname hfirst
  obtain ⟨s', hs', hlines, hhead⟩ := exists_section_of_recipe
    (s := { s with lines := dropKeyPlaceholder s.lines }) d recipe registry options hname hwrites
  refine ⟨⟨s', hs', ⟨_, dropKeyPlaceholder_spec honce hnested, hlines⟩, hhead⟩, fun honly => ?_⟩
  refine isKeyFree_document d recipe registry options hkey (fun x hx => ?_) honly
  rw [hs] at hx
  obtain rfl := Option.some.inj hx
  exact isKeyFree_dropKeyPlaceholder honce hnested

theorem api_section_loses_placeholder_panel :
    let recipe := apiRecipe ["  reboot_timeout: 0s", "  encryption:", "    key: __ETD_API_KEY__"]
    let document := (Compilation.ofDevice panel recipe .builtin {}).document
    (∃ s' ∈ sectionsNamed "api".toList document, ∃ kept,
      IsPruned (["api:", "  reboot_timeout: 0s", "  encryption:"].map String.toList) kept ∧
        (tidyEnd kept).map (written panel) <+: s'.lines) ∧
      occurs apiKeyPlaceholder document = false := by
  intro recipe document
  have hsection : recipeSection? "api" panel recipe .builtin {} = some ⟨some "api".toList,
      ["api:", "  reboot_timeout: 0s", "  encryption:", "    key: __ETD_API_KEY__"].map
        String.toList⟩ := by decide +kernel
  obtain ⟨⟨s', hs', ⟨kept, hkept, hlines⟩, -⟩, hgone⟩ :=
    api_section_loses_placeholder panel recipe .builtin {} (by decide) hsection (by decide)
  exact ⟨⟨s', hs', kept, hkept, hlines⟩, hgone (by decide +kernel)⟩

/-- A placeholder on a second line stays, and one on the line of the section's key takes the
section along. -/
theorem placeholder_removed_once :
    let commented := apiRecipe ["  encryption:", "    key: __ETD_API_KEY__",
      "  # rotate __ETD_API_KEY__ yearly", "  reboot_timeout: 0s"]
    let inline := joinLines (["esphome:", "  platform: esp32",
      "api: # __ETD_API_KEY__", "  reboot_timeout: 0s", "lvgl:",
      "  #__LVGL_PAGES__"].map String.toList)
    panel.key? = none ∧
      (ShowsOnlyInApi panel commented .builtin {} ∧
        occurs apiKeyPlaceholder (Compilation.ofDevice panel commented .builtin {}).document =
          true) ∧
      ShowsOnlyInApi panel inline .builtin {} ∧
        sectionsNamed "api".toList (Compilation.ofDevice panel inline .builtin {}).document =
          [] := by
  intro commented inline
  exact ⟨by decide, ⟨by decide +kernel, by decide +kernel⟩, by decide +kernel, by decide +kernel⟩

end TouchPanel.Document
