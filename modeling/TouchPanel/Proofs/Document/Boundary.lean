import TouchPanel.Proofs.Document.KeyLine
import TouchPanel.Proofs.Document.KeyPlaceholder
import TouchPanel.Proofs.Ingress.Undivided

/-!
# Documents without a line that begins or ends another

What stands in front of the first key of a filled recipe loses the lines that begin or end a
document, and the sections behind it keep them. So a document has such a line exactly when a
section of the filled recipe has one.
-/

namespace TouchPanel.Document

open Text Recipe

variable {d : Device} {key l t : Text} {ls : List Text} {s s' : Section}

/-! ## Name and key of the device -/

theorem replace_eq_or_mem {word fill : Text} {c : Char} (hword : word ≠ []) (hc : c ∈ fill)
    (t : Text) : replace word fill t = t ∨ c ∈ replace word fill t := by
  induction t using word_induction hword with
  | nil => exact Or.inl rfl
  | skip t _ =>
    rw [replace_word_append hword]
    exact Or.inr (List.mem_append_left _ hc)
  | cons a t hpre ih =>
    rw [replace_cons hpre]
    exact ih.imp (congrArg (a :: ·)) (List.mem_cons_of_mem a)

/-- What is put in place of a placeholder shows by its quotes. -/
theorem substitute_eq_or_mem (d : Device) (t : Text) :
    substitute d t = t ∨ '"' ∈ substitute d t := by
  have hput : ∀ (word value t : Text), word ≠ [] → replace word (quote value) t = t ∨
      '"' ∈ replace word (quote value) t := fun word value t hword =>
    replace_eq_or_mem hword List.mem_cons_self t
  have hname := hput deviceNamePlaceholder d.nodeName.toList t (by decide)
  unfold substitute
  cases d.key? with
  | none => exact hname
  | some key =>
    dsimp only
    generalize replace deviceNamePlaceholder _ t = u at hname ⊢
    rcases hput apiKeyPlaceholder key.toList u (by decide) with heq | hmem
    · rw [heq]
      exact hname
    · exact Or.inr hmem

theorem isApart_of_isBoundary (h : isBoundary l = true) : IsApart l := by
  have hordinary : ∀ c ∈ deviceNamePlaceholder ++ apiKeyPlaceholder, isOrdinary c = true :=
    List.all_eq_true.1 (by decide)
  have hnot : ∀ c ∈ l, c ∉ deviceNamePlaceholder ++ apiKeyPlaceholder := by
    intro c hc hmem
    rw [isBoundary_of_mem (hordinary c hmem) hc] at h
    cases h
  exact fun c hc => not_or.1 fun hor => hnot c hc (List.mem_append.2 hor)

theorem isBoundary_substitute (d : Device) (l : Text) :
    isBoundary (substitute d l) = isBoundary l := by
  rcases substitute_eq_or_mem d l with heq | hmem
  · rw [heq]
  · have hafter : isBoundary (substitute d l) = false := isBoundary_of_mem (by decide) hmem
    rw [hafter]
    refine Eq.symm (Bool.not_eq_true _ ▸ fun hbefore => ?_)
    have hsame := substitute_append_left d (isApart_of_isBoundary hbefore) []
    rw [List.append_nil, substitute_nil, List.append_nil] at hsame
    rw [hsame, hbefore] at hafter
    cases hafter

theorem isUndivided_substitute (d : Device) (t : Text) :
    IsUndivided (substitute d t) ↔ IsUndivided t := by
  rw [isUndivided_iff_splitOn, isUndivided_iff_splitOn, splitOn_substitute, List.forall_mem_map]
  exact forall₂_congr fun l _ => by rw [isBoundary_substitute]

/-! ## Joined texts -/

theorem isUndivided_joinWith {ts : List Text} :
    IsUndivided (joinWith ['\n', '\n'] ts) ↔ ∀ t ∈ ts, IsUndivided t := by
  induction ts with
  | nil => exact ⟨fun _ _ h => absurd h List.not_mem_nil, fun _ => isUndivided_nil⟩
  | cons t ts ih =>
    cases ts with
    | nil => rw [joinWith, List.forall_mem_singleton]
    | cons u ts =>
      rw [joinWith, List.append_assoc, List.cons_append, List.cons_append, List.nil_append,
        isUndivided_append_newline, ← List.nil_append ('\n' :: _), isUndivided_append_newline, ih,
        List.forall_mem_cons (a := t)]
      exact and_congr_right fun _ => and_iff_right isUndivided_nil

theorem isUndivided_joinSections (d : Device) (texts : List Text) :
    IsUndivided (joinSections d texts) ↔ ∀ t ∈ texts, IsUndivided t := by
  rw [joinSections, isUndivided_append_newline, and_iff_left isUndivided_nil,
    isUndivided_substitute, isUndivided_joinWith]
  constructor
  · intro h t ht
    by_cases hnil : trimEnd t = []
    · rw [← isUndivided_trimEnd, hnil]
      exact isUndivided_nil
    · refine isUndivided_trimEnd.1 (h _ (List.mem_filter.2 ⟨List.mem_map_of_mem ht, ?_⟩))
      simpa using hnil
  · intro h t ht
    obtain ⟨u, hu, rfl⟩ := List.mem_map.1 (List.mem_of_mem_filter ht)
    exact isUndivided_trimEnd.2 (h u hu)

theorem isUndivided_joinLines (h : ∀ l ∈ ls, '\n' ∉ l) :
    IsUndivided (joinLines ls) ↔ chosen isBoundary ls = [] := by
  rw [isUndivided_iff_chosen, chosen_lines_joinLines isChoice_isBoundary h]

/-! ## Sections -/

theorem isUndivided_text (h : ∀ l ∈ s.lines, '\n' ∉ l) :
    IsUndivided s.text ↔ chosen isBoundary s.lines = [] := by
  rw [← isUndivided_trimEnd, trimEnd_text, isUndivided_joinLines (newline_not_mem_tidyEnd h),
    chosen_tidyEnd isChoice_isBoundary]

theorem isBoundary_of_topLevelKey? (h : topLevelKey? l = some key) : isBoundary l = false := by
  obtain ⟨b, r, rfl, -⟩ := exists_eq_of_topLevelKey? h
  exact isBoundary_of_mem (c := ':') (by decide) (by simp)

/-- The lines of a section that begin or end a document stand below the line of its key. -/
theorem IsHeaded.chosen_drop (h : IsHeaded s) :
    chosen isBoundary (s.lines.drop 1) = chosen isBoundary s.lines := by
  obtain ⟨key, l, r, -, hlines, hkey⟩ := h.head
  rw [hlines, chosen_cons_of_neg (isBoundary_of_topLevelKey? hkey)]
  rfl

theorem IsHeaded.chosen_openedLines (h : IsHeaded s) :
    chosen isBoundary s.openedLines = chosen isBoundary s.lines := by
  obtain ⟨key, head, -, hopened, hkey, -⟩ := h.exists_openedLines
  rw [hopened, chosen_cons_of_neg (isBoundary_of_topLevelKey? hkey), h.chosen_drop]

/-- A section that takes entries gets no line that begins or ends a document. -/
theorem IsHeaded.append? (h : IsHeaded s) {entries : List Node}
    (hentries : ∀ node ∈ entries, node.Undivided) (happend : s.append? entries = some s') :
    IsHeaded s' ∧ chosen isBoundary s'.lines = chosen isBoundary s.lines := by
  obtain ⟨-, n, -, rfl⟩ := Section.append?_eq_some happend
  have hnone : chosen isBoundary (lines (Node.renderList entries n)) = [] :=
    isUndivided_iff_chosen.1 (Node.isUndivided_renderList hentries n)
  refine ⟨h.withLines fun l => newline_not_mem_of_mem_lines, ?_⟩
  dsimp only
  rw [chosen_append, chosen_append, hnone, List.append_nil, ← chosen_append, ← h.chosen_openedLines]
  unfold Section.splitTail
  rw [List.splitAt_eq, List.take_append_drop]

/-- The lines of sections that begin or end a document. -/
def boundaries (ss : List Section) : List Text := ss.flatMap fun s => chosen isBoundary s.lines

theorem boundaries_eq_nil_iff {ss : List Section} :
    boundaries ss = [] ↔ ∀ s ∈ ss, chosen isBoundary s.lines = [] :=
  List.flatMap_eq_nil_iff

theorem boundaries_mergeSection {ss : List Section} (h : ∀ s ∈ ss, IsHeaded s) (name : String)
    {entries : List Node} (hentries : ∀ node ∈ entries, node.Undivided) :
    (∀ s ∈ (mergeSection ss name entries).1, IsHeaded s) ∧
      boundaries (mergeSection ss name entries).1 = boundaries ss := by
  induction ss with
  | nil => exact ⟨h, rfl⟩
  | cons s ss ih =>
    obtain ⟨hs, hss⟩ := List.forall_mem_cons.1 h
    by_cases hname : s.key = some name.toList
    · rw [mergeSection_cons_self hname]
      cases happend : s.append? entries with
      | none => exact ⟨h, rfl⟩
      | some s' =>
        obtain ⟨hs', hsame⟩ := hs.append? hentries happend
        exact ⟨List.forall_mem_cons.2 ⟨hs', hss⟩, congrArg (· ++ boundaries ss) hsame⟩
    · obtain ⟨hmerged, hsame⟩ := ih hss
      rw [mergeSection_cons_of_ne hname]
      exact ⟨List.forall_mem_cons.2 ⟨hs, hmerged⟩, congrArg (chosen isBoundary s.lines ++ ·) hsame⟩

/-- Entries of generated sections bring no line that begins or ends a document. -/
theorem boundaries_mergeSections {ss : List Section} (h : ∀ s ∈ ss, IsHeaded s)
    {added : List (String × List Node)} (hadded : ∀ e ∈ added, ∀ node ∈ e.2, node.Undivided) :
    (∀ s ∈ (mergeSections ss added).1, IsHeaded s) ∧
      boundaries (mergeSections ss added).1 = boundaries ss := by
  induction added generalizing ss with
  | nil => exact ⟨h, rfl⟩
  | cons e added ih =>
    obtain ⟨he, hrest⟩ := List.forall_mem_cons.1 hadded
    obtain ⟨hmerged, hsame⟩ := boundaries_mergeSection h e.1 he
    rw [mergeSections_cons, ← hsame]
    exact ih hmerged hrest

theorem boundaries_keyedOf (ls : List Text) :
    boundaries (keyedOf ls) = chosen isBoundary (ls.dropWhile isInner) := by
  have hbelow : (keyedOf ls).flatMap (·.lines) = ls.dropWhile isInner := by
    have hwhole : leadOf ls ++ ls.dropWhile isInner = ls := List.takeWhile_append_dropWhile
    exact List.append_cancel_left ((leadOf_append_flatMap_keyedOf ls).trans hwhole.symm)
  rw [← hbelow, boundaries, chosen, List.filter_flatMap, List.map_flatMap]
  rfl

/-! ## The identity of a device -/

theorem isBoundary_of_valueOf? (h : (valueOf? key l).isSome = true) : isBoundary l = false := by
  obtain ⟨v, hv⟩ := Option.isSome_iff_exists.1 h
  obtain ⟨r, hsuffix, -⟩ := exists_suffix_of_valueOf? hv
  exact isBoundary_of_mem (c := ':') (by decide) (hsuffix.subset List.mem_cons_self)

theorem isBoundary_quotedLine (n : Nat) (key value : Text) :
    isBoundary (quotedLine n key value) = false :=
  isBoundary_of_mem (c := ':') (by decide) (by simp [quotedLine])

theorem boundaries_updateFirst? {p : Text → Bool} {f : Text → Text} {ls' : List Text}
    (h : updateFirst? p f ls = some ls')
    (hp : ∀ l, p l = true → isBoundary l = false ∧ isBoundary (f l) = false) :
    chosen isBoundary ls' = chosen isBoundary ls := by
  obtain ⟨a, l, b, rfl, -, hl, rfl⟩ := exists_of_updateFirst? h
  obtain ⟨hbefore, hafter⟩ := hp l hl
  rw [chosen_append, chosen_append, chosen_cons_of_neg hbefore, chosen_cons_of_neg hafter]

theorem isBoundary_nameLine (name : Text) (h : isBoundary l = false) :
    isBoundary (nameLine name l) = false := by
  unfold nameLine
  dsimp only
  split
  · exact h
  · exact isBoundary_quotedLine _ _ _

theorem boundaries_namedLines (name : Text) (namedElsewhere : Bool) (s : Section) :
    chosen isBoundary (namedLines name namedElsewhere s) =
      chosen isBoundary (s.lines.drop 1) := by
  unfold namedLines
  dsimp only
  split
  · next ls hls =>
    refine boundaries_updateFirst? hls fun l hl => ?_
    have hname : isBoundary l = false := by
      rw [isNameLine, Bool.and_eq_true] at hl
      exact isBoundary_of_valueOf? hl.1
    exact ⟨hname, isBoundary_nameLine name hname⟩
  · split
    · rfl
    · exact chosen_cons_of_neg (isBoundary_quotedLine _ _ _) _

theorem isUndivided_esphomeSection (name recipe : Text) {found : Option Section}
    (h : ∀ s ∈ found, IsHeaded s) :
    IsUndivided (esphomeSection name recipe found) ↔
      ∀ s ∈ found, chosen isBoundary s.lines = [] := by
  cases found with
  | none =>
    have hlines : ∀ l ∈ ["esphome:".toList, quotedLine 2 "name".toList name], '\n' ∉ l := by
      simpa using newline_not_mem_quotedLine 2 (by decide : '\n' ∉ "name".toList) name
    refine iff_of_true ((isUndivided_joinLines hlines).2 ?_) (by simp)
    rw [chosen_cons_of_neg (by decide), chosen_cons_of_neg (isBoundary_quotedLine _ _ _)]
    rfl
  | some s =>
    have hs := h s rfl
    have hfree : ∀ l ∈ "esphome:".toList ::
        namedLines name (occurs deviceNamePlaceholder recipe) s, '\n' ∉ l :=
      List.forall_mem_cons.2 ⟨by decide, newline_not_mem_namedLines hs.free _ _⟩
    unfold esphomeSection
    dsimp only
    rw [isUndivided_text hfree, chosen_cons_of_neg (by decide), boundaries_namedLines,
      hs.chosen_drop]
    simp

theorem boundaries_withKey (key : Text) (indent : Nat) (replaced : Bool) (ls : List Text) :
    chosen isBoundary (withKey key indent replaced ls) = chosen isBoundary ls := by
  have hsplit :=
    (List.takeWhile_append_dropWhile (p := (!isEncryptionLine ·)) (l := ls)).symm
  have hkey : ∀ n, isBoundary (quotedLine n "key".toList key) = false := fun n =>
    isBoundary_quotedLine n _ _
  unfold withKey
  dsimp only
  cases hrest : ls.dropWhile (!isEncryptionLine ·) with
  | nil =>
    have hopening : isBoundary (spaces indent ++ "encryption:".toList) = false :=
      isBoundary_of_mem (c := ':') (by decide) (by simp)
    dsimp only
    rw [chosen_cons_of_neg hopening, chosen_cons_of_neg (hkey _)]
  | cons opening after =>
    rw [hrest] at hsplit
    conv_rhs => rw [hsplit]
    dsimp only
    rw [chosen_append, chosen_append]
    refine congrArg (chosen isBoundary (ls.takeWhile _) ++ ·) ?_
    have hopening : ∀ below, chosen isBoundary below = chosen isBoundary after →
        chosen isBoundary (opening :: below) = chosen isBoundary (opening :: after) := by
      intro below hbelow
      rw [← List.singleton_append, chosen_append, hbelow, ← chosen_append, List.singleton_append]
    refine hopening _ ?_
    split
    · cases hupdate : updateFirst? (fun l => (valueOf? "key".toList l).isSome)
        (fun l => quotedLine (indentOf l) "key".toList key) after with
      | none => rfl
      | some u =>
        exact boundaries_updateFirst? hupdate fun l hl => ⟨isBoundary_of_valueOf? hl, hkey _⟩
    · exact chosen_cons_of_neg (hkey _) after

theorem isBoundary_of_mem_cutPlaceholder (h : l ∈ (cutPlaceholder ls).2.1) :
    isBoundary l = false := by
  have hopening : ∀ opening, trim opening = "encryption:".toList → isBoundary opening = false := by
    intro opening heq
    rw [isBoundary, heq]
    rfl
  have hline : ∀ line after, ls.dropWhile (!occurs apiKeyPlaceholder ·) = line :: after →
      isBoundary line = false := by
    intro line after hrest
    have hhead := List.head?_dropWhile_not (!occurs apiKeyPlaceholder ·) ls
    rw [hrest] at hhead
    obtain ⟨front, rest, rfl⟩ := occurs_iff.1 (by simpa using hhead)
    exact isBoundary_of_mem (c := 'K') (by decide)
      (List.mem_append_left _ (List.mem_append_right _ (by decide)))
  unfold cutPlaceholder at h
  dsimp only at h
  split at h
  · cases h
  · next line after hrest =>
    split at h
    · rw [List.mem_singleton.1 h]
      exact hline line after hrest
    · next opening _ =>
      split at h
      · next hcond =>
        rw [Bool.and_eq_true, beq_iff_eq] at hcond
        rcases List.mem_cons.1 h with rfl | h
        · exact hopening l hcond.1
        · rw [List.mem_singleton.1 h]
          exact hline line after hrest
      · rw [List.mem_singleton.1 h]
        exact hline line after hrest

theorem boundaries_dropKeyPlaceholder (ls : List Text) :
    chosen isBoundary (dropKeyPlaceholder ls) = chosen isBoundary ls := by
  obtain ⟨hsplit, hdrop⟩ := cutPlaceholder_spec ls
  have hnone : chosen isBoundary (cutPlaceholder ls).2.1 = [] :=
    chosen_isBoundary_eq_nil_iff.2 fun l => isBoundary_of_mem_cutPlaceholder
  conv_rhs => rw [hsplit]
  rw [hdrop, chosen_append, chosen_append, chosen_append, hnone, List.append_nil]

theorem isUndivided_apiSection (key : Option Text) {found : Option Section}
    (h : ∀ s ∈ found, IsHeaded s) :
    IsUndivided (apiSection key found) ↔ ∀ s ∈ found, chosen isBoundary s.lines = [] := by
  have hkey : ∀ (key : Text) n, '\n' ∉ quotedLine n "key".toList key := fun key n =>
    newline_not_mem_quotedLine n (by decide) key
  cases found with
  | none =>
    refine iff_of_true ?_ (by simp)
    cases key with
    | none => decide
    | some key =>
      have hlines : ∀ l ∈ ["api:".toList, "  encryption:".toList,
          quotedLine 4 "key".toList key], '\n' ∉ l := by
        simpa using hkey key 4
      refine (isUndivided_joinLines hlines).2 ?_
      rw [chosen_cons_of_neg (by decide), chosen_cons_of_neg (by decide),
        chosen_cons_of_neg (isBoundary_quotedLine _ _ _)]
      rfl
  | some s =>
    have hs := h s rfl
    simp only [Option.mem_some_iff, forall_eq']
    cases key with
    | none =>
      have hfree : ∀ l ∈ dropKeyPlaceholder s.lines, '\n' ∉ l := by
        obtain ⟨hsplit, hdrop⟩ := cutPlaceholder_spec s.lines
        have hall := hs.free
        rw [hsplit, List.forall_mem_append, List.forall_mem_append] at hall
        rw [hdrop]
        exact List.forall_mem_append.2 ⟨hall.1.1, hall.2⟩
      unfold apiSection
      dsimp only
      rw [isUndivided_text hfree, boundaries_dropKeyPlaceholder]
    | some key =>
      unfold apiSection
      dsimp only
      split
      · exact isUndivided_text hs.free
      · have hfree : ∀ l ∈ "api:".toList :: encryptedLines key s, '\n' ∉ l := by
          rw [encryptedLines_eq]
          exact List.forall_mem_cons.2 ⟨by decide, newline_not_mem_withKey key _ _
            fun l hl => hs.free l (List.mem_of_mem_drop hl)⟩
        rw [isUndivided_text hfree, chosen_cons_of_neg (by decide), encryptedLines_eq,
          boundaries_withKey, hs.chosen_drop]

/-! ## The texts of a document -/

theorem isUndivided_preamble (s : Section) : IsUndivided (preamble s) := by
  have hpreamble : preamble s = joinLines ((lines s.text).filter (!isBoundary ·)) := rfl
  have hfree : ∀ l ∈ (lines s.text).filter (!isBoundary ·), '\n' ∉ l := fun l hl =>
    newline_not_mem_of_mem_lines (List.mem_of_mem_filter hl)
  rw [hpreamble, isUndivided_joinLines hfree, chosen_isBoundary_eq_nil_iff]
  exact fun l hl => by simpa using (List.mem_filter.1 hl).2

theorem isUndivided_sectionText {e : String × List Node} (hname : IsUndividedString e.1)
    (hentries : ∀ node ∈ e.2, node.Undivided) : IsUndivided (sectionText e) := by
  have hbody : IsUndivided (trimEnd (Node.renderList e.2 2)) :=
    isUndivided_trimEnd.2 (Node.isUndivided_renderList hentries 2)
  exact hname.append_cons (by decide) (isUndivided_append_newline.2 ⟨isUndivided_nil, hbody⟩)

theorem isUndivided_networkTexts (options : Options) {default : Text}
    (hdefault : IsUndivided default) {found : Option Section} (h : ∀ s ∈ found, IsHeaded s) :
    (∀ t ∈ networkTexts options default found, IsUndivided t) ↔
      ∀ s ∈ found, chosen isBoundary s.lines = [] := by
  cases found with
  | none =>
    refine iff_of_true (fun t ht => ?_) (by simp)
    unfold networkTexts at ht
    dsimp only at ht
    split at ht
    · rw [List.mem_singleton.1 ht]
      exact hdefault
    · cases ht
  | some s =>
    rw [networkTexts, List.forall_mem_singleton, isUndivided_text (h s rfl).free]
    simp

theorem forall_mem_takeSection {P : Section → Prop} (name : String) (ss : List Section) :
    (∀ s ∈ ss, P s) ↔
      (∀ s ∈ (takeSection name ss).1, P s) ∧ ∀ s ∈ (takeSection name ss).2, P s := by
  induction ss with
  | nil => simp [takeSection]
  | cons s ss ih =>
    by_cases hname : s.key = some name.toList
    · rw [takeSection_cons_self hname, List.forall_mem_cons]
      simp only [Option.mem_some_iff, forall_eq']
    · rw [takeSection_cons_of_ne hname, List.forall_mem_cons, ih, List.forall_mem_cons]
      exact and_left_comm

/-- Every section has its place in a document. -/
theorem forall_mem_places {P : Section → Prop} (ss : List Section) :
    (∀ s ∈ ss, P s) ↔ (∀ s ∈ (takeSection "esphome" ss).1, P s) ∧
      (∀ s ∈ (takeSection "api" ss).1, P s) ∧ (∀ s ∈ (takeSection "wifi" ss).1, P s) ∧
        (∀ s ∈ (takeSection "ota" ss).1, P s) ∧ ∀ s ∈ others ss, P s := by
  rw [forall_mem_takeSection "esphome", forall_mem_takeSection "api",
    forall_mem_takeSection "wifi", forall_mem_takeSection "ota"]
  simp only [fst_takeSection_of_ne, ne_eq, String.reduceEq, not_false_eq_true]
  rfl

/-- The sections of a document are without a line that begins or ends another exactly when the
sections of the filled recipe are. -/
theorem isUndivided_bodyTexts (d : Device) (options : Options) (recipe : Text) {ss : List Section}
    (hss : ∀ s ∈ ss, IsHeaded s) {added : List (String × List Node)}
    (hadded : ∀ e ∈ added, IsUndividedString e.1 ∧ ∀ node ∈ e.2, node.Undivided) :
    (∀ t ∈ bodyTexts d options recipe ss added, IsUndivided t) ↔ boundaries ss = [] := by
  obtain ⟨hesphome, hapi, hwifi, hota, hothers⟩ := (forall_mem_places ss).1 hss
  have htexts : (∀ t ∈ (others ss).map Section.text, IsUndivided t) ↔
      ∀ s ∈ others ss, chosen isBoundary s.lines = [] := by
    rw [List.forall_mem_map]
    exact forall₂_congr fun s hs => isUndivided_text (hothers s hs).free
  have hsections : ∀ t ∈ added.map sectionText, IsUndivided t := by
    rw [List.forall_mem_map]
    exact fun e he => isUndivided_sectionText (hadded e he).1 (hadded e he).2
  rw [bodyTexts, List.forall_mem_cons, List.forall_mem_cons, List.forall_mem_append,
    List.forall_mem_append, List.forall_mem_append, isUndivided_esphomeSection _ _ hesphome,
    isUndivided_apiSection _ hapi, isUndivided_networkTexts options (by decide) hwifi,
    isUndivided_networkTexts options (by decide) hota, htexts, and_iff_left hsections,
    boundaries_eq_nil_iff, forall_mem_places ss]

end TouchPanel.Document
