import TouchPanel.Proofs.Document.Padding
import TouchPanel.Proofs.Ingress.Bare
import TouchPanel.Proofs.Recipe.Tail

/-!
# An insertion point at the end of a recipe

The sections of inbound data that a recipe has no place for follow it. An insertion point for
them at its end makes the same document: what is put there as text is read back as the sections
that would have followed.
-/

namespace TouchPanel.Document

open Text Recipe

variable {d : Device} {t : Text} {f : Fragments} {e : List Text}

/-! ## The insertion point -/

/-- An insertion point for inbound data, behind other lines. -/
def endPoint (e : List Text) : List Text := e ++ [bindingsMarker]

theorem allLines_nil (he : ∀ x ∈ e, x = []) : AllLines e := fun x hx => by
  rw [he x hx]
  exact ⟨by simp, rfl⟩

theorem allLines_endPoint (he : ∀ x ∈ e, x = []) : AllLines (endPoint e) :=
  (allLines_nil he).append (List.forall_mem_singleton.2 (by decide))

theorem not_isMarkerLine_nil {marker : Text} (hne : marker ≠ []) (he : ∀ x ∈ e, x = []) :
    ∀ l ∈ e, isMarkerLine marker l = false := fun l hl => by
  have hempty : trim [] = [] := rfl
  rw [he l hl, isMarkerLine, hempty]
  simpa using Ne.symm hne

theorem not_isMarkerLine_endPoint {marker : Text} (hne : marker ≠ [])
    (hmarker : marker ≠ bindingsMarker) (he : ∀ x ∈ e, x = []) :
    ∀ l ∈ endPoint e, isMarkerLine marker l = false := by
  refine List.forall_mem_append.2 ⟨not_isMarkerLine_nil hne he, List.forall_mem_singleton.2 ?_⟩
  have htrim : trim bindingsMarker = bindingsMarker := by decide
  rw [isMarkerLine, htrim]
  simpa using Ne.symm hmarker

theorem isInner_endPoint (he : ∀ x ∈ e, x = []) : ∀ l ∈ endPoint e, isInner l = true := by
  refine List.forall_mem_append.2 ⟨fun l hl => ?_, List.forall_mem_singleton.2 (by decide)⟩
  rw [he l hl]
  rfl

/-! ## Filling -/

theorem closed_paged (ht : Closed t) : Closed (paged t f) := by
  unfold paged
  cases h : replaceMarker? pagesMarker (f.lvgl.render 0) t with
  | some t' => exact closed_of_replaceMarker? h
  | none => exact ht

theorem replaceMarker?_endPoint {marker : Text} (hne : marker ≠ [])
    (hmarker : marker ≠ bindingsMarker) (payload : Text) (ht : Closed t) (he : ∀ x ∈ e, x = []) :
    replaceMarker? marker payload (t ++ unlines (endPoint e)) =
      (replaceMarker? marker payload t).map (· ++ unlines (endPoint e)) :=
  replaceMarker?_append payload ht (allLines_endPoint he)
    (not_isMarkerLine_endPoint hne hmarker he)

theorem paged_endPoint (ht : Closed t) (he : ∀ x ∈ e, x = []) :
    paged (t ++ unlines (endPoint e)) f = paged t f ++ unlines (endPoint e) := by
  unfold paged
  rw [replaceMarker?_endPoint (by decide) (by decide) _ ht he]
  cases replaceMarker? pagesMarker (f.lvgl.render 0) t <;> rfl

theorem hasSection_endPoint (ht : Closed t) (he : ∀ x ∈ e, x = []) (key : Text) :
    hasSection (t ++ unlines (endPoint e)) key = hasSection t key := by
  rw [Bool.eq_iff_iff, hasSection_iff, hasSection_iff, lines_append ht,
    (allLines_endPoint he).lines_unlines, keysOf_append, keysOf_inner (isInner_endPoint he),
    List.append_nil]

/-- The insertion point is the first one, or those before it have taken its place. -/
theorem substituteLines?_endPoint (payload a : List Text) (he : ∀ x ∈ e, x = []) :
    substituteLines? bindingsMarker payload (a ++ endPoint e) =
      some (match substituteLines? bindingsMarker payload a with
        | some out => out ++ e
        | none => a ++ (e ++ payload)) := by
  have hblank := not_isMarkerLine_nil (by decide : bindingsMarker ≠ []) he
  have hself : isMarkerLine bindingsMarker bindingsMarker = true := by decide
  have hmargin : payload.map (indentLike bindingsMarker) = payload := by
    conv_rhs => rw [← List.map_id payload]
    exact List.map_congr_left fun l _ => indentLike_of_margin (by decide) l
  have hfilter : (endPoint e).filter (!isMarkerLine bindingsMarker ·) = e := by
    rw [endPoint, List.filter_append, List.filter_eq_self.2 fun l hl => by rw [hblank l hl]; rfl,
      List.filter_cons_of_neg (by simp [hself]), List.filter_nil, List.append_nil]
  have hend : substituteLines? bindingsMarker payload (endPoint e) = some (e ++ payload) := by
    unfold endPoint
    clear hfilter
    induction e with
    | nil => rw [List.nil_append, substituteLines?, if_pos hself, hmargin]; simp
    | cons l e ih =>
      obtain ⟨hl, hrest⟩ := List.forall_mem_cons.1 hblank
      rw [List.cons_append, substituteLines?, if_neg (by simp [hl]),
        ih (List.forall_mem_cons.1 he).2 hrest]
      rfl
  induction a with
  | nil => exact hend
  | cons l a ih =>
    rw [List.cons_append, substituteLines?, substituteLines?]
    split
    · rw [List.filter_append, hfilter, ← List.append_assoc]
    · rw [ih]
      cases substituteLines? bindingsMarker payload a <;> rfl

theorem lines_dropNewlines_unlines {ls : List Text} (h : AllLines ls)
    (hlast : ∀ l ∈ ls.getLast?, EndsClean l) :
    lines (dropEndWhile (· == '\n') (unlines ls)) = ls := by
  rcases List.eq_nil_or_concat' ls with rfl | ⟨init, last, rfl⟩
  · rfl
  · rw [dropNewlines_unlines_concat init (hlast last (by simp)),
      h.lines_joinLines fun l hl => (hlast l hl).ne_nil]

/-- The payload of an insertion point for inbound data. -/
def payloadOf (t : Text) (f : Fragments) : Text :=
  (Mapping.ofList ((fresh t f).map fun s => (s.1, Node.list s.2))).render 0

theorem allLines_sectionLines (hf : f.IsWritable)
    (hbare : ∀ s ∈ f.sensors, ∀ l ∈ sectionLines s, bare l = l) (t : Text) :
    AllLines ((fresh t f).flatMap sectionLines) := by
  intro l hl
  obtain ⟨s, hs, hmem⟩ := List.mem_flatMap.1 hl
  exact ⟨(isGenerated_fresh hf s hs).newline_not_mem l hmem,
    hbare s ((fresh_sublist t f).subset hs) l hmem⟩

theorem lines_payloadOf (hf : f.IsWritable)
    (hbare : ∀ s ∈ f.sensors, ∀ l ∈ sectionLines s, bare l = l) :
    lines (dropEndWhile (· == '\n') (payloadOf t f)) = (fresh t f).flatMap sectionLines := by
  rw [payloadOf, ofList_fresh hf, render_sections (isGenerated_fresh hf)]
  refine lines_dropNewlines_unlines (allLines_sectionLines hf hbare t) fun l hl => ?_
  by_cases hne : fresh t f = []
  · rw [hne] at hl
    cases hl
  · obtain ⟨init, last, heq, hclean⟩ := exists_last_sections (isGenerated_fresh hf) hne
    rw [heq, List.getLast?_concat] at hl
    obtain rfl := Option.some.inj hl
    exact hclean

/-- A recipe with an insertion point at its end, against the recipe without. -/
structure EndsFilled (e : List Text) (filled filled' : Filled) : Prop where
  existing : filled'.existing = filled.existing
  left : filled'.left = []
  diagnostics : filled'.diagnostics = filled.diagnostics
  lines_eq : lines filled'.text = lines filled.text ++ (e ++ filled.left.flatMap sectionLines)

theorem endsFilled_fill (ht : Closed t) (he : ∀ x ∈ e, x = []) (hf : f.IsWritable)
    (hbare : ∀ s ∈ f.sensors, ∀ l ∈ sectionLines s, bare l = l)
    (hpaged : ∀ l ∈ lines (paged t f), bare l = l) :
    EndsFilled e (fill t f) (fill (t ++ unlines (endPoint e)) f) := by
  have hclosed : Closed (paged t f) := closed_paged ht
  have hfresh : fresh (paged (t ++ unlines (endPoint e)) f) f = fresh (paged t f) f :=
    List.filter_congr fun s _ => by rw [paged_endPoint ht he, hasSection_endPoint hclosed he]
  have hexisting : f.sensors.filter
      (fun s => hasSection (paged (t ++ unlines (endPoint e)) f) s.1.toList) =
        f.sensors.filter fun s => hasSection (paged t f) s.1.toList :=
    List.filter_congr fun s _ => by rw [paged_endPoint ht he, hasSection_endPoint hclosed he]
  have hlines : lines (paged (t ++ unlines (endPoint e)) f) = lines (paged t f) ++ endPoint e := by
    rw [paged_endPoint ht he, lines_append hclosed, (allLines_endPoint he).lines_unlines]
  have hpages : (replaceMarker? pagesMarker (f.lvgl.render 0) (t ++ unlines (endPoint e))).isSome =
      (replaceMarker? pagesMarker (f.lvgl.render 0) t).isSome := by
    rw [replaceMarker?_endPoint (by decide) (by decide) _ ht he, Option.isSome_map]
  have hpayload := lines_payloadOf (t := paged t f) hf hbare
  have hread : AllLines (lines (paged t f)) := fun l hl =>
    ⟨newline_not_mem_of_mem_lines hl, hpaged l hl⟩
  rw [fill_eq_paged, fill_eq_paged]
  dsimp only
  rw [hfresh, hexisting, hpages]
  unfold payloadOf at hpayload
  unfold replaceMarker?
  rw [hlines, hpayload, substituteLines?_endPoint _ _ he]
  cases substituteLines? bindingsMarker ((fresh (paged t f) f).flatMap sectionLines)
      (lines (paged t f)) with
  | some out =>
    refine ⟨rfl, rfl, rfl, ?_⟩
    dsimp only [Option.map_some, Option.getD_some, Option.isSome_some]
    rw [unlines_append, lines_append (closed_unlines out), (allLines_nil he).lines_unlines]
    simp
  | none =>
    refine ⟨rfl, rfl, rfl, ?_⟩
    dsimp only [Option.map_some, Option.map_none, Option.getD_some, Option.getD_none]
    rw [(hread.append ((allLines_nil he).append
      (allLines_sectionLines hf hbare _))).lines_unlines]
    rfl

/-! ## Sections that follow -/

variable {ss back : List Section} {left : List (String × List Node)}

theorem takeSection_append_of_ne {name : String} (h : ∀ s ∈ back, s.key ≠ some name.toList)
    (ss : List Section) :
    takeSection name (ss ++ back) = ((takeSection name ss).1, (takeSection name ss).2 ++ back) := by
  have hback : ∀ s ∈ back, ¬ (s.key == some name.toList) = true := fun s hs => by simp [h s hs]
  induction ss with
  | nil =>
    unfold takeSection
    dsimp only
    rw [List.nil_append, List.find?_eq_none.2 hback, List.eraseP_of_forall_not hback]
    rfl
  | cons s ss ih =>
    rw [List.cons_append]
    by_cases hs : s.key = some name.toList
    · rw [takeSection_cons_self hs, takeSection_cons_self hs]
    · rw [takeSection_cons_of_ne hs, takeSection_cons_of_ne hs, ih, List.cons_append]

theorem mergeSections_append_of_ne {added : List (String × List Node)}
    (h : ∀ s ∈ back, ∀ e ∈ added, s.key ≠ some e.1.toList) (ss : List Section) :
    mergeSections (ss ++ back) added =
      ((mergeSections ss added).1 ++ back, (mergeSections ss added).2) := by
  have hone : ∀ (name : String) (entries : List Node), (∀ s ∈ back, s.key ≠ some name.toList) →
      ∀ ss, mergeSection (ss ++ back) name entries =
        ((mergeSection ss name entries).1 ++ back, (mergeSection ss name entries).2) := by
    intro name entries hback ss
    induction ss with
    | nil =>
      rw [List.nil_append]
      induction back with
      | nil => rfl
      | cons s back ih =>
        obtain ⟨hs, hrest⟩ := List.forall_mem_cons.1 hback
        rw [mergeSection_cons_of_ne hs, ih (fun s hs => h s (List.mem_cons_of_mem _ hs)) hrest]
        rfl
    | cons s ss ih =>
      rw [List.cons_append]
      by_cases hs : s.key = some name.toList
      · rw [mergeSection_cons_self hs, mergeSection_cons_self hs, List.cons_append]
      · rw [mergeSection_cons_of_ne hs, mergeSection_cons_of_ne hs, ih, List.cons_append]
  induction added generalizing ss with
  | nil => rfl
  | cons e added ih =>
    rw [mergeSections_cons, mergeSections_cons,
      hone e.1 e.2 (fun s hs => h s hs e List.mem_cons_self),
      ih fun s hs e he => h s hs e (List.mem_cons_of_mem _ he)]

theorem text_generated {s : String × List Node} (h : IsGenerated s) :
    (generated s).text = sectionText s := by
  obtain ⟨init, last, heq, hclean⟩ := h.exists_last
  have hlines : (generated s).lines = init ++ [last] := heq
  rw [h.sectionText_eq, Section.text, hlines, heq, List.reverse_append, List.reverse_singleton,
    List.singleton_append, List.dropWhile_cons_of_neg (by simp [hclean.not_allBlank]),
    List.reverse_cons, List.reverse_reverse]

/-- Sections that were read back are written as if they had followed. -/
theorem bodyTexts_append_generated (options : Options) (recipe : Text) (ss : List Section)
    (added : List (String × List Node)) (hgenerated : ∀ s ∈ left, IsGenerated s)
    (hnames : ∀ s ∈ left, s.1 ∉ ["esphome", "api", "wifi", "ota"]) :
    bodyTexts d options recipe (ss ++ left.map generated) added =
      bodyTexts d options recipe ss (left ++ added) := by
  have hkey : ∀ name ∈ ["esphome", "api", "wifi", "ota"],
      ∀ s ∈ left.map generated, s.key ≠ some name.toList := by
    intro name hname
    rw [List.forall_mem_map]
    intro s hs heq
    have hsame : s.1 = name := String.toList_inj.1 (Option.some.inj heq)
    exact hnames s hs (hsame ▸ hname)
  have htaken : ∀ name ∈ ["esphome", "api", "wifi", "ota"],
      ∀ ss, takeSection name (ss ++ left.map generated) =
        ((takeSection name ss).1, (takeSection name ss).2 ++ left.map generated) := fun name h ss =>
    takeSection_append_of_ne (hkey name h) ss
  have hothers : others (ss ++ left.map generated) = others ss ++ left.map generated := by
    simp only [others, List.foldl_cons, List.foldl_nil]
    rw [htaken "esphome" (by decide), htaken "api" (by decide), htaken "wifi" (by decide),
      htaken "ota" (by decide)]
  have htexts : (left.map generated).map Section.text = left.map sectionText := by
    rw [List.map_map]
    exact List.map_congr_left fun s hs => text_generated (hgenerated s hs)
  unfold bodyTexts
  rw [hothers, htaken "esphome" (by decide), htaken "api" (by decide), htaken "wifi" (by decide),
    htaken "ota" (by decide), List.map_append, htexts, List.map_append, List.append_assoc]

/-! ## The document -/

theorem forall₂_pads (he : ∀ x ∈ e, x = []) (ls : List Text) :
    List.Forall₂ Pads (keyedOf ls) (keyedOf (ls ++ e)) := by
  have hinner : ∀ l ∈ e, isInner l = true := fun l hl => by rw [he l hl]; rfl
  have hne : ∀ s ∈ keyedOf ls, s.lines ≠ [] := fun s hs => by
    obtain ⟨key, l, r, hkeyed⟩ := isKeyed_of_mem_keyedOf hs
    rw [hkeyed.lines_eq]
    exact List.cons_ne_nil l r
  refine ((List.forall₂_and_left _ _).2 ⟨hne, keyedOf_append_inner hinner ls⟩).imp ?_
  rintro s s' ⟨hlines, hkey, back, heq, hback⟩
  exact ⟨hlines, hkey, back, heq, fun l hl => by rw [he l (hback hl)]; rfl⟩

theorem preamble_append (he : ∀ x ∈ e, x = []) (ls : List Text) :
    preamble ⟨none, leadOf (ls ++ e)⟩ = preamble ⟨none, leadOf ls⟩ := by
  have hinner : ∀ l ∈ e, isInner l = true := fun l hl => by rw [he l hl]; rfl
  obtain ⟨back, heq, hback⟩ := leadOf_append_inner hinner ls
  have hblank : ∀ l ∈ back, allBlank l = true := fun l hl => by rw [he l (hback hl)]; rfl
  have htext := text_append_blank ⟨none, leadOf ls⟩ hblank (leadOf ls)
  rw [heq, preamble, preamble]
  exact congrArg (fun t => joinLines ((lines t).filter _)) htext

theorem leadOf_flatMap_sectionLines (h : ∀ s ∈ left, IsGenerated s) :
    leadOf (left.flatMap sectionLines) = [] := by
  cases left with
  | nil => rfl
  | cons s left => exact leadOf_cons_key (h s List.mem_cons_self).topLevelKey? _

/-- The sections that follow a filled recipe are missing in it. -/
theorem missing_of_mem_left {s : String × List Node} (hs : s ∈ (fill t f).left) :
    s ∈ f.sensors ∧ s.1.toList ∉ keysOf (lines (fill t f).text) ∧
      ∀ x ∈ (fill t f).existing, x.1 ≠ s.1 := by
  rw [fill_eq_paged] at hs ⊢
  dsimp only at hs ⊢
  generalize replaceMarker? bindingsMarker _ (paged t f) = put at hs ⊢
  cases put with
  | some text => cases hs
  | none =>
    obtain ⟨hmem, hfresh⟩ := List.mem_filter.1 hs
    have hmissing : hasSection (paged t f) s.1.toList = false := by simpa using hfresh
    refine ⟨hmem, ?_, fun x hx heq => ?_⟩
    · rw [← hasSection_iff]
      simp [hmissing]
    · have hhas := (List.mem_filter.1 hx).2
      rw [heq, hmissing] at hhas
      cases hhas

theorem infix_joinLines (a : List Text) (l : Text) (b : List Text) :
    l <:+: joinLines (a ++ l :: b) := by
  induction a with
  | nil =>
    by_cases hb : b = []
    · rw [hb]
      exact List.infix_rfl
    · rw [List.nil_append, joinLines_cons hb]
      exact (List.prefix_append l _).isInfix
  | cons x a ih =>
    rw [List.cons_append, joinLines_cons (by simp)]
    exact ih.trans ((List.suffix_cons _ _).trans (List.suffix_append x _)).isInfix

/-- The placeholder of the name stands in the recipe, whether or not sections were read back. -/
theorem occurs_endsFilled {filled filled' : Filled} (h : EndsFilled e filled filled')
    (he : ∀ x ∈ e, x = []) (hgenerated : ∀ s ∈ filled.left, IsGenerated s)
    (hplain : ∀ s ∈ filled.left, occurs deviceNamePlaceholder (sectionText s) = false) :
    occurs deviceNamePlaceholder filled'.text = occurs deviceNamePlaceholder filled.text := by
  have hany : ∀ t, occurs deviceNamePlaceholder t = (lines t).any (occurs deviceNamePlaceholder) :=
    occurs_eq_any_lines (by decide) (by decide) (by decide)
  have hblank : e.any (occurs deviceNamePlaceholder) = false :=
    List.any_eq_false.2 fun l hl => by rw [he l hl]; decide
  have hsections : (filled.left.flatMap sectionLines).any (occurs deviceNamePlaceholder) =
      false := by
    refine List.any_eq_false.2 fun l hl => ?_
    obtain ⟨s, hs, hmem⟩ := List.mem_flatMap.1 hl
    rw [ occurs_iff_infix]
    intro hin
    have hnot := hplain s hs
    rw [(hgenerated s hs).sectionText_eq, ← Bool.not_eq_true, occurs_iff_infix] at hnot
    refine hnot (hin.trans ?_)
    obtain ⟨a, b, heq⟩ := List.append_of_mem hmem
    rw [heq]
    exact infix_joinLines a l b
  rw [hany, hany, h.lines_eq, List.any_append, List.any_append, hblank, hsections, Bool.or_false,
    Bool.or_false]

/-- Padded sections are written as the sections themselves. -/
theorem bodyTexts_of_pads (options : Options) {recipe recipe' : Text} {ss ss' : List Section}
    (added : List (String × List Node)) (h : List.Forall₂ Pads ss ss')
    (hname : occurs deviceNamePlaceholder recipe' = occurs deviceNamePlaceholder recipe) :
    bodyTexts d options recipe' ss' added = bodyTexts d options recipe ss added := by
  have hkey : ∀ s s', Pads s s' → s'.key = s.key := fun _ _ h => h.key_eq
  have hesphome := (rel_takeSection hkey h "esphome").1
  have hapi := (rel_takeSection hkey h "api").1
  suffices hbody : List.Forall₂ Eq (bodyTexts d options recipe ss added)
      (bodyTexts d options recipe' ss' added) by
    rw [List.forall₂_eq_eq_eq] at hbody
    exact hbody.symm
  refine forall₂_bodyTexts hkey (fun _ => rfl) (fun _ _ h => h.text_eq.symm) options added h ?_ ?_
  · generalize (takeSection "esphome" ss).1 = found at hesphome
    generalize (takeSection "esphome" ss').1 = found' at hesphome
    cases hesphome with
    | none => rfl
    | some hs =>
      rw [← hs.esphomeSection_eq]
      unfold esphomeSection
      rw [hname]
  · generalize (takeSection "api" ss).1 = found at hapi
    generalize (takeSection "api" ss').1 = found' at hapi
    cases hapi with
    | none => rfl
    | some hs => exact (hs.apiSection_eq _).symm

section

variable {filled filled' : Filled}

theorem EndsFilled.keyedOf_lines (h : EndsFilled e filled filled')
    (hgenerated : ∀ s ∈ filled.left, IsGenerated s) :
    keyedOf (lines filled'.text) =
      keyedOf (lines filled.text ++ e) ++ filled.left.map generated := by
  rw [h.lines_eq, ← List.append_assoc, keyedOf_append (leadOf_flatMap_sectionLines hgenerated),
    keyedOf_sectionLines hgenerated]
  rfl

theorem EndsFilled.preamble_eq (h : EndsFilled e filled filled') (he : ∀ x ∈ e, x = [])
    (hgenerated : ∀ s ∈ filled.left, IsGenerated s) :
    preamble ⟨none, leadOf (lines filled'.text)⟩ =
      preamble ⟨none, leadOf (lines filled.text)⟩ := by
  rw [h.lines_eq, ← List.append_assoc,
    leadOf_append_of_lead_nil (leadOf_flatMap_sectionLines hgenerated), preamble_append he]

/-- The recipe has the sections that it had before, but for those that were put in. -/
theorem EndsFilled.hasSection_eq (h : EndsFilled e filled filled') (he : ∀ x ∈ e, x = [])
    (hgenerated : ∀ s ∈ filled.left, IsGenerated s) {key : Text}
    (hkey : ∀ s ∈ filled.left, key ≠ s.1.toList) :
    hasSection filled'.text key = hasSection filled.text key := by
  have hblank : ∀ l ∈ e, isInner l = true := fun l hl => by rw [he l hl]; rfl
  have hnot : key ∉ keysOf (filled.left.flatMap sectionLines) := by
    intro hmem
    obtain ⟨l, hl, hkeyl⟩ := mem_keysOf.1 hmem
    obtain ⟨s, hs, hmem⟩ := List.mem_flatMap.1 hl
    have hself : key ∈ keysOf (sectionLines s) := mem_keysOf.2 ⟨l, hmem, hkeyl⟩
    rw [(hgenerated s hs).keysOf, List.mem_singleton] at hself
    exact hkey s hs hself
  rw [Bool.eq_iff_iff, hasSection_iff, hasSection_iff, h.lines_eq, keysOf_append, keysOf_append,
    keysOf_inner hblank, List.nil_append, List.mem_append, or_iff_left hnot]

end

theorem ne_of_mem_trailing (hf : f.IsWritable) {s x : String × List Node} (hs : s ∈ f.sensors)
    (hx : x ∈ f.trailing) : x.1.toList ≠ s.1.toList := fun heq =>
  name_not_mem_sensors hf hx (heq ▸ List.mem_map_of_mem hs)

theorem not_fixed_of_mem_sensors (hf : f.IsWritable) {s : String × List Node}
    (hs : s ∈ f.sensors) : s.1 ∉ ["esphome", "api", "wifi", "ota"] := fun hmem =>
  (by decide : ∀ name ∈ ["esphome", "api", "wifi", "ota"], name ∉ generatedNames) s.1 hmem
    (name_mem_generatedNames hf (List.mem_append_left f.trailing hs))

theorem assemble_endPoint (d : Device) {recipe recipe' : Text} (options : Options)
    (hf : f.IsWritable) (he : ∀ x ∈ e, x = [])
    (hplain : ∀ s ∈ f.sensors, occurs deviceNamePlaceholder (sectionText s) = false)
    (h : EndsFilled e (fill (d.project.userText.inject (normalize recipe)) f)
      (fill (d.project.userText.inject (normalize recipe')) f)) :
    assemble d recipe' f options = assemble d recipe f options := by
  rw [assemble_eq_keyed, assemble_eq_keyed]
  dsimp only
  have hmissing := fun s hs => missing_of_mem_left
    (t := d.project.userText.inject (normalize recipe)) (f := f) (s := s) hs
  generalize fill (d.project.userText.inject (normalize recipe)) f = filled at h hmissing ⊢
  generalize fill (d.project.userText.inject (normalize recipe')) f = filled' at h ⊢
  have hsensors : ∀ s ∈ filled.left, s ∈ f.sensors := fun s hs => (hmissing s hs).1
  have hgenerated : ∀ s ∈ filled.left, IsGenerated s := fun s hs =>
    hf.sensors s (hsensors s hs)
  have hhas : ∀ x ∈ f.trailing, hasSection filled'.text x.1.toList =
      hasSection filled.text x.1.toList := fun x hx =>
    h.hasSection_eq he hgenerated fun s hs => ne_of_mem_trailing hf (hsensors s hs) hx
  have hdeclared : f.trailing.filter (fun x => hasSection filled'.text x.1.toList) =
      f.trailing.filter fun x => hasSection filled.text x.1.toList :=
    List.filter_congr hhas
  have hadded : f.trailing.filter (fun x => !hasSection filled'.text x.1.toList) =
      f.trailing.filter fun x => !hasSection filled.text x.1.toList :=
    List.filter_congr fun x hx => by rw [hhas x hx]
  -- no entries go to the sections that were put in
  have hnames : ∀ s ∈ filled.left.map generated, ∀ x ∈ filled.existing ++
      f.trailing.filter (fun x => hasSection filled.text x.1.toList),
        s.key ≠ some x.1.toList := by
    rw [List.forall_mem_map]
    intro s hs x hx heq
    have hsame : s.1.toList = x.1.toList := Option.some.inj heq
    rcases List.mem_append.1 hx with hx | hx
    · exact (hmissing s hs).2.2 x hx (String.toList_inj.1 hsame.symm)
    · exact ne_of_mem_trailing hf (hsensors s hs) (List.mem_of_mem_filter hx) hsame.symm
  obtain ⟨hrel, hfound⟩ := forall₂_mergeSections (fun _ _ h => h.key_eq)
    (fun _ _ entries h hkey => h.append? hkey entries) (forall₂_pads he (lines filled.text))
    (filled.existing ++ f.trailing.filter fun x => hasSection filled.text x.1.toList)
  have hname := occurs_endsFilled h he hgenerated fun s hs => hplain s (hsensors s hs)
  rw [h.existing, hdeclared, hadded, h.left, h.diagnostics, h.keyedOf_lines hgenerated,
    mergeSections_append_of_ne hnames, headTexts, headTexts, h.preamble_eq he hgenerated]
  dsimp only
  rw [bodyTexts_append_generated _ _ _ _ hgenerated fun s hs =>
    not_fixed_of_mem_sensors hf (hsensors s hs), hfound, List.nil_append,
    bodyTexts_of_pads options _ hrel hname]

theorem customMarker_ne {name : String} (h : name ≠ "HA_BINDINGS") :
    customMarker name.toList ≠ bindingsMarker := by
  intro heq
  have hname : "#__".toList ++ name.toList ++ "__".toList =
      "#__".toList ++ "HA_BINDINGS".toList ++ "__".toList := heq
  have hinner := List.append_cancel_left (List.append_cancel_right hname)
  exact h (String.toList_inj.1 hinner)

theorem bare_sectionLines {p : Project} {registry : Registry} {options : Options}
    (hvalid : options.fault? = none) :
    ∀ s ∈ (Fragments.ofProject p registry options).1.sensors, ∀ l ∈ sectionLines s, bare l = l := by
  intro s hs
  have hkey : IsBare (s.1.toList ++ [':']) := IsBare.append (by decide) (by decide) _
  have hnodes := Fragments.bare_sensors p registry hvalid s hs
  exact List.forall_mem_cons.2 ⟨hkey.bare_eq, Node.bare_entryLines hnodes 2⟩

/-- An insertion point for inbound data at the end of a recipe changes neither the document nor
what is reported. No line with the user text and the pages may end with a carriage return, since
filling an insertion point reads all lines once more. -/
theorem endPoint_changes_nothing (d : Device) (recipe : Text) (registry : Registry)
    (options : Options) (hvalid : options.fault? = none) (hreturn : '\r' ∉ recipe)
    (hafter : allBlank d.project.userText.after.toList = true)
    (hmarkers : ∀ marker ∈ d.project.userText.markers.entries, trimmed marker.1 ≠ "HA_BINDINGS")
    (hplain : ∀ s ∈ (Fragments.ofProject d.project registry options).1.sensors,
      occurs deviceNamePlaceholder (sectionText s) = false)
    (hlines : ∀ l ∈ lines (paged (d.project.userText.inject (normalize recipe))
      (Fragments.ofProject d.project registry options).1), bare l = l) :
    Compilation.ofDevice d (recipe ++ "\n#__HA_BINDINGS__\n".toList) registry options =
      Compilation.ofDevice d recipe registry options := by
  have hf : (Fragments.ofProject d.project registry options).1.IsWritable :=
    Fragments.isWritable_ofProject d.project registry (isLineText_of_valid hvalid)
  have hbare : ∀ s ∈ (Fragments.ofProject d.project registry options).1.sensors,
      ∀ l ∈ sectionLines s, bare l = l := bare_sectionLines hvalid
  obtain ⟨e, he, hnormal⟩ := exists_normalize_append (l := bindingsMarker) hreturn (by decide)
    (by decide)
  have hclosed : Closed (normalize recipe) := closed_append_newline _
  obtain ⟨hinject, hclosed'⟩ := UserText.inject_append d.project.userText hclosed
    (allLines_endPoint he) (trimEnd_eq_nil_iff.2 hafter)
    (not_isMarkerLine_endPoint (by decide) (by decide) he)
    (not_isMarkerLine_endPoint (by decide) (by decide) he) fun marker hmarker name hname => by
      rw [nonBlank?, Option.mem_def, Option.filter_eq_some_iff] at hname
      obtain rfl := Option.some.inj hname.1
      exact not_isMarkerLine_endPoint (by simp [customMarker])
        (customMarker_ne (hmarkers marker hmarker)) he
  have hrecipe : recipe ++ "\n#__HA_BINDINGS__\n".toList =
      recipe ++ '\n' :: bindingsMarker ++ ['\n'] := by
    rw [List.append_assoc]
    rfl
  have hfilled := endsFilled_fill hclosed' he hf hbare hlines
  rw [endPoint, ← hnormal, ← hrecipe] at hinject
  rw [endPoint, ← hinject] at hfilled
  have hassemble := assemble_endPoint d options hf he hplain hfilled
  unfold Compilation.ofDevice
  dsimp only
  rw [hassemble]

/-- A recipe that leaves the sections of inbound data to the end. -/
def plainRecipe : Text :=
  joinLines (["esphome:", "  platform: esp32", "api:", "lvgl:", "  #__LVGL_PAGES__"].map
    String.toList)

theorem endPoint_changes_nothing_panel :
    Compilation.ofDevice panel (plainRecipe ++ "\n#__HA_BINDINGS__\n".toList) .builtin {} =
      Compilation.ofDevice panel plainRecipe .builtin {} :=
  endPoint_changes_nothing panel plainRecipe .builtin {} (by decide) (by decide) (by decide)
    (by decide) (by decide +kernel) (by decide +kernel)

/-- A device whose user text has carriage returns of its own. -/
def returnsPanel : Device :=
  { panel with project := { panel.project with
      userText := { panel.project.userText with before := "note:\r\r\r\r\n  more: 2" } } }

/-- Filling the insertion point takes one more carriage return from each line. -/
theorem endPoint_reads_lines_again :
    ('\r' ∉ plainRecipe ∧ allBlank returnsPanel.project.userText.after.toList = true ∧
      returnsPanel.project.userText.markers.entries = []) ∧
      (Compilation.ofDevice returnsPanel (plainRecipe ++ "\n#__HA_BINDINGS__\n".toList)
        .builtin {}).document ≠
        (Compilation.ofDevice returnsPanel plainRecipe .builtin {}).document := by
  refine ⟨by decide, ?_⟩
  decide +kernel

end TouchPanel.Document
