import TouchPanel.Proofs.Document.Comment
import TouchPanel.Proofs.Document.Placeholder

/-!
# The line of a section's key

An anchor, a tag or a value that a recipe has behind the key of a section stands on the line of the
key. That line is kept in all sections but two: the first section `esphome` gets a new one in any
case, and the first section `api` when a key of the device is put in.
-/

namespace TouchPanel.Document

open Text Recipe

variable {d : Device} {key l t t' : Text} {ls : List Text} {s : Section}

/-! ## Content of a recipe in its filled text -/

theorem not_isMarkerLine_of_isContent {r : Text} (h : isContent l = true) :
    isMarkerLine ('#' :: r) l = false := by
  rw [← Bool.not_eq_true]
  intro hmarker
  rw [isContent, isComment_of_isMarkerLine hmarker] at h
  simp at h

theorem isContent_of_isMarkerLine {r : Text} (h : isMarkerLine ('#' :: r) l = true) :
    isContent l = false := by
  rw [isContent, isComment_of_isMarkerLine h]
  exact Bool.and_false _

/-- Without the lines of a marker the content is the same. -/
theorem chosen_filter_marker (r : Text) (ls : List Text) :
    chosen isContent (ls.filter (!isMarkerLine ('#' :: r) ·)) = chosen isContent ls := by
  rw [chosen, List.filter_filter]
  refine congrArg (List.map trimEnd) (List.filter_congr fun l _ => ?_)
  cases hl : isContent l with
  | true => rw [not_isMarkerLine_of_isContent hl]; rfl
  | false => rfl

theorem contentLines_append (ht : Closed t) (u : Text) :
    contentLines (t ++ u) = contentLines t ++ contentLines u := by
  rw [contentLines, lines_append ht, chosen_append]
  rfl

theorem contentLines_append_newline (t u : Text) :
    contentLines (t ++ '\n' :: u) = contentLines t ++ contentLines u := by
  have hline : t ++ '\n' :: u = t ++ ['\n'] ++ u := by simp
  rw [hline, contentLines_append (closed_append_newline t), contentLines,
    chosen_lines_append_newline isChoice_isContent]
  rfl

theorem contentLines_replaceMarker? {r payload : Text}
    (h : replaceMarker? ('#' :: r) payload t = some t') :
    (contentLines t).Sublist (contentLines t') := by
  obtain ⟨a, m, b, hlines, -, hm, hbare⟩ := replaceMarker?_eq_some h
  have hbefore : contentLines t = chosen isContent a ++ chosen isContent b := by
    rw [contentLines, hlines, chosen_append, chosen_cons_of_neg (isContent_of_isMarkerLine hm)]
  have hafter : contentLines t' = chosen isContent (a ++
      ((lines (dropEndWhile (· == '\n') payload)).map (indentLike m) ++
        b.filter (!isMarkerLine ('#' :: r) ·))) := by
    rw [contentLines, ← chosen_bareLines isChoice_isContent, bareLines, hbare,
      chosen_map isChoice_isContent trimEnd_bare]
  rw [hbefore, hafter, chosen_append, chosen_append, chosen_filter_marker]
  exact (List.Sublist.refl _).append (List.sublist_append_right _ _)

theorem contentLines_replaceMarker?_getD {r payload : Text}
    (h : (contentLines t).Sublist (contentLines t')) :
    (contentLines t).Sublist
      (contentLines ((replaceMarker? ('#' :: r) payload t).getD t')) := by
  cases hput : replaceMarker? ('#' :: r) payload t with
  | none => exact h
  | some u => exact contentLines_replaceMarker? hput

theorem contentLines_removeMarker (r t : Text) :
    contentLines (removeMarker ('#' :: r) t) = contentLines t := by
  have hfree : ∀ l ∈ (lines t).filter (!isMarkerLine ('#' :: r) ·), '\n' ∉ l := fun l hl =>
    newline_not_mem_of_mem_lines (List.mem_of_mem_filter hl)
  rw [contentLines, removeMarker, chosen_lines_unlines isChoice_isContent hfree,
    chosen_filter_marker]
  rfl

theorem contentLines_inject (u : UserText) (t : Text) :
    (contentLines t).Sublist (contentLines (u.inject t)) := by
  have hbefore : ∀ before t,
      (contentLines t).Sublist (contentLines (UserText.putBefore before t)) := by
    intro before t
    unfold UserText.putBefore
    split
    · exact (contentLines_removeMarker _ t).symm ▸ List.Sublist.refl _
    · refine contentLines_replaceMarker?_getD ?_
      rw [contentLines_append_newline, ← List.nil_append ('\n' :: t), contentLines_append_newline]
      exact (List.sublist_append_right _ _).trans (List.sublist_append_right _ _)
  have hafter : ∀ after t,
      (contentLines t).Sublist (contentLines (UserText.putAfter after t)) := by
    intro after t
    unfold UserText.putAfter
    split
    · exact (contentLines_removeMarker _ t).symm ▸ List.Sublist.refl _
    · refine contentLines_replaceMarker?_getD ?_
      rw [List.append_assoc, List.cons_append, contentLines_append_newline, contentLines_trimEnd]
      exact List.sublist_append_left _ _
  have hmarker : ∀ marker t,
      (contentLines t).Sublist (contentLines (UserText.putMarker t marker)) := by
    intro marker t
    unfold UserText.putMarker
    split
    · exact List.Sublist.refl _
    · exact contentLines_replaceMarker?_getD (List.Sublist.refl _)
  unfold UserText.inject
  generalize hfront : UserText.putAfter _ (UserText.putBefore _ t) = v
  have hv : (contentLines t).Sublist (contentLines v) :=
    hfront ▸ (hbefore _ t).trans (hafter _ _)
  generalize u.markers.entries = markers
  clear hfront
  induction markers generalizing v with
  | nil => exact hv
  | cons marker markers ih => exact ih _ (hv.trans (hmarker marker v))

theorem contentLines_fill (t : Text) (f : Fragments) :
    (contentLines t).Sublist (contentLines (fill t f).text) := by
  have hpaged : (contentLines t).Sublist (contentLines (paged t f)) :=
    contentLines_replaceMarker?_getD (List.Sublist.refl _)
  rw [fill_eq_paged]
  exact hpaged.trans (contentLines_replaceMarker?_getD (List.Sublist.refl _))

/-! ## Sections and the lines of their keys -/

theorem exists_isKeyed_of_mem (hl : l ∈ ls) (hkey : topLevelKey? l = some key) :
    ∃ s ∈ keyedOf ls, ∃ r, s.IsKeyed key l r := by
  induction ls with
  | nil => cases hl
  | cons x ls ih =>
    rcases List.mem_cons.1 hl with rfl | hl
    · rw [keyedOf_cons_key hkey]
      exact ⟨_, List.mem_cons_self, leadOf ls, rfl, rfl, hkey,
        fun x hx => List.mem_takeWhile_imp hx⟩
    · obtain ⟨s, hs, hkeyed⟩ := ih hl
      refine ⟨s, ?_, hkeyed⟩
      cases hx : topLevelKey? x with
      | some key' =>
        rw [keyedOf_cons_key hx]
        exact List.mem_cons_of_mem _ hs
      | none => rwa [keyedOf_cons_inner (isInner_iff.2 hx)]

/-- A line of content with a key opens a section. -/
theorem exists_section_of_content (hl : l ∈ contentLines t) (hkey : topLevelKey? l = some key) :
    ∃ s ∈ named key (keyedOf (lines t)), s.inlineValue = lineValue l := by
  obtain ⟨x, hx, rfl⟩ := List.mem_map.1 hl
  obtain ⟨s, hs, r, hkeyed⟩ := exists_isKeyed_of_mem (List.mem_of_mem_filter hx)
    ((topLevelKey?_trimEnd x).symm.trans hkey)
  refine ⟨s, mem_named.2 ⟨hs, hkeyed.key_eq⟩, ?_⟩
  rw [inlineValue_eq hkeyed.lines_eq, lineValue_trimEnd]

theorem inlineValue_bare (hs : s ∈ keyedOf ls) : s.bare.inlineValue = s.inlineValue := by
  obtain ⟨key, l, r, hkeyed⟩ := isKeyed_of_mem_keyedOf hs
  rw [inlineValue_eq hkeyed.bare.lines_eq, lineValue_bare, inlineValue_eq hkeyed.lines_eq]

theorem exists_sectionsNamed_of_content (hl : l ∈ contentLines t)
    (hkey : topLevelKey? l = some key) :
    ∃ s ∈ sectionsNamed key t, s.inlineValue = lineValue l := by
  obtain ⟨s, hs, hvalue⟩ := exists_section_of_content hl hkey
  rw [sectionsNamed_eq]
  exact ⟨s.bare, List.mem_map_of_mem hs, (inlineValue_bare (mem_named.1 hs).1).trans hvalue⟩

/-- The section of a key shows its line among the content. -/
theorem exists_content_of_section (hs : s ∈ named key (keyedOf (lines t))) :
    ∃ l, l ∈ contentLines t ∧ topLevelKey? l = some key ∧ lineValue l = s.inlineValue := by
  obtain ⟨hmem, hname⟩ := mem_named.1 hs
  obtain ⟨key', l, r, hkeyed⟩ := isKeyed_of_mem_keyedOf hmem
  obtain rfl : key' = key := Option.some.inj (hkeyed.key_eq.symm.trans hname)
  have hl : l ∈ lines t :=
    lines_subset_of_mem_keyedOf hmem (hkeyed.lines_eq ▸ List.mem_cons_self)
  refine ⟨trimEnd l, List.mem_map_of_mem (List.mem_filter.2
    ⟨hl, isContent_of_topLevelKey? hkeyed.head⟩), (topLevelKey?_trimEnd l).trans hkeyed.head, ?_⟩
  rw [lineValue_trimEnd, inlineValue_eq hkeyed.lines_eq]

/-! ## Values on the line of a key -/

theorem headD_cut_word (t : Text) : (cut [' ', '#'] ([' ', '#'] ++ t)).headD [] = [] := by
  have hs : startsWith [' ', '#'] (' ' :: '#' :: t) = true := startsWith_iff.2 ⟨t, rfl⟩
  rw [List.cons_append, List.cons_append, List.nil_append, cut, cutFrom, if_pos hs]
  rfl

theorem headD_cut_cons {c : Char} (h : ¬ [' ', '#'] <+: c :: t) :
    (cut [' ', '#'] (c :: t)).headD [] = c :: (cut [' ', '#'] t).headD [] := by
  rw [← startsWith_iff_isPrefix] at h
  rw [cut, cutFrom, if_neg h, headD_consHead c (cutFrom_ne_nil _ 0 t)]
  rfl

/-- What stands in front of a comment is the same whatever the comment says. -/
theorem headD_cut_spec (t : Text) :
    ∃ rest, t = (cut [' ', '#'] t).headD [] ++ rest ∧
      (rest = [] ∨ ∃ q, rest = ' ' :: '#' :: q) ∧
      ∀ q, (cut [' ', '#'] ((cut [' ', '#'] t).headD [] ++ ' ' :: '#' :: q)).headD [] =
        (cut [' ', '#'] t).headD [] := by
  have hword : ([' ', '#'] : Text) ≠ [] := by simp
  induction t using word_induction hword with
  | nil => exact ⟨[], rfl, Or.inl rfl, fun q => headD_cut_word q⟩
  | skip t _ =>
    rw [headD_cut_word]
    exact ⟨' ' :: '#' :: t, rfl, Or.inr ⟨t, rfl⟩, fun q => headD_cut_word q⟩
  | cons c t hpre ih =>
    obtain ⟨rest, ht, hrest, hsame⟩ := ih
    rw [headD_cut_cons hpre]
    refine ⟨rest, congrArg (c :: ·) ht, hrest, fun q => ?_⟩
    rw [List.cons_append, headD_cut_cons ?_, hsame]
    -- a comment that began at the first character would begin there in `t` as well
    rintro ⟨q', hq'⟩
    obtain ⟨rfl, hnext⟩ := List.cons.inj hq'
    generalize (cut [' ', '#'] t).headD [] = p at ht hnext
    cases p with
    | nil => cases hnext
    | cons x p =>
      obtain ⟨rfl, -⟩ := List.cons.inj hnext
      exact hpre ⟨p ++ rest, by rw [ht]; rfl⟩

theorem exists_eq_of_topLevelKey? (h : topLevelKey? l = some key) :
    ∃ b r, l = key ++ b ++ ':' :: r ∧ allBlank b = true := by
  have hkey : l.takeWhile isKeyChar = key := by
    rw [topLevelKey?_eq] at h
    exact Option.some.inj (Option.ite_none_right_eq_some.1 h).2
  unfold topLevelKey? at h
  split at h
  · cases hstart : trimStart (l.dropWhile isKeyChar) with
    | nil =>
      rw [hstart] at h
      cases h
    | cons c r =>
      rw [hstart] at h
      split at h
      · next r' hr' =>
        obtain ⟨rfl, rfl⟩ := List.cons.inj hr'
        refine ⟨leadingBlanks (l.dropWhile isKeyChar), r, ?_, allBlank_leadingBlanks _⟩
        rw [List.append_assoc, ← hstart, leadingBlanks_append_trimStart, ← hkey,
          List.takeWhile_append_dropWhile]
      · cases h
  · cases h

theorem lineValue_append_colon {a : Text} (ha : ':' ∉ a) (r : Text) :
    lineValue (a ++ ':' :: r) = trim ((cut [' ', '#'] r).headD []) := by
  have hpos : ∀ c ∈ a, (c != ':') = true := fun c hc => bne_iff_ne.2 fun heq => ha (heq ▸ hc)
  have hsplit : splitAt? ':' (a ++ ':' :: r) = some (a, r) := by
    rw [splitAt?, List.dropWhile_append_of_pos hpos, List.dropWhile_cons_of_neg (by simp),
      List.takeWhile_append_of_pos hpos, List.takeWhile_cons_of_neg (by simp), List.append_nil]
  rw [lineValue, hsplit]

theorem isPlain_of_trim (h : IsPlain (trim t)) : IsPlain t := by
  obtain ⟨a, b, ha, hb, ht⟩ := exists_eq_append_trim t
  have happly : ∀ {word : Text}, word ≠ [] → (∀ c ∈ a ++ b, c ∉ word) → ¬ word <:+: trim t →
      ¬ word <:+: t := by
    intro word hword hapart hnot hin
    rw [ht] at hin
    refine hnot (infix_of_append_left hword (fun c hc => hapart c (List.mem_append_left _ hc)) ?_)
    exact infix_of_infix_append hword (fun c hc => hapart c (List.mem_append_right _ hc)) hin
  have hapart : IsApart (a ++ b) := (isApart_of_allBlank ha).append (isApart_of_allBlank hb)
  exact ⟨happly (by decide) (fun c hc => (hapart c hc).1) h.1,
    happly (by decide) (fun c hc => (hapart c hc).2) h.2⟩

/-- A value without a placeholder is left as it is, even if a comment behind it has one. -/
theorem lineValue_substitute (d : Device) (hkey : topLevelKey? l = some key) (hplain : IsPlain key)
    (hvalue : IsPlain (lineValue l)) : lineValue (substitute d l) = lineValue l := by
  obtain ⟨b, r, rfl, hb⟩ := exists_eq_of_topLevelKey? hkey
  have hcolon : ':' ∉ key ++ b := by
    rw [List.mem_append]
    rintro (hmem | hmem)
    · exact ne_colon_of_isKeyChar (List.all_eq_true.1 (topLevelKey?_spec hkey).1 _ hmem) rfl
    · cases List.all_eq_true.1 hb _ hmem
  have hfront : substitute d (key ++ b) = key ++ b := by
    rw [substitute_append_right d (isApart_of_allBlank hb), substitute_of_isPlain d hplain]
  rw [lineValue_append_colon hcolon] at hvalue ⊢
  rw [substitute_append_cons d (by decide), hfront, lineValue_append_colon hcolon]
  obtain ⟨rest, hr, hrest, hsame⟩ := headD_cut_spec r
  have hpiece := substitute_of_isPlain d (isPlain_of_trim hvalue)
  rcases hrest with rfl | ⟨q, rfl⟩
  · rw [List.append_nil] at hr
    rw [hr, hpiece, ← hr]
  · have hmark : substitute d ('#' :: q) = '#' :: substitute d q :=
      substitute_append_left d (by decide : IsApart ['#']) q
    have hcomment : substitute d r =
        (cut [' ', '#'] r).headD [] ++ ' ' :: '#' :: substitute d q := by
      conv_lhs => rw [hr, substitute_append_cons d (by decide), hpiece, hmark]
    rw [hcomment, hsame]

/-! ## The two sections of the identity -/

/-- Whether the line of a section's key gives way to one without a value. -/
def rewritesKeyLine (name : String) (d : Device) (s : Section) : Bool :=
  name == "esphome" || d.key?.any fun key => !showsKey key.toList s

/-- Whether the line of a section's key is dropped for a placeholder of the key that it shows. -/
def dropsKeyLine (name : String) (d : Device) (s : Section) : Bool :=
  name == "api" && d.key?.isNone && s.lines.head?.any (occurs apiKeyPlaceholder)

theorem key_mem_contentLines_text {r : List Text} (hs : s.IsKeyed key l r)
    (hfree : ∀ l ∈ s.lines, '\n' ∉ l) : trimEnd l ∈ contentLines s.text := by
  rw [contentLines_text hfree, hs.lines_eq, chosen_cons_of_pos (isContent_of_topLevelKey? hs.head)]
  exact List.mem_cons_self

theorem key_mem_esphomeSection (name recipe : Text) (hfree : ∀ l ∈ s.lines, '\n' ∉ l) :
    "esphome:".toList ∈ contentLines (esphomeSection name recipe (some s)) := by
  have hall : ∀ l ∈ "esphome:".toList ::
      namedLines name (occurs deviceNamePlaceholder recipe) s, '\n' ∉ l :=
    List.forall_mem_cons.2 ⟨by decide, newline_not_mem_namedLines hfree _ _⟩
  unfold esphomeSection
  dsimp only
  rw [contentLines_text hall, chosen_cons_of_pos rfl]
  exact List.mem_cons_self

theorem key_mem_apiSection_of_rewrites (hfree : ∀ l ∈ s.lines, '\n' ∉ l)
    (h : rewritesKeyLine "api" d s = true) :
    "api:".toList ∈ contentLines (apiSection (d.key?.map String.toList) (some s)) := by
  unfold rewritesKeyLine at h
  cases hkey : d.key? with
  | none =>
    rw [hkey] at h
    cases h
  | some key =>
    rw [hkey] at h
    have hshown : showsKey key.toList s = false := by simpa using h
    unfold showsKey at hshown
    have hall : ∀ l ∈ "api:".toList :: encryptedLines key.toList s, '\n' ∉ l := by
      rw [encryptedLines_eq]
      exact List.forall_mem_cons.2 ⟨by decide, newline_not_mem_withKey _ _ _ fun l hl =>
        hfree l (List.mem_of_mem_drop hl)⟩
    unfold apiSection
    dsimp only [Option.map_some]
    rw [hshown, if_neg (by decide), contentLines_text hall, chosen_cons_of_pos rfl]
    exact List.mem_cons_self

theorem key_mem_apiSection_of_kept {r : List Text} (hs : s.IsKeyed "api".toList l r)
    (hfree : ∀ l ∈ s.lines, '\n' ∉ l) (hkept : rewritesKeyLine "api" d s = false)
    (hshown : dropsKeyLine "api" d s = false) :
    trimEnd l ∈ contentLines (apiSection (d.key?.map String.toList) (some s)) := by
  unfold rewritesKeyLine at hkept
  unfold dropsKeyLine at hshown
  unfold apiSection
  cases hkey : d.key? with
  | none =>
    rw [hkey, hs.lines_eq] at hshown
    have hl : occurs apiKeyPlaceholder l = false := by simpa using hshown
    obtain ⟨r', hdrop, hsub⟩ := dropKeyPlaceholder_cons hs.head hl r
    have hlines : dropKeyPlaceholder s.lines = l :: r' := by rw [hs.lines_eq, hdrop]
    have hfree' : ∀ x ∈ l :: r', '\n' ∉ x := fun x hx =>
      hfree x (hs.lines_eq ▸ List.cons_subset_cons l hsub hx)
    dsimp only [Option.map_none]
    rw [hlines, contentLines_text hfree',
      chosen_cons_of_pos (isContent_of_topLevelKey? hs.head)]
    exact List.mem_cons_self
  | some key =>
    rw [hkey] at hkept
    have hkeyShown : showsKey key.toList s = true := by simpa using hkept
    unfold showsKey at hkeyShown
    dsimp only [Option.map_some]
    rw [hkeyShown, if_pos rfl]
    exact key_mem_contentLines_text hs hfree

/-! ## The document -/

theorem mem_contentLines_joinSections {texts : List Text} {u : Text} (hu : u ∈ texts)
    (hl : l ∈ contentLines u) :
    trimEnd (substitute d l) ∈ contentLines (joinSections d texts) := by
  rw [contentLines_joinSections]
  exact List.mem_map_of_mem (List.mem_flatMap.2 ⟨u, hu, hl⟩)

/-- A line of a key in a part of the document opens a section with its value. -/
theorem exists_section_joinSections {texts : List Text} {u : Text} (hu : u ∈ texts)
    (hl : l ∈ contentLines u) (hkey : topLevelKey? l = some key) (hplain : IsPlain key)
    (hvalue : IsPlain (lineValue l)) :
    ∃ s ∈ sectionsNamed key (joinSections d texts), s.inlineValue = lineValue l := by
  have hwritten : topLevelKey? (trimEnd (substitute d l)) = some key := by
    rw [topLevelKey?_trimEnd, topLevelKey?_substitute d fun key' hkey' => ?_, hkey]
    obtain rfl : key' = key := Option.some.inj (hkey'.symm.trans hkey)
    exact hplain
  obtain ⟨s, hs, heq⟩ := exists_sectionsNamed_of_content
    (mem_contentLines_joinSections (d := d) hu hl) hwritten
  exact ⟨s, hs, by rw [heq, lineValue_trimEnd, lineValue_substitute d hkey hplain hvalue]⟩

theorem isPlain_identity {name : String} (hname : name ∈ ["esphome", "api"]) :
    IsPlain name.toList := by
  simp only [isPlain_iff]
  revert name
  decide

/-- The texts of the sections show the first section of an identity's name as it is written, and
the later ones as they are. -/
theorem mem_bodyTexts_identity (options : Options) (recipe : Text) {ss : List Section}
    (added : List (String × List Node)) {name : String} (hname : name ∈ ["esphome", "api"])
    {u : Section} {us : List Section} (hss : named name.toList ss = u :: us) :
    (if name = "esphome" then esphomeSection d.nodeName.toList recipe (some u)
      else apiSection (d.key?.map String.toList) (some u)) ∈
        bodyTexts d options recipe ss added ∧
      ∀ s ∈ us, s.text ∈ bodyTexts d options recipe ss added := by
  have htaken : (takeSection name ss).1 = some u := by rw [takeSection_fst, hss]; rfl
  have hreserved : name.toList ∈ ["esphome", "api", "wifi", "ota"].map String.toList :=
    List.mem_map_of_mem
      ((by decide : ["esphome", "api"] ⊆ ["esphome", "api", "wifi", "ota"]) hname)
  have hothers : named name.toList (others ss) = us := by
    rw [← named_filter_isSome, named_others, if_pos hreserved, hss]
    rfl
  constructor
  · rcases List.mem_cons.1 hname with rfl | hname
    · rw [if_pos rfl, ← htaken]
      exact List.mem_cons_self
    · obtain rfl := List.mem_singleton.1 hname
      rw [if_neg (by decide), ← htaken]
      exact List.mem_cons_of_mem _ List.mem_cons_self
  · intro s hs
    rw [← hothers] at hs
    have hmem : s.text ∈ (others ss).map Section.text := List.mem_map_of_mem (mem_named.1 hs).1
    simp [bodyTexts, hmem]

/-- The value on the line of a key in a recipe stands in the filled recipe as well. -/
theorem exists_named_filled (u : UserText) (f : Fragments) (hs : s ∈ sectionsNamed key t) :
    ∃ s' ∈ named key (keyedOf (lines (fill (u.inject t) f).text)),
      s'.inlineValue = s.inlineValue := by
  rw [sectionsNamed_eq] at hs
  obtain ⟨s₀, hs₀, rfl⟩ := List.mem_map.1 hs
  obtain ⟨l, hl, hkey, hline⟩ := exists_content_of_section hs₀
  have hfilled := ((contentLines_inject u t).trans (contentLines_fill _ f)).subset hl
  obtain ⟨s', hs', heq⟩ := exists_section_of_content hfilled hkey
  exact ⟨s', hs', by rw [heq, hline, inlineValue_bare (mem_named.1 hs₀).1]⟩

section

variable {name : String} {texts : List Text} {r : List Text} (hname : name ∈ ["esphome", "api"])

include hname

theorem exists_section_text (hs : s.IsKeyed name.toList l r) (hfree : ∀ l ∈ s.lines, '\n' ∉ l)
    (hmem : s.text ∈ texts) (hplain : IsPlain s.inlineValue) :
    ∃ s' ∈ sectionsNamed name.toList (joinSections d texts),
      s'.inlineValue = s.inlineValue := by
  have hline : lineValue (trimEnd l) = s.inlineValue := by
    rw [lineValue_trimEnd, inlineValue_eq hs.lines_eq]
  rw [← hline] at hplain ⊢
  exact exists_section_joinSections hmem (key_mem_contentLines_text hs hfree)
    ((topLevelKey?_trimEnd l).trans hs.head) (isPlain_identity hname) hplain

/-- The first section of its name, if it is written with its own line. -/
theorem exists_section_kept {recipe : Text} (hs : s.IsKeyed name.toList l r)
    (hfree : ∀ l ∈ s.lines, '\n' ∉ l)
    (hmem : (if name = "esphome" then esphomeSection d.nodeName.toList recipe (some s)
      else apiSection (d.key?.map String.toList) (some s)) ∈ texts)
    (hkept : rewritesKeyLine name d s = false) (hshown : dropsKeyLine name d s = false)
    (hplain : IsPlain s.inlineValue) :
    ∃ s' ∈ sectionsNamed name.toList (joinSections d texts),
      s'.inlineValue = s.inlineValue := by
  have hidentity := isPlain_identity hname
  rcases List.mem_cons.1 hname with rfl | hname
  · cases hkept
  · obtain rfl := List.mem_singleton.1 hname
    rw [if_neg (by decide)] at hmem
    have hline : lineValue (trimEnd l) = s.inlineValue := by
      rw [lineValue_trimEnd, inlineValue_eq hs.lines_eq]
    rw [← hline] at hplain ⊢
    exact exists_section_joinSections hmem (key_mem_apiSection_of_kept hs hfree hkept hshown)
      ((topLevelKey?_trimEnd l).trans hs.head) hidentity hplain

/-- The first section of its name, if it is written with a new line. -/
theorem exists_section_rewritten {recipe : Text} (hfree : ∀ l ∈ s.lines, '\n' ∉ l)
    (hmem : (if name = "esphome" then esphomeSection d.nodeName.toList recipe (some s)
      else apiSection (d.key?.map String.toList) (some s)) ∈ texts)
    (hrewrites : rewritesKeyLine name d s = true) :
    ∃ s' ∈ sectionsNamed name.toList (joinSections d texts), s'.inlineValue = [] := by
  have hidentity := isPlain_identity hname
  rcases List.mem_cons.1 hname with rfl | hname
  · rw [if_pos rfl] at hmem
    exact exists_section_joinSections (l := "esphome:".toList) hmem
      (key_mem_esphomeSection _ _ hfree) (by decide) hidentity (isPlain_iff.2 (by decide))
  · obtain rfl := List.mem_singleton.1 hname
    rw [if_neg (by decide)] at hmem
    exact exists_section_joinSections (l := "api:".toList) hmem
      (key_mem_apiSection_of_rewrites hfree hrewrites) (by decide) hidentity
      (isPlain_iff.2 (by decide))

end

/-- A section `esphome` or `api` of a recipe keeps the value on the line of its key, unless it is
the first one of its name and the line gives way to another one: that of `esphome` always does, and
that of `api` where a key of the device is put in. The line that is put in has no value. -/
theorem inline_value_kept (d : Device) (recipe : Text) (registry : Registry) (options : Options)
    {name : String} (hname : name ∈ ["esphome", "api"])
    (hs : s ∈ sectionsNamed name.toList (normalize recipe)) (hvalue : s.inlineValue ≠ [])
    (hplain : IsPlain s.inlineValue) :
    let document := (Compilation.ofDevice d recipe registry options).document
    ∃ u, recipeSection? name d recipe registry options = some u ∧
      (¬ (u.inlineValue = s.inlineValue ∧
          (rewritesKeyLine name d u = true ∨ dropsKeyLine name d u = true)) →
        ∃ s' ∈ sectionsNamed name.toList document, s'.inlineValue = s.inlineValue) ∧
      (rewritesKeyLine name d u = true →
        ∃ s' ∈ sectionsNamed name.toList document, s'.inlineValue = []) := by
  have hnames := name_mem_of_ofProject d.project registry options
  have hdocument : (Compilation.ofDevice d recipe registry options).document =
      (assemble d recipe (Fragments.ofProject d.project registry options).1 options).1 := rfl
  unfold recipeSection?
  rw [hdocument, assemble_eq_keyed]
  dsimp only
  generalize (Fragments.ofProject d.project registry options).1 = f at hnames ⊢
  obtain ⟨s₁, hs₁, hvalue₁⟩ := exists_named_filled d.project.userText f hs
  rw [← hvalue₁] at hvalue hplain ⊢
  rw [named_split]
  generalize d.project.userText.inject (normalize recipe) = t at hs₁ ⊢
  have hfixed : name ∉ generatedNames :=
    (by decide : ∀ name ∈ ["esphome", "api"], name ∉ generatedNames) name hname
  have hmerged := named_merged (t := t) hnames name hfixed (keyedOf (lines (fill t f).text))
  obtain ⟨u, us, hns⟩ := List.exists_cons_of_ne_nil (List.ne_nil_of_mem hs₁)
  obtain ⟨hfirst, hrest⟩ := mem_bodyTexts_identity (d := d) options (fill t f).text
    ((fill t f).left ++ f.trailing.filter fun s => !hasSection (fill t f).text s.1.toList) hname
    (hmerged.trans hns)
  have hkeyed : ∀ x ∈ u :: us, ∃ l r, x.IsKeyed name.toList l r ∧ ∀ l ∈ x.lines, '\n' ∉ l := by
    intro x hx
    rw [← hns] at hx
    obtain ⟨l, r, hx'⟩ := exists_isKeyed_of_mem_named hx
    exact ⟨l, r, hx', (isHeaded_of_mem_keyedOf (mem_named.1 hx).1).free⟩
  obtain ⟨l, r, hu, hfree⟩ := hkeyed u List.mem_cons_self
  generalize (mergeSections _ _).1 = ss at hfirst hrest ⊢
  rw [hns] at hs₁ ⊢
  refine ⟨u, rfl, fun hnot => ?_, fun hrewrites => ?_⟩
  · by_cases hsame : u.inlineValue = s₁.inlineValue
    · -- the first section of the name is written with its own line
      rw [not_and_or, not_or, Bool.not_eq_true, Bool.not_eq_true] at hnot
      obtain ⟨hkept, hshown⟩ := hnot.resolve_left (not_not_intro hsame)
      rw [← hsame] at hplain ⊢
      exact exists_section_kept hname hu hfree (List.mem_append_right _ hfirst) hkept hshown hplain
    · have hmem : s₁ ∈ us := (List.mem_cons.1 hs₁).resolve_left fun heq => hsame (heq ▸ rfl)
      obtain ⟨l₁, r₁, hkeyed₁, hfree₁⟩ := hkeyed s₁ hs₁
      exact exists_section_text hname hkeyed₁ hfree₁
        (List.mem_append_right _ (hrest s₁ hmem)) hplain
  · exact exists_section_rewritten hname hfree (List.mem_append_right _ hfirst) hrewrites

/-- A recipe with values on the lines of its keys. -/
def valueRecipe (esphome api : String) (below : List String) : Text :=
  joinLines ((["esphome:" ++ esphome, "  platform: esp32", "api:" ++ api] ++ below ++
    ["lvgl:", "  #__LVGL_PAGES__"]).map String.toList)

theorem inline_value_kept_anchor :
    ∃ s ∈ sectionsNamed "api".toList (Compilation.ofDevice keyedPanel
      (valueRecipe "" " &api # __ETD_API_KEY__" ["  encryption:", "    key: __ETD_API_KEY__"])
        .builtin {}).document, s.inlineValue = "&api".toList := by
  have hs : (⟨some "api".toList, ["api: &api # __ETD_API_KEY__", "  encryption:",
      "    key: __ETD_API_KEY__"].map String.toList⟩ : Section) ∈ sectionsNamed "api".toList
        (normalize (valueRecipe "" " &api # __ETD_API_KEY__"
          ["  encryption:", "    key: __ETD_API_KEY__"])) := by decide +kernel
  have hplain : IsPlain "&api".toList := isPlain_iff.2 (by decide)
  obtain ⟨u, hu, hkept, -⟩ := inline_value_kept keyedPanel (valueRecipe ""
    " &api # __ETD_API_KEY__" ["  encryption:", "    key: __ETD_API_KEY__"]) .builtin {}
    (by decide) hs (by decide) hplain
  have hcase : ∀ u ∈ recipeSection? "api" keyedPanel (valueRecipe "" " &api # __ETD_API_KEY__"
      ["  encryption:", "    key: __ETD_API_KEY__"]) .builtin {},
      rewritesKeyLine "api" keyedPanel u = false ∧ dropsKeyLine "api" keyedPanel u = false := by
    decide +kernel
  obtain ⟨hrewrites, hdrops⟩ := hcase u hu
  obtain ⟨s, hs, heq⟩ := hkept fun h => by simp [hrewrites, hdrops] at h
  exact ⟨s, hs, heq⟩

/-- An anchor of `esphome` is lost for every device, and a tag of `api` for a device with a key. -/
theorem inline_value_lost :
    let recipe := valueRecipe " &base" " !include api.yaml" []
    (∃ s ∈ (sectionsNamed "esphome".toList (normalize recipe)).head?,
      s.inlineValue = "&base".toList) ∧
    (∃ s ∈ (sectionsNamed "api".toList (normalize recipe)).head?,
      s.inlineValue = "!include api.yaml".toList) ∧
    (IsPlain "&base".toList ∧ IsPlain "!include api.yaml".toList) ∧
    (∀ s ∈ sectionsNamed "esphome".toList (Compilation.ofDevice panel recipe .builtin {}).document,
      ∀ l ∈ s.lines, occurs "&base".toList l = false) ∧
    ∀ s ∈ sectionsNamed "api".toList
        (Compilation.ofDevice keyedPanel recipe .builtin {}).document,
      ∀ l ∈ s.lines, occurs "!include api.yaml".toList l = false := by
  intro recipe
  refine ⟨⟨⟨some "esphome".toList, ["esphome: &base", "  platform: esp32"].map String.toList⟩,
    by decide +kernel, by decide⟩, ⟨⟨some "api".toList, ["api: !include api.yaml".toList]⟩,
    by decide +kernel, by decide⟩,
    ⟨isPlain_iff.2 (by decide), isPlain_iff.2 (by decide)⟩, ?_, ?_⟩
  · decide +kernel
  · decide +kernel

end TouchPanel.Document
