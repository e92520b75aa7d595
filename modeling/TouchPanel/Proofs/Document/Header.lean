import TouchPanel.Proofs.Document.Placeholder

/-!
# The comment at the head of a document

The id of a device is written as it is behind the mark of a comment, and nothing else of a document
depends on it. A comment ends with its line, so what an id has below its first line stands in the
document as lines of their own.
-/

namespace TouchPanel.Document

open Text Recipe

variable {d : Device} {t : Text}

/-! ## Lines that are no comments -/

/-- The lines of a text that are no comments. -/
def dataLines (t : Text) : List Text := (lines t).filter (!isComment ·)

/-- The lines of a text below its first one that are no comments. -/
def dataBelow (t : Text) : List Text := (lines (t ++ ['\n'])).tail.filter (!isComment ·)

theorem dataLines_append {a : Text} (ha : Closed a) (b : Text) :
    dataLines (a ++ b) = dataLines a ++ dataLines b := by
  rw [dataLines, lines, segments_append ha, List.map_append, List.filter_append]
  rfl

/-- The end of a line takes at most a carriage return from it. -/
theorem isComment_chomp (t : Text) : isComment (chomp ('#' :: t ++ ['\n'])) = true := by
  obtain ⟨b, hb, ht⟩ := eq_chomp_append ('#' :: t)
  cases hline : chomp ('#' :: t ++ ['\n']) with
  | nil =>
    rw [hline, List.nil_append] at ht
    rcases hb with rfl | rfl <;> cases ht
  | cons c r =>
    rw [hline, List.cons_append] at ht
    rw [← (List.cons.inj ht).1]
    rfl

/-- Of a comment and the text behind its mark only what is below the first line counts. -/
theorem dataLines_comment {mark : Text} (hmark : '\n' ∉ mark) (t : Text) :
    dataLines ('#' :: mark ++ t ++ ['\n']) = dataBelow t := by
  obtain ⟨l, r, hsplit, hl⟩ := List.eq_append_cons_of_mem
    (List.mem_append_right t (List.mem_singleton.2 rfl) : '\n' ∈ t ++ ['\n'])
  have hfirst : ∀ {l : Text}, '\n' ∉ l →
      lines (l ++ '\n' :: r) = chomp (l ++ ['\n']) :: lines r := by
    intro l hl
    have hline : IsLine (l ++ ['\n']) := ⟨l, hl, rfl⟩
    rw [← List.singleton_append, ← List.append_assoc, lines, segments_append hline.closed,
      hline.segments]
    rfl
  have hwhole : '\n' ∉ '#' :: mark ++ l := by simp [hmark, hl]
  have hcomment : isComment (chomp ('#' :: mark ++ l ++ ['\n'])) = true :=
    isComment_chomp (mark ++ l)
  rw [dataLines, dataBelow, List.append_assoc, hsplit, ← List.append_assoc, hfirst hwhole,
    hfirst hl, List.filter_cons_of_neg (by rw [hcomment]; decide)]
  rfl

/-! ## The id of a device -/

/-- The line in front of the id of a device, and the beginning of its own line. -/
def idComment : Text :=
  "# Generated by touch-designer v0.1.0".toList ++ '\n' :: "# device_id:".toList ++ [' ']

theorem isPlain_idComment_append (h : IsPlain t) : IsPlain (idComment ++ t) := by
  have hword : ∀ {word : Text}, ' ' ∉ word →
      ¬ word <:+: "# Generated by touch-designer v0.1.0".toList ++
        '\n' :: "# device_id:".toList →
      ¬ word <:+: t → ¬ word <:+: idComment ++ t := by
    intro word hblank hfront ht hin
    unfold idComment at hin
    rw [List.append_assoc, List.singleton_append] at hin
    exact (infix_append_cons hblank hin).elim hfront ht
  exact ⟨hword (by decide) (by decide) h.1, hword (by decide) (by decide) h.2⟩

theorem trimEnd_header (d : Device) :
    trimEnd (header d) =
      idComment ++ d.deviceId.toList ++ '\n' :: trimEnd ("# slug: ".toList ++ d.slug.toList) := by
  have hheader : header d =
      idComment ++ d.deviceId.toList ++ ['\n'] ++ ("# slug: ".toList ++ d.slug.toList) := by
    have hmark : "# device_id: ".toList = "# device_id:".toList ++ [' '] := by decide
    unfold idComment
    simp only [header, joinLines, joinWith, String.toList_append, hmark, List.append_assoc,
      List.cons_append, List.nil_append]
  have hmark : allBlank "# slug: ".toList = false := by decide
  have hslug : allBlank ("# slug: ".toList ++ d.slug.toList) = false := by
    rw [allBlank_append, hmark, Bool.false_and]
  rw [hheader, trimEnd_append_of_not_blank _ hslug, List.append_assoc, List.singleton_append]

theorem exists_joinWith_cons (sep : Text) (ts : List Text) :
    ∃ rest, ∀ t, joinWith sep (t :: ts) = t ++ rest := by
  cases ts with
  | nil => exact ⟨[], fun t => (List.append_nil t).symm⟩
  | cons u ts => exact ⟨sep ++ joinWith sep (u :: ts), fun t => List.append_assoc t sep _⟩

/-- The parts of a document that stand below the comment at its head. -/
def textsBelowHeader (d : Device) (recipe : Text) (registry : Registry) (options : Options) :
    List Text :=
  let f := (Fragments.ofProject d.project registry options).1
  let filled := fill (d.project.userText.inject (normalize recipe)) f
  let isDeclared (s : String × List Node) : Bool := hasSection filled.text s.1.toList
  let sections := (mergeSections (Section.split filled.text)
    (filled.existing ++ f.trailing.filter isDeclared)).1
  sectionTexts d { options with headerComment := false } filled.text sections
    (filled.left ++ f.trailing.filter (!isDeclared ·))

theorem textsBelowHeader_with_id (d : Device) (id : String) (recipe : Text) (registry : Registry)
    (options : Options) :
    textsBelowHeader { d with deviceId := id } recipe registry options =
      textsBelowHeader d recipe registry options := by
  have hname : Device.nodeName { d with deviceId := id } = d.nodeName := rfl
  have hkey : Device.key? { d with deviceId := id } = d.key? := rfl
  unfold textsBelowHeader
  simp only [sectionTexts_eq, hname, hkey, Bool.false_eq_true, if_false]

theorem template_eq_body (d : Device) (recipe : Text) (registry : Registry) (options : Options) :
    template d recipe registry options =
      joinWith ['\n', '\n'] ((((if options.headerComment then [header d] else []) ++
        textsBelowHeader d recipe registry options).map trimEnd).filter (!·.isEmpty)) ++
          ['\n'] := by
  have hnetwork : networkTexts { options with headerComment := false } = networkTexts options := by
    funext default s
    cases s <;> rfl
  unfold template textsBelowHeader
  simp only [sectionTexts_eq, hnetwork, Bool.false_eq_true, if_false, List.nil_append,
    List.append_assoc]

/-- A document with a comment at its head shows the id there, and what follows does not depend on
it. -/
theorem exists_template_eq (d : Device) (recipe : Text) (registry : Registry) {options : Options}
    (hoptions : options.headerComment = true) :
    ∃ rest, ∀ id : String, template { d with deviceId := id } recipe registry options =
      idComment ++ id.toList ++ '\n' :: rest := by
  obtain ⟨rest, hrest⟩ := exists_joinWith_cons ['\n', '\n']
    (((textsBelowHeader d recipe registry options).map trimEnd).filter (!·.isEmpty))
  refine ⟨trimEnd ("# slug: ".toList ++ d.slug.toList) ++ rest ++ ['\n'], fun id => ?_⟩
  have hheader := trimEnd_header { d with deviceId := id }
  have hne : trimEnd (header { d with deviceId := id }) ≠ [] := by
    rw [hheader]
    simp
  rw [template_eq_body, hoptions, if_pos rfl, textsBelowHeader_with_id, List.singleton_append,
    List.map_cons, List.filter_cons_of_pos (by simpa using hne), hrest, hheader]
  simp only [List.append_assoc, List.cons_append]

theorem template_of_no_header (d : Device) (recipe : Text) (registry : Registry)
    {options : Options} (hoptions : options.headerComment = false) (id : String) :
    template { d with deviceId := id } recipe registry options =
      template d recipe registry options := by
  rw [template_eq_body, template_eq_body, hoptions, textsBelowHeader_with_id]
  rfl

/-- What the id of a device has below its first line, and then what does not depend on it. -/
theorem exists_dataLines_document (d : Device) (recipe : Text) (registry : Registry)
    {options : Options} (hoptions : options.headerComment = true) :
    ∃ rest, ∀ id : String, IsPlain id.toList →
      dataLines (Compilation.ofDevice { d with deviceId := id } recipe registry options).document =
        dataBelow id.toList ++ rest := by
  obtain ⟨rest, htemplate⟩ := exists_template_eq d recipe registry hoptions
  refine ⟨dataLines (substitute d rest), fun id hid => ?_⟩
  have hdocument : (Compilation.ofDevice { d with deviceId := id } recipe registry
      options).document = idComment ++ id.toList ++ ['\n'] ++ substitute d rest :=
    calc (Compilation.ofDevice { d with deviceId := id } recipe registry options).document
      _ = substitute d (template { d with deviceId := id } recipe registry options) :=
        document_eq_substitute _ recipe registry options
      _ = substitute d (idComment ++ id.toList) ++ '\n' :: substitute d rest := by
        rw [htemplate, substitute_append_cons d (by decide)]
      _ = idComment ++ id.toList ++ ['\n'] ++ substitute d rest := by
        rw [substitute_of_isPlain d (isPlain_idComment_append hid)]
        simp
  have hcomment : idComment ++ id.toList ++ ['\n'] =
      "# Generated by touch-designer v0.1.0".toList ++ ['\n'] ++
        ('#' :: " device_id: ".toList ++ id.toList ++ ['\n']) := by
    unfold idComment
    simp
  have hgenerated : dataLines ("# Generated by touch-designer v0.1.0".toList ++ ['\n']) = [] := by
    decide
  rw [hdocument, dataLines_append (closed_append_newline _), hcomment,
    dataLines_append (closed_append_newline _), hgenerated, dataLines_comment (by decide),
    List.nil_append]

/-- Two ids of one device give documents that differ in nothing but comments exactly where the ids
do not differ below their first lines, or where no comment is written. -/
theorem id_changes_only_comments_iff (d : Device) (id : String) (recipe : Text)
    (registry : Registry) (options : Options) (hd : IsPlain d.deviceId.toList)
    (hid : IsPlain id.toList) :
    let document (d : Device) := (Compilation.ofDevice d recipe registry options).document
    dataLines (document { d with deviceId := id }) = dataLines (document d) ↔
      options.headerComment = false ∨ dataBelow id.toList = dataBelow d.deviceId.toList := by
  intro document
  cases hoptions : options.headerComment with
  | false =>
    have hsame : document { d with deviceId := id } = document d :=
      calc document { d with deviceId := id }
        _ = substitute d (template { d with deviceId := id } recipe registry options) :=
          document_eq_substitute _ recipe registry options
        _ = document d := by
          rw [template_of_no_header d recipe registry hoptions]
          exact (document_eq_substitute d recipe registry options).symm
    rw [hsame]
    simp
  | true =>
    obtain ⟨rest, hrest⟩ := exists_dataLines_document d recipe registry hoptions
    rw [show dataLines (document { d with deviceId := id }) = _ from hrest id hid,
      show dataLines (document d) = _ from hrest d.deviceId hd, List.append_left_inj]
    simp

/-- An id of two lines, of which the second is a comment as well. -/
theorem id_changes_only_comments_two_lines :
    let document (d : Device) := (Compilation.ofDevice d [] .builtin {}).document
    IsPlain panel.deviceId.toList ∧ IsPlain "panel-2\r\n # hall".toList ∧
      dataLines (document { panel with deviceId := "panel-2\r\n # hall" }) =
        dataLines (document panel) := by
  intro document
  have hpanel : IsPlain panel.deviceId.toList := isPlain_iff.2 (by decide)
  have hid : IsPlain "panel-2\r\n # hall".toList := isPlain_iff.2 (by decide)
  exact ⟨hpanel, hid, (id_changes_only_comments_iff panel "panel-2\r\n # hall" [] .builtin {}
    hpanel hid).2 (Or.inr (by decide))⟩

/-- An id can open a section of its own. -/
theorem id_opens_section :
    let document (d : Device) := (Compilation.ofDevice d [] .builtin {}).document
    (IsPlain panel.deviceId.toList ∧ IsPlain "panel-1\nlogger:".toList) ∧
      dataLines (document { panel with deviceId := "panel-1\nlogger:" }) ≠
        dataLines (document panel) ∧
      hasSection (document { panel with deviceId := "panel-1\nlogger:" }) "logger".toList = true ∧
      hasSection (document panel) "logger".toList = false := by
  intro document
  have hpanel : IsPlain panel.deviceId.toList := isPlain_iff.2 (by decide)
  have hid : IsPlain "panel-1\nlogger:".toList := isPlain_iff.2 (by decide)
  exact ⟨⟨hpanel, hid⟩, by decide +kernel, by decide +kernel, by decide +kernel⟩

end TouchPanel.Document
