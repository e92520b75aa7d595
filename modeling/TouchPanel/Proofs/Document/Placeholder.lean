import TouchPanel.Document.Fault
import TouchPanel.Proofs.Document.Named
import TouchPanel.Proofs.Document.Written
import TouchPanel.Proofs.Yaml.Quoted

/-!
# Placeholders in a document

The name and the key of a device are put in between quotes, and a quote is no character of a
placeholder. So nothing that is put in makes a placeholder with what stands beside it, and a
document shows one only if the name or the key has it, or if there is no key to put in.
-/

namespace TouchPanel.Document

open Text Recipe

variable {d : Device} {t word : Text}

/-! ## What is put in -/

theorem infix_of_infix_replace_quote {placeholder : Text} (hplaceholder : placeholder ≠ [])
    (hword : IsCapital word) {value : Text}
    (h : word <:+: replace placeholder (quote value) t) :
    word <:+: value ∨ word <:+: t ∧ word ≠ placeholder := by
  have hquote : '"' ∉ word := by
    intro hmem
    rcases hword.2 _ hmem with h | h <;> cases h
  have hescaped := infix_of_infix_replace (m := value.flatMap escape) hplaceholder hword.1 hquote h
  exact hescaped.imp (infix_of_infix_flatMap_escape hword) id

/-- Where a word in capital letters comes from. -/
theorem infix_of_infix_substitute (hword : IsCapital word) (h : word <:+: substitute d t) :
    word <:+: d.nodeName.toList ∨ (∃ key ∈ d.key?, word <:+: key.toList) ∨
      word <:+: t ∧ word ≠ deviceNamePlaceholder ∧
        (d.key?.isSome = true → word ≠ apiKeyPlaceholder) := by
  unfold substitute at h
  cases hkey : d.key? with
  | none =>
    rw [hkey] at h
    rcases infix_of_infix_replace_quote (by decide) hword h with hname | ⟨hin, hne⟩
    · exact Or.inl hname
    · exact Or.inr (Or.inr ⟨hin, hne, fun hsome => nomatch hsome⟩)
  | some key =>
    rw [hkey] at h
    rcases infix_of_infix_replace_quote (by decide) hword h with hvalue | ⟨hnamed, hne⟩
    · exact Or.inr (Or.inl ⟨key, rfl, hvalue⟩)
    · rcases infix_of_infix_replace_quote (by decide) hword hnamed with hname | ⟨hin, hne'⟩
      · exact Or.inl hname
      · exact Or.inr (Or.inr ⟨hin, hne', fun _ => hne⟩)

theorem deviceNamePlaceholder_not_infix (hname : IsPlain d.nodeName.toList)
    (hkey : ∀ key ∈ d.key?, IsPlain key.toList) (t : Text) :
    ¬ deviceNamePlaceholder <:+: substitute d t := by
  intro h
  rcases infix_of_infix_substitute (by decide) h with h | ⟨key, hmem, h⟩ | ⟨-, hne, -⟩
  · exact hname.1 h
  · exact (hkey key hmem).1 h
  · exact hne rfl

theorem apiKeyPlaceholder_not_infix (hname : IsPlain d.nodeName.toList)
    (hkey : ∀ key ∈ d.key?, IsPlain key.toList) (hsome : d.key?.isSome = true) (t : Text) :
    ¬ apiKeyPlaceholder <:+: substitute d t := by
  intro h
  rcases infix_of_infix_substitute (by decide) h with h | ⟨key, hmem, h⟩ | ⟨-, -, hne⟩
  · exact hname.2 h
  · exact (hkey key hmem).2 h
  · exact hne hsome rfl

/-! ## The document -/

/-- A document before the name and the key of the device are put in. -/
def template (d : Device) (recipe : Text) (registry : Registry) (options : Options) : Text :=
  let f := (Fragments.ofProject d.project registry options).1
  let filled := fill (d.project.userText.inject (normalize recipe)) f
  let isDeclared (s : String × List Node) : Bool := hasSection filled.text s.1.toList
  let sections := (mergeSections (Section.split filled.text)
    (filled.existing ++ f.trailing.filter isDeclared)).1
  let texts := sectionTexts d options filled.text sections
    (filled.left ++ f.trailing.filter (!isDeclared ·))
  joinWith ['\n', '\n'] ((texts.map trimEnd).filter (!·.isEmpty)) ++ ['\n']

theorem document_eq_substitute (d : Device) (recipe : Text) (registry : Registry)
    (options : Options) :
    (Compilation.ofDevice d recipe registry options).document =
      substitute d (template d recipe registry options) := by
  have hdocument : (Compilation.ofDevice d recipe registry options).document =
      (assemble d recipe (Fragments.ofProject d.project registry options).1 options).1 := rfl
  rw [hdocument, assemble_eq_filled, template, substitute_append_right d (by decide)]
  rfl

/-- A document shows no placeholder for which there is a value, whatever stands in the recipe and
in the project: tokens that overlap, parts of tokens, and values with characters that are
escaped. -/
theorem document_shows_no_placeholder (d : Device) (recipe : Text) (registry : Registry)
    (options : Options) (hname : IsPlain d.nodeName.toList)
    (hkey : ∀ key ∈ d.key?, IsPlain key.toList) :
    let document := (Compilation.ofDevice d recipe registry options).document
    occurs deviceNamePlaceholder document = false ∧
      (d.key?.isSome = true → occurs apiKeyPlaceholder document = false) := by
  intro document
  have hdocument : document = substitute d (template d recipe registry options) :=
    document_eq_substitute d recipe registry options
  constructor
  · rw [← Bool.not_eq_true, occurs_iff_infix, hdocument]
    exact deviceNamePlaceholder_not_infix hname hkey _
  · intro hsome
    rw [← Bool.not_eq_true, occurs_iff_infix, hdocument]
    exact apiKeyPlaceholder_not_infix hname hkey hsome _

/-- A device whose name and key hold parts of the placeholders. -/
def fragmentPanel : Device :=
  { panel with slug := "__ETD_DEVICE_\nNAME__", apiKey := some "NAME__ETD_API_" }

theorem document_shows_no_placeholder_overlapping :
    let recipe := joinLines (["esphome:", "  name: __ETD_DEVICE_NAME__ETD_DEVICE_NAME__",
      "  # __ETD_API_KEY__ETD_API_KEY__ETD_DEVICE_NAME__"].map String.toList)
    IsPlain fragmentPanel.nodeName.toList ∧ (∀ key ∈ fragmentPanel.key?, IsPlain key.toList) ∧
      leftPlaceholders (Compilation.ofDevice fragmentPanel recipe .builtin {}).document = [] := by
  intro recipe
  have hname : IsPlain fragmentPanel.nodeName.toList := isPlain_iff.2 (by decide)
  have hkey : ∀ key ∈ fragmentPanel.key?, IsPlain key.toList := by
    intro key hmem
    obtain rfl : "NAME__ETD_API_" = key := Option.some.inj hmem
    exact isPlain_iff.2 (by decide)
  obtain ⟨hfirst, hsecond⟩ := document_shows_no_placeholder fragmentPanel recipe .builtin {}
    hname hkey
  refine ⟨hname, hkey, ?_⟩
  rw [leftPlaceholders, List.filter_cons_of_neg (by simp [hfirst]),
    List.filter_cons_of_neg (by simp [hsecond (by decide)])]
  rfl

/-! ## Values -/

/-- The text for which a placeholder stands. There is none for the key of a device without one. -/
def placeholderValue? (d : Device) (placeholder : Text) : Option String :=
  if placeholder = deviceNamePlaceholder then some d.nodeName
  else if placeholder = apiKeyPlaceholder then d.key?
  else none

theorem replace_self {placeholder : Text} (h : placeholder ≠ []) (fill : Text) :
    replace placeholder fill placeholder = fill := by
  have hfill : replace placeholder fill (placeholder ++ []) = fill ++ [] :=
    replace_word_append h []
  rwa [List.append_nil, List.append_nil] at hfill

theorem substitute_placeholder (hname : IsPlain d.nodeName.toList) {placeholder : Text}
    {value : String} (hvalue : placeholderValue? d placeholder = some value) :
    substitute d placeholder = quote value.toList := by
  unfold placeholderValue? at hvalue
  unfold substitute
  split_ifs at hvalue with hp hp
  · obtain rfl := Option.some.inj hvalue
    rw [hp, replace_self (by decide)]
    cases d.key? with
    | none => rfl
    | some key => exact replace_of_not_infix (not_infix_quote (by decide) hname.2)
  · rw [hvalue, hp, replace_of_not_infix (by decide)]
    exact replace_self (by decide) _

/-- A character that stands in no placeholder keeps apart what is put in on both sides. -/
theorem substitute_append_cons (d : Device) {c : Char} (hc : IsApart [c]) (a b : Text) :
    substitute d (a ++ c :: b) = substitute d a ++ c :: substitute d b := by
  obtain ⟨hname, hkey⟩ := hc c List.mem_cons_self
  unfold substitute
  rw [replace_append_cons (by decide) hname]
  cases d.key? with
  | none => rfl
  | some key => exact replace_append_cons (by decide) hkey _ _

theorem substitute_of_isPlain (d : Device) (h : IsPlain t) : substitute d t = t := by
  unfold substitute
  rw [ replace_of_not_infix h.1]
  cases d.key? with
  | none => rfl
  | some key => exact replace_of_not_infix h.2

/-- Each line of the document is one line with the name and the key put in. -/
theorem bareLines_document (d : Device) (recipe : Text) (registry : Registry)
    (options : Options) :
    bareLines (Compilation.ofDevice d recipe registry options).document =
      (bareLines (template d recipe registry options)).map (written d) := by
  have hlines : ∀ t, bareLines (substitute d t ++ ['\n']) =
      (bareLines (t ++ ['\n'])).map (written d) := by
    intro t
    rw [bareLines, map_bare_lines, splitOn_substitute, bareLines, map_bare_lines,
      map_written_bare, List.map_map]
    rfl
  rw [document_eq_substitute, template, substitute_append_right d (by decide)]
  exact hlines _

/-- Where a placeholder is all that stands behind a key, its line shows a quoted scalar in the
document, and that is read back as the name or the key of the device. Between quotes of its own
a placeholder would be quoted twice. -/
theorem document_denotes_value (d : Device) (recipe : Text) (registry : Registry)
    (options : Options) (hname : IsPlain d.nodeName.toList) {placeholder : Text} {value : String}
    (hvalue : placeholderValue? d placeholder = some value)
    (hreadable : ∀ c ∈ value.toList, Yaml.isReadable c = true)
    {indent key : Text} (hindent : allBlank indent = true) {i : ℕ}
    (hline : (bareLines (template d recipe registry options))[i]? =
      some (indent ++ key ++ ": ".toList ++ placeholder)) :
    let document := (Compilation.ofDevice d recipe registry options).document
    ∃ scalar, (bareLines document)[i]? =
        some (indent ++ substitute d key ++ ": ".toList ++ scalar) ∧
      Yaml.Value.ofText? scalar = some (.string value) := by
  intro document
  have hkept : substitute d (indent ++ key ++ ": ".toList ++ placeholder) =
      indent ++ substitute d key ++ ": ".toList ++ quote value.toList :=
    calc substitute d (indent ++ key ++ ": ".toList ++ placeholder)
      _ = substitute d (indent ++ (key ++ ':' :: ([' '] ++ placeholder))) := by simp
      _ = indent ++ (substitute d key ++ ':' :: ([' '] ++ substitute d placeholder)) := by
        rw [substitute_append_left d (isApart_of_allBlank hindent),
          substitute_append_cons d (by decide), substitute_append_left d (by decide)]
      _ = indent ++ substitute d key ++ ": ".toList ++ quote value.toList := by
        rw [substitute_placeholder hname hvalue]
        simp
  refine ⟨quote value.toList, ?_, ?_⟩
  · rw [bareLines_document, List.getElem?_map, hline, Option.map_some, written, hkept,
      ((Node.endsClean_quote _).append _).bare_eq]
  · rw [Yaml.ofText?_quote hreadable, String.ofList_toList]

/-- A device whose name has characters that are escaped. -/
def escapedPanel : Device := { panel with slug := "hall \"A\"\t\\1" }

/-- A recipe that gives the device a name. -/
def nameRecipe (scalar : String) : Text :=
  joinLines (["esphome:", "  name: " ++ scalar, "api:", "lvgl:",
    "  #__LVGL_PAGES__"].map String.toList)

theorem document_denotes_value_escaped :
    ∃ scalar, (bareLines (Compilation.ofDevice escapedPanel (nameRecipe "__ETD_DEVICE_NAME__")
        .builtin {}).document)[5]? = some ("  name: ".toList ++ scalar) ∧
      Yaml.Value.ofText? scalar = some (.string "hall \"A\"\t\\1") := by
  have hvalue : placeholderValue? escapedPanel deviceNamePlaceholder =
      some "hall \"A\"\t\\1" := by decide
  have hline : (bareLines (template escapedPanel (nameRecipe "__ETD_DEVICE_NAME__")
      .builtin {}))[5]? =
        some ("  ".toList ++ "name".toList ++ ": ".toList ++ deviceNamePlaceholder) := by
    decide +kernel
  have hkey : substitute escapedPanel "name".toList = "name".toList := by decide +kernel
  obtain ⟨scalar, hscalar, hread⟩ := document_denotes_value escapedPanel
    (nameRecipe "__ETD_DEVICE_NAME__") .builtin {} (isPlain_iff.2 (by decide)) hvalue
    (List.all_eq_true.1 (by decide)) (by decide) hline
  rw [hkey] at hscalar
  exact ⟨scalar, hscalar, hread⟩

/-- A placeholder that stands between quotes is quoted once more, and the quotes become part of
the name. -/
theorem name_quoted_twice :
    let document := (Compilation.ofDevice panel (nameRecipe "'__ETD_DEVICE_NAME__'")
      .builtin {}).document
    (panel.nodeName = "hall" ∧ IsPlain "hall".toList ∧ panel.key? = none) ∧
      (bareLines (template panel (nameRecipe "'__ETD_DEVICE_NAME__'") .builtin {}))[5]? =
        some "  name: '__ETD_DEVICE_NAME__'".toList ∧
      (bareLines document)[5]? = some ("  name: ".toList ++ "'\"hall\"'".toList) ∧
      Yaml.Value.ofText? "'\"hall\"'".toList = some (.string "\"hall\"") := by
  intro document
  have hread : Yaml.Value.ofText? "'\"hall\"'".toList = some (.string "\"hall\"") :=
    Yaml.ofText?_of_scalar (by decide) (by decide +kernel :
      Yaml.tokens? "'\"hall\"'".toList = some [.scalar .singleQuoted "\"hall\"".toList])
  exact ⟨⟨by decide, isPlain_iff.2 (by decide), by decide⟩, by decide +kernel,
    by decide +kernel, hread⟩

end TouchPanel.Document
