import TouchPanel.Proofs.Access.Identity

/-!
# Accesses of the assembly

The assembly works on the sections of a text. They begin with their keys, merging keeps this, and
so nothing is accessed that a section does not have.
-/

namespace TouchPanel.Access

open Text Recipe Document

/-! ## User text -/

def putBefore? (before t : Text) : Option Text :=
  if before.isEmpty then some (removeMarker userPreMarker t)
  else (replaceMarker? userPreMarker before t).map (·.getD (before ++ '\n' :: '\n' :: t))

def putAfter? (after t : Text) : Option Text :=
  if after.isEmpty then some (removeMarker userPostMarker t)
  else (replaceMarker? userPostMarker after t).map
    (·.getD (trimEnd t ++ '\n' :: '\n' :: after ++ ['\n']))

def putMarker? (t : Text) (marker : String × String) : Option Text :=
  match nonBlank? (some marker.1) with
  | none => some t
  | some name =>
    (replaceMarker? (customMarker (trimmed name).toList) (trimEnd marker.2.toList) t).map (·.getD t)

/-- Puts the text of a project into a recipe. -/
def inject? (u : UserText) (t : Text) : Option Text := do
  let t ← putBefore? (trimEnd u.before.toList) t
  let t ← putAfter? (trimEnd u.after.toList) t
  u.markers.entries.foldlM putMarker? t

theorem putBefore?_eq (before t : Text) :
    putBefore? before t = some (UserText.putBefore before t) := by
  rw [putBefore?, UserText.putBefore, replaceMarker?_eq]
  split <;> rfl

theorem putAfter?_eq (after t : Text) : putAfter? after t = some (UserText.putAfter after t) := by
  rw [putAfter?, UserText.putAfter, replaceMarker?_eq]
  split <;> rfl

theorem putMarker?_eq (t : Text) (marker : String × String) :
    putMarker? t marker = some (UserText.putMarker t marker) := by
  rw [putMarker?, UserText.putMarker]
  cases nonBlank? (some marker.1) with
  | none => rfl
  | some name =>
    simp only [replaceMarker?_eq]
    rfl

theorem inject?_eq (u : UserText) (t : Text) : inject? u t = some (u.inject t) := by
  simp only [inject?, putBefore?_eq, putAfter?_eq, Option.bind_eq_bind, Option.bind_some]
  exact foldlM_eq putMarker?_eq _

/-! ## Insertion points -/

/-- A recipe with the pages and the sections of inbound data at their insertion points. -/
def fill? (recipe : Text) (f : Fragments) : Option Filled := do
  let lvgl ← writeMap? f.lvgl 0
  let withPages ← replaceMarker? pagesMarker lvgl recipe
  let (text, diagnostics) :=
    match withPages with
    | some text => (text, [])
    | none => (recipe, [Diagnostic.missingPagesMarker])
  let (existing, fresh) := f.sensors.partition fun s => hasSection text s.1.toList
  let bindings ←
    writeMap? (Mapping.ofList (fresh.map fun (name, entries) => (name, .list entries))) 0
  match ← replaceMarker? bindingsMarker bindings text with
  | some text => return ⟨text, existing, [], diagnostics⟩
  | none => return ⟨text, existing, fresh, diagnostics⟩

theorem fill?_eq (recipe : Text) (f : Fragments) : fill? recipe f = some (fill recipe f) := by
  simp only [fill?, fill, writeMap?_eq, replaceMarker?_eq, Option.bind_eq_bind, Option.bind_some]
  cases Recipe.replaceMarker? pagesMarker (f.lvgl.render 0) recipe with
  | some text | none =>
    dsimp only
    generalize Recipe.replaceMarker? bindingsMarker _ _ = filled
    cases filled <;> rfl

/-! ## Merging -/

/-- Adds entries to the first section with the given name. -/
def mergeSection? (sections : List Section) (name : String) (entries : List Node) :
    Option (List Section × List Diagnostic) :=
  match sections with
  | [] => some ([], [])
  | s :: r =>
    if s.key == some name.toList then do
      match ← append? s entries with
      | some s => return (s :: r, [])
      | none => return (s :: r, [.unmergeableSection name])
    else do
      let (r, found) ← mergeSection? r name entries
      return (s :: r, found)

def mergeSections? (sections : List Section) (added : List (String × List Node)) :
    Option (List Section × List Diagnostic) :=
  added.foldlM (fun (sections, found) (name, entries) => do
    let (sections, more) ← mergeSection? sections name entries
    return (sections, found ++ more)) (sections, [])

variable {sections : List Section}

theorem mergeSection?_eq (h : ∀ s ∈ sections, Opens s) (name : String) (entries : List Node) :
    mergeSection? sections name entries = some (mergeSection sections name entries) ∧
      ∀ s ∈ (mergeSection sections name entries).1, Opens s := by
  induction sections with
  | nil => exact ⟨rfl, by simp [mergeSection]⟩
  | cons s r ih =>
    obtain ⟨hs, hr⟩ := List.forall_mem_cons.1 h
    obtain ⟨hmerge, hopens⟩ := ih hr
    rw [mergeSection?, mergeSection]
    split
    · rw [append?_eq hs]
      cases happend : s.append? entries with
      | none => exact ⟨rfl, h⟩
      | some s' => exact ⟨rfl, List.forall_mem_cons.2 ⟨hs.append? happend, hr⟩⟩
    · rw [hmerge]
      exact ⟨rfl, List.forall_mem_cons.2 ⟨hs, hopens⟩⟩

theorem mergeSections?_eq (h : ∀ s ∈ sections, Opens s) (added : List (String × List Node)) :
    mergeSections? sections added = some (mergeSections sections added) ∧
      ∀ s ∈ (mergeSections sections added).1, Opens s := by
  unfold mergeSections? mergeSections
  generalize ([] : List Diagnostic) = found
  induction added generalizing sections found with
  | nil => exact ⟨rfl, h⟩
  | cons e added ih =>
    obtain ⟨name, entries⟩ := e
    obtain ⟨hmerge, hopens⟩ := mergeSection?_eq h name entries
    rw [List.foldlM_cons, List.foldl_cons]
    simp only [hmerge, Option.bind_eq_bind, Option.bind_some, Option.pure_def]
    exact ih hopens _

/-! ## Sections -/

/-- The first section with the given name, and the other sections. -/
def takeSection? (name : String) (sections : List Section) :
    Option (Option Section × List Section) :=
  removeFirst? (·.key == some name.toList) sections

theorem takeSection?_eq (name : String) (sections : List Section) :
    takeSection? name sections = some (takeSection name sections) :=
  removeFirst?_eq _ sections

def preamble? (s : Section) : Option Text := do
  let t ← text? s
  let isIndicator (line : Text) : Bool := trim line == "---".toList || trim line == "...".toList
  return joinLines ((lines t).filter (!isIndicator ·))

theorem preamble?_eq (s : Section) : preamble? s = some (preamble s) := by
  rw [preamble?, text?_eq]
  rfl

def sectionText? (s : String × List Node) : Option Text := do
  let entries ← writeList? s.2 2
  return s.1.toList ++ ':' :: '\n' :: trimEnd entries

theorem sectionText?_eq (s : String × List Node) : sectionText? s = some (sectionText s) := by
  rw [sectionText?, writeList?_eq]
  rfl

/-- A section of the network, or its default. -/
def network? (options : Options) (s : Option Section) (default : Text) : Option (List Text) :=
  match s with
  | some s => (text? s).map fun t => [t]
  | none => some (if options.defaultNetwork then [default] else [])

theorem network?_eq (options : Options) (s : Option Section) (default : Text) :
    network? options s default = some (match s with
      | some s => [s.text]
      | none => if options.defaultNetwork then [default] else []) := by
  cases s with
  | none => rfl
  | some s =>
    rw [network?, text?_eq]
    rfl

/-- The sections of a document in their order. -/
def sectionTexts? (d : Device) (options : Options) (recipe : Text) (sections : List Section)
    (added : List (String × List Node)) : Option (List Text) := do
  let (esphome, sections) ← takeSection? "esphome" sections
  let (api, sections) ← takeSection? "api" sections
  let (wifi, sections) ← takeSection? "wifi" sections
  let (ota, sections) ← takeSection? "ota" sections
  let preambles ← (sections.filter (·.key.isNone)).mapM preamble?
  let esphome ← esphomeSection? d.nodeName.toList recipe esphome
  let api ← apiSection? (d.key?.map String.toList) api
  let wifi ← network? options wifi defaultWifi
  let ota ← network? options ota defaultOta
  let others ← (sections.filter (·.key.isSome)).mapM text?
  let added ← added.mapM sectionText?
  return (if options.headerComment then [header d] else []) ++ preambles ++ [esphome, api] ++
    wifi ++ ota ++ others ++ added

theorem sectionTexts?_eq (h : ∀ s ∈ sections, Opens s) (d : Device) (options : Options)
    (recipe : Text) (added : List (String × List Node)) :
    sectionTexts? d options recipe sections added =
      some (sectionTexts d options recipe sections added) := by
  have hesphome : ∀ s ∈ (takeSection "esphome" sections).1, Opens s := fun s hs =>
    h s (List.mem_of_find?_eq_some hs)
  have hapi : ∀ s ∈ (takeSection "api" (takeSection "esphome" sections).2).1,
      Opens s ∧ s.key = some "api".toList := fun s hs =>
    ⟨h s (List.mem_of_mem_eraseP (List.mem_of_find?_eq_some hs)),
      by simpa using List.find?_some hs⟩
  simp only [sectionTexts?, takeSection?_eq, esphomeSection?_eq _ _ hesphome,
    apiSection?_eq _ hapi, network?_eq, mapM_eq fun s _ => preamble?_eq s,
    mapM_eq fun s _ => text?_eq s, mapM_eq fun s _ => sectionText?_eq s, Option.bind_eq_bind,
    Option.bind_some]
  rfl

/-! ## Assembly -/

def assemble? (d : Device) (recipe : Text) (f : Fragments) (options : Options) :
    Option (Text × List Diagnostic) := do
  let recipe ← inject? d.project.userText (normalize recipe)
  let filled ← fill? recipe f
  let (sections, found) ← mergeSections? (Section.split filled.text) filled.existing
  let isDeclared (s : String × List Node) : Bool := sections.any (·.key == some s.1.toList)
  let (declared, added) := f.trailing.partition isDeclared
  let (sections, more) ← mergeSections? sections declared
  let texts ← sectionTexts? d options filled.text sections (filled.left ++ added)
  return (joinSections d texts, filled.diagnostics ++ found ++ more)

theorem assemble?_eq (d : Device) (recipe : Text) (f : Fragments) (options : Options) :
    assemble? d recipe f options = some (assemble d recipe f options) := by
  have hsplit : ∀ s ∈ Section.split (fill (d.project.userText.inject (normalize recipe)) f).text,
      Opens s := fun s hs => opens_of_mem_split hs
  obtain ⟨hmerge, hopens⟩ := mergeSections?_eq hsplit
    (fill (d.project.userText.inject (normalize recipe)) f).existing
  have hmore := mergeSections?_eq hopens
  have htexts := fun added => sectionTexts?_eq (hmore added).2 d options
  simp only [assemble?, inject?_eq, fill?_eq, hmerge, (hmore _).1, htexts, Option.bind_eq_bind,
    Option.bind_some]
  rfl

end TouchPanel.Access
