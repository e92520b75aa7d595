import TouchPanel.Document.Assembly
import TouchPanel.Proofs.Access.Output
import TouchPanel.Proofs.Recipe.Append
import TouchPanel.Proofs.Recipe.Commute

/-!
# Accesses to a recipe

The padding of a marker is cut off its line, and a section is cut and extended behind its last line
of content. Each section of a text has a line, and the first one begins with its key.
-/

namespace TouchPanel.Access

open Text Recipe

/-! ## Markers -/

/-- Puts the lines of a payload in place of the first line with a marker. -/
def replaceMarked? (marker : Text) (payload : List Text) :
    (done : Bool) → List Text → Option (List Text)
  | _, [] => some []
  | done, line :: r =>
    if !isMarkerLine marker line then (replaceMarked? marker payload done r).map (line :: ·)
    else if done then replaceMarked? marker payload true r
    else do
      let width ← sub? (byteSize line) (byteSize (trimStart line))
      let padding ← takeBytes? width line
      let rest ← replaceMarked? marker payload true r
      return payload.map (fun l => if l.isEmpty then [] else padding ++ l) ++ rest

/-- The text with a payload at a marker, if it has the marker. -/
def replaceMarker? (marker payload t : Text) : Option (Option Text) :=
  match findMarker? marker t with
  | none => some none
  | some _ =>
    (replaceMarked? marker (lines (dropEndWhile (· == '\n') payload)) false (lines t)).map
      fun ls => some (unlines ls)

variable {marker : Text} {payload ls : List Text}

theorem replaceMarked?_done (marker : Text) (payload ls : List Text) :
    replaceMarked? marker payload true ls = some (ls.filter (!isMarkerLine marker ·)) := by
  induction ls with
  | nil => rfl
  | cons line r ih =>
    rw [replaceMarked?, ih, List.filter_cons]
    cases isMarkerLine marker line <;> rfl

/-- The blanks in front of a line are cut off. -/
theorem takeBytes?_padding (line : Text) :
    (sub? (byteSize line) (byteSize (trimStart line))).bind (takeBytes? · line) =
      some (leadingBlanks line) := by
  have hwidth := sub?_byteSize_append (leadingBlanks line) (trimStart line)
  have hpadding := takeBytes?_byteSize_append (leadingBlanks line) (trimStart line)
  rw [leadingBlanks_append_trimStart] at hwidth hpadding
  rw [hwidth, Option.bind_some, hpadding]

theorem replaceMarked?_eq (marker : Text) (payload ls : List Text) :
    replaceMarked? marker payload false ls =
      some ((substituteLines? marker payload ls).getD ls) := by
  induction ls with
  | nil => rfl
  | cons line r ih =>
    rw [replaceMarked?, substituteLines?]
    cases hline : isMarkerLine marker line with
    | false =>
      rw [ih]
      cases substituteLines? marker payload r <;> rfl
    | true =>
      obtain ⟨width, hwidth, hpadding⟩ := Option.bind_eq_some_iff.1 (takeBytes?_padding line)
      have hlike : (fun l => if l.isEmpty then [] else leadingBlanks line ++ l) = indentLike line :=
        rfl
      simp only [hwidth, hpadding, replaceMarked?_done, hlike, Option.bind_eq_bind,
        Option.bind_some, Bool.not_true, Bool.false_eq_true, if_false, if_true, Option.getD_some]
      rfl

theorem isSome_substituteLines? (marker : Text) (payload ls : List Text) :
    (substituteLines? marker payload ls).isSome = (ls.find? (isMarkerLine marker)).isSome := by
  rw [substituteLines?_eq_replaceLines?, isSome_replaceLines?, Bool.eq_iff_iff, List.any_eq_true,
    List.find?_isSome]

theorem replaceMarker?_eq (marker payload t : Text) :
    replaceMarker? marker payload t = some (Recipe.replaceMarker? marker payload t) := by
  have hsome := isSome_substituteLines? marker (lines (dropEndWhile (· == '\n') payload)) (lines t)
  rw [replaceMarker?, findMarker?, Recipe.replaceMarker?, replaceMarked?_eq]
  cases hline : (lines t).find? (isMarkerLine marker) with
  | none =>
    rw [hline] at hsome
    rw [Option.isNone_iff_eq_none.1 (Option.isSome_eq_false_iff.1 hsome)]
    rfl
  | some line =>
    rw [hline] at hsome
    obtain ⟨ls, hls⟩ := Option.isSome_iff_exists.1 hsome
    rw [hls]
    rfl

/-! ## Sections -/

/-- A section has a line, and the first one begins with its key. -/
def Opens (s : Section) : Prop :=
  ∃ first rest, s.lines = first :: rest ∧ ∀ key ∈ s.key, key <+: first

/-- A section without the blank lines at its end. -/
def text? (s : Section) : Option Text :=
  (upTo? ((lastIdx? (!allBlank ·) s.lines).elim 0 (· + 1)) s.lines).map joinLines

/-- Where the content of a section ends. -/
def contentEnd (ls : List Text) : Nat :=
  (lastIdx? (fun l => !allBlank l && l.head? != some '#') ls).elim 1 (· + 1)

/-- Adds entries behind the content of a section, if it can take them. -/
def append? (s : Section) (entries : List Node) : Option (Option Section) :=
  if !s.inlineValue.isEmpty && s.inlineValue != ['[', ']'] then some none
  else
    match s.entryIndent? with
    | none => some none
    | some indent => do
      let rendered ← writeList? entries indent
      let ls ← spliceAt? (contentEnd s.openedLines) (lines rendered) s.openedLines
      return some { s with lines := ls }

theorem text?_eq (s : Section) : text? s = some s.text := by
  rw [text?, Section.text]
  rcases lastIdx?_cases (!allBlank ·) s.lines with ⟨hnone, hall⟩ | ⟨a, x, b, hlines, hb, hx, hat⟩
  · have hblank : s.lines.reverse.dropWhile allBlank = [] :=
      List.dropWhile_eq_nil_iff.2 fun l hl => by simpa using hall l (List.mem_reverse.1 hl)
    rw [hnone, hblank]
    rfl
  · have hend := upTo?_append (a ++ [x]) b
    have hrest : (a ++ x :: b).reverse.dropWhile allBlank = x :: a.reverse :=
      dropWhile_reverse_append_cons (fun l hl => by simpa using hb l hl) (by simpa using hx)
    rw [List.append_assoc, List.singleton_append, List.length_append, List.length_singleton] at hend
    rw [hat, hlines, hrest, Option.elim_some, hend]
    simp

/-- What stands behind the content of a section is its tail. -/
theorem splitTail_eq {ls : List Text} (h : ls ≠ []) :
    ∃ a b, ls = a ++ b ∧ contentEnd ls = a.length ∧ Section.splitTail ls = (a, b) := by
  have htail : ∀ l : Text, (allBlank l || l.head? == some '#') =
      !(!allBlank l && l.head? != some '#') := by
    intro l
    rw [Bool.not_and, Bool.not_not, bne, Bool.not_not]
  rcases lastIdx?_cases (fun l : Text => !allBlank l && l.head? != some '#') ls with
    ⟨hnone, hall⟩ | ⟨a, x, b, rfl, hb, hx, hat⟩
  · obtain ⟨first, rest, rfl⟩ := List.exists_cons_of_ne_nil h
    have hnil : (first :: rest).reverse.dropWhile
        (fun l => allBlank l || l.head? == some '#') = [] := by
      refine List.dropWhile_eq_nil_iff.2 fun l hl => ?_
      rw [htail, hall l (List.mem_reverse.1 hl)]
      rfl
    refine ⟨[first], rest, rfl, by rw [contentEnd, hnone]; rfl, ?_⟩
    simp only [Section.splitTail, hnil, List.splitAt_eq]
    rfl
  · have hrest : (a ++ x :: b).reverse.dropWhile (fun l => allBlank l || l.head? == some '#') =
        x :: a.reverse :=
      dropWhile_reverse_append_cons (fun l hl => by rw [htail, hb l hl]; rfl)
        (by rw [htail, hx]; rfl)
    have hsplit : List.splitAt (a ++ [x]).length (a ++ [x] ++ b) = (a ++ [x], b) := by
      rw [List.splitAt_eq, List.take_left, List.drop_left]
    refine ⟨a ++ [x], b, by simp, by rw [contentEnd, hat]; simp, ?_⟩
    simp only [Section.splitTail, hrest]
    simpa using hsplit

/-- The lines of a section that takes entries begin with its key as well. -/
theorem Opens.openedLines {s : Section} (h : Opens s) :
    ∃ first rest, s.openedLines = first :: rest ∧ ∀ key ∈ s.key, key <+: first := by
  obtain ⟨first, rest, hlines, hkey⟩ := h
  unfold Section.openedLines
  rw [hlines]
  cases hs : s.key with
  | none => exact ⟨first, rest, rfl, by simp⟩
  | some key =>
    refine ⟨_, rest, rfl, ?_⟩
    rintro _ ⟨⟩
    split
    · exact hkey key hs
    · exact List.prefix_append key [':']

theorem append?_eq {s : Section} (h : Opens s) (entries : List Node) :
    append? s entries = some (s.append? entries) := by
  obtain ⟨first, rest, hopened, -⟩ := h.openedLines
  obtain ⟨a, b, hsplit, hend, htail⟩ := splitTail_eq (hopened ▸ List.cons_ne_nil first rest)
  have hsplice : ∀ more, spliceAt? (contentEnd s.openedLines) more s.openedLines =
      some (a ++ more ++ b) := by
    intro more
    rw [hend, hsplit, spliceAt?_append]
  rw [append?, Section.append?_eq, htail]
  split
  · rfl
  · cases s.entryIndent? with
    | none => rfl
    | some indent => simp [writeList?_eq, hsplice]

theorem Opens.append? {s s' : Section} {entries : List Node} (h : Opens s)
    (happend : s.append? entries = some s') : Opens s' := by
  obtain ⟨-, n, -, rfl⟩ := Section.append?_eq_some happend
  obtain ⟨first, rest, hopened, hkey⟩ := h.openedLines
  obtain ⟨body, tail, -, hsplit⟩ := Section.splitTail_cons first rest
  refine ⟨first, body ++ lines (Node.renderList entries n) ++ tail, ?_, hkey⟩
  rw [hopened, hsplit]
  simp

/-- Each section of a text begins with its key. -/
theorem opens_of_mem_split {t : Text} {s : Section} (h : s ∈ Section.split t) : Opens s := by
  rw [Section.split, ofLines_eq] at h
  rcases List.mem_append.1 h with h | h
  · split at h
    · cases h
    · next hlead =>
      obtain rfl := List.mem_singleton.1 h
      obtain ⟨first, rest, hcons⟩ := List.exists_cons_of_ne_nil hlead
      exact ⟨first, rest, hcons, by simp⟩
  · obtain ⟨key, l, r, hs⟩ := isKeyed_of_mem_keyedOf h
    refine ⟨l, r, hs.lines_eq, fun key' hkey => ?_⟩
    obtain rfl := Option.some.inj (hs.key_eq.symm.trans hkey)
    exact prefix_of_topLevelKey? hs.head

end TouchPanel.Access
