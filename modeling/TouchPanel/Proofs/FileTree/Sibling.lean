import TouchPanel.Proofs.FileTree.Frame

/-!
# Where a sibling leads

The parts of a path are what stands between its slashes. A sibling of a path has the
parts up to the last name of the path, without the parts that add nothing, and its own
name. So it leads to this name in the directory in which the path ends.
-/

namespace TouchPanel

namespace Text

variable {separator : Char → Bool}

theorem fields_ne_nil (separator : Char → Bool) (t : Text) : fields separator t ≠ [] := by
  cases t with
  | nil => simp [fields]
  | cons c r =>
    rw [fields]
    split
    · simp
    · cases fields separator r <;> simp [consHead]

theorem fields_append_cons {c : Char} (hc : separator c = true) (a b : Text) :
    fields separator (a ++ c :: b) = fields separator a ++ fields separator b := by
  induction a with
  | nil => simp [fields, hc]
  | cons d a ih =>
    rw [List.cons_append, fields, fields, ih]
    split
    · rfl
    · obtain ⟨p, ps, hps⟩ := List.exists_cons_of_ne_nil (fields_ne_nil separator a)
      rw [hps]
      rfl

theorem fields_of_forall {t : Text} (h : ∀ c ∈ t, separator c = false) :
    fields separator t = [t] := by
  induction t with
  | nil => rfl
  | cons c t ih =>
    obtain ⟨hc, ht⟩ := List.forall_mem_cons.1 h
    rw [fields, hc, ih ht]
    rfl

theorem forall_of_mem_fields {t s : Text} (h : s ∈ fields separator t) :
    ∀ c ∈ s, separator c = false := by
  induction t generalizing s with
  | nil => simp_all [fields]
  | cons d t ih =>
    rw [fields] at h
    split at h
    · rcases List.mem_cons.1 h with rfl | h
      · simp
      · exact ih h
    · next hd =>
      obtain ⟨p, ps, hps⟩ := List.exists_cons_of_ne_nil (fields_ne_nil separator t)
      rw [hps, consHead, List.mem_cons] at h
      rcases h with rfl | h
      · exact List.forall_mem_cons.2 ⟨by simpa using hd, ih (by simp [hps])⟩
      · exact ih (by simp [hps, h])

end Text

namespace Path

/-! ## Parts -/

theorem parts_append_slash (a b : String) :
    parts ⟨a ++ "/" ++ b⟩ = parts ⟨a⟩ ++ parts ⟨b⟩ := by
  have htext : (a ++ "/" ++ b).toList = a.toList ++ '/' :: b.toList := by simp
  rw [parts, htext, Text.fields_append_cons (by decide), List.map_append]
  rfl

theorem parts_of_not_mem {a : String} (h : '/' ∉ a.toList) : parts ⟨a⟩ = [a] := by
  have hall : ∀ c ∈ a.toList, (c == '/') = false := by
    intro c hc
    rw [beq_eq_false_iff_ne]
    rintro rfl
    exact h hc
  rw [parts, Text.fields_of_forall hall]
  simp

theorem slash_not_mem_parts {p : Path} {s : String} (h : s ∈ p.parts) : '/' ∉ s.toList := by
  obtain ⟨l, hl, rfl⟩ := List.mem_map.1 h
  intro hmem
  simpa using Text.forall_of_mem_fields hl '/' (by simpa using hmem)

theorem parts_intercalate {ls : List String} (hls : ls ≠ []) (h : ∀ s ∈ ls, '/' ∉ s.toList) :
    parts ⟨"/".intercalate ls⟩ = ls := by
  induction ls with
  | nil => exact absurd rfl hls
  | cons s ls ih =>
    obtain ⟨hs, hrest⟩ := List.forall_mem_cons.1 h
    cases ls with
    | nil => rw [String.intercalate_singleton, parts_of_not_mem hs]
    | cons s' ls =>
      rw [String.intercalate_cons_cons, parts_append_slash, parts_of_not_mem hs,
        ih (by simp) hrest]
      rfl

theorem isAbsolute_iff {p : Path} : p.isAbsolute = true ↔ ∃ r, r ≠ [] ∧ p.parts = "" :: r := by
  rw [isAbsolute, beq_iff_eq]
  cases htext : p.text.toList with
  | nil => simp [parts, htext, Text.fields]
  | cons c r =>
    by_cases hc : c = '/'
    · simp [parts, htext, Text.fields, hc, Text.fields_ne_nil]
    · obtain ⟨s, ss, hs⟩ :=
        List.exists_cons_of_ne_nil (Text.fields_ne_nil (· == '/') r)
      simp [parts, htext, Text.fields, hc, hs, Text.consHead]

/-! ## The last name -/

/-- The parts of a path are `above`, its last name, and nothing but empty parts. -/
def EndsWith (p : Path) (above : List String) (name : String) : Prop :=
  ∃ rest, p.parts = above ++ name :: rest ∧ (∀ s ∈ rest, s = "") ∧ isIdle name = false ∧
    name ≠ ".."

theorem exists_endsWith {p : Path} {name : String} (h : p.steps.getLast? = some name)
    (hdot : name ≠ ".") (hdots : name ≠ "..") : ∃ above, p.EndsWith above name := by
  obtain ⟨front, hfront⟩ := List.getLast?_eq_some_iff.1 h
  obtain ⟨xs, ys, hparts, -, hys⟩ := List.filter_eq_append_iff.1 hfront
  obtain ⟨gap, rest, rfl, -, hname, hrest⟩ := List.filter_eq_cons_iff.1 hys
  refine ⟨xs ++ gap, rest, by simp [hparts], ?_, ?_, hdots⟩
  · intro s hs
    simpa using List.filter_eq_nil_iff.1 hrest s hs
  · have hne : name ≠ "" := by simpa using hname
    simp [isIdle, hne, hdot]

theorem EndsWith.steps {p : Path} {above : List String} {name : String}
    (h : p.EndsWith above name) : p.steps = above.filter (· ≠ "") ++ [name] := by
  obtain ⟨rest, hparts, hrest, hidle, -⟩ := h
  have hnil : rest.filter (· ≠ "") = [] := by
    rw [List.filter_eq_nil_iff]
    intro s hs
    simp [hrest s hs]
  have hne : name ≠ "" := by
    rintro rfl
    simp [isIdle] at hidle
  rw [Path.steps, hparts, List.filter_append, List.filter_cons_of_pos (by simpa using hne), hnil]

theorem EndsWith.name?_eq {p : Path} {above : List String} {name : String}
    (h : p.EndsWith above name) : p.name? = some name := by
  obtain ⟨rest, hparts, hrest, hidle, hdots⟩ := h
  have hrev : p.parts.reverse = rest.reverse ++ name :: above.reverse := by simp [hparts]
  have hskip : rest.reverse.find? (!isIdle ·) = none := by
    rw [List.find?_eq_none]
    intro s hs
    rw [hrest s (List.mem_reverse.1 hs)]
    decide
  rw [name?, hrev, List.find?_append, hskip, List.find?_cons_of_pos (by simp [hidle])]
  simp [hdots]

/-! ## The directory above -/

theorem enclosing_append {idle : List String} (hidle : ∀ s ∈ idle, isIdle s = true)
    {l : List String} (hl : l ≠ []) : enclosing (idle ++ l) = enclosing l := by
  induction idle with
  | nil => rfl
  | cons s idle ih =>
    obtain ⟨hs, hrest⟩ := List.forall_mem_cons.1 hidle
    obtain ⟨x, r, hx⟩ := List.exists_cons_of_ne_nil (l := idle ++ l) (by simp [hl])
    rw [List.cons_append, hx, enclosing, if_pos hs, ← hx, ih hrest]
    simp

theorem EndsWith.parents {p : Path} {above : List String} {name : String}
    (h : p.EndsWith above name) : p.parents = enclosing above.reverse := by
  obtain ⟨rest, hparts, hrest, hidle, -⟩ := h
  have hrev : p.parts.reverse = rest.reverse ++ name :: above.reverse := by simp [hparts]
  have hskip : ∀ s ∈ rest.reverse, isIdle s = true := by
    intro s hs
    rw [hrest s (List.mem_reverse.1 hs)]
    decide
  rw [Path.parents, hrev, enclosing_append hskip (by simp)]
  cases habove : above.reverse with
  | nil => rfl
  | cons r rs => rw [enclosing, if_neg (by simp [hidle])]; rfl; simp

/-- The nearest directory that is named has the parts up to the last that is not idle. -/
theorem head_enclosing {l : List String} (hl : l ≠ []) :
    ∃ idle kept q, l = idle ++ kept ∧ (∀ s ∈ idle, isIdle s = true) ∧
      (enclosing l).head? = some q ∧
      (kept = [""] ∧ q = ⟨"/"⟩ ∨
        ∃ last more, kept = last :: more ∧ last ≠ "" ∧ q = ⟨"/".intercalate kept.reverse⟩) := by
  induction l with
  | nil => exact absurd rfl hl
  | cons part front ih =>
    cases front with
    | nil =>
      by_cases hpart : part = ""
      · exact ⟨[], [part], _, rfl, by simp, rfl, Or.inl (by simp [hpart])⟩
      · exact ⟨[], [part], _, rfl, by simp, rfl,
          Or.inr ⟨part, [], rfl, hpart, by simp [hpart]⟩⟩
    | cons r rs =>
      by_cases hpart : isIdle part = true
      · obtain ⟨idle, kept, q, hsplit, hidle, hhead, hq⟩ := ih (by simp)
        refine ⟨part :: idle, kept, q, by rw [hsplit, List.cons_append],
          List.forall_mem_cons.2 ⟨hpart, hidle⟩, ?_, hq⟩
        rw [enclosing, if_pos hpart, hhead]
        simp
      · have hne : part ≠ "" := by
          rintro rfl
          exact hpart rfl
        refine ⟨[], part :: r :: rs, _, rfl, by simp, ?_, Or.inr ⟨part, r :: rs, rfl, hne, rfl⟩⟩
        rw [enclosing, if_neg hpart, List.head?_cons]
        simp

/-! ## The sibling -/

theorem getLast?_parts {p : Path} (h : p.text.toList.getLast? = some '/') :
    p.parts.getLast? = some "" := by
  obtain ⟨front, hfront⟩ := List.getLast?_eq_some_iff.1 h
  have htext : p = ⟨String.ofList front ++ "/" ++ ""⟩ := by
    rw [Path.mk.injEq, ← String.toList_inj, hfront]
    simp
  rw [htext, parts_append_slash]
  simp [parts, Text.fields]

/-- A joined path whose last part is not empty is not empty and has no slash at its end. -/
theorem intercalate_joins {ls : List String} (h : ∀ s ∈ ls, '/' ∉ s.toList) (hne : ls ≠ [])
    (hlast : ls.getLast? ≠ some "") :
    ¬ ("/".intercalate ls = "" || ("/".intercalate ls).toList.getLast? == some '/') = true := by
  have hparts := parts_intercalate hne h
  rw [Bool.or_eq_true, decide_eq_true_eq, beq_iff_eq]
  rintro (hempty | hslash)
  · rw [hempty] at hparts
    exact hlast (by simp [← hparts, parts, Text.fields])
  · exact hlast (hparts ▸ getLast?_parts hslash)

theorem EndsWith.parts_sibling {p : Path} {above : List String} {name other : String}
    (h : p.EndsWith above name) (hother : '/' ∉ other.toList) :
    ∃ kept idle, above = kept ++ idle ∧ (∀ s ∈ idle, isIdle s = true) ∧
      (kept = [] → above = []) ∧ (p.sibling other).parts = kept ++ [other] := by
  rw [sibling, h.name?_eq, h.parents]
  by_cases habove : above = []
  · refine ⟨[], [], habove, by simp, fun _ => habove, ?_⟩
    subst habove
    simpa [enclosing] using parts_of_not_mem hother
  · obtain ⟨idle, kept, q, hsplit, hidle, hhead, hq⟩ :=
      head_enclosing (l := above.reverse) (by simpa using habove)
    have happend : above = kept.reverse ++ idle.reverse := by
      rw [← List.reverse_append, ← hsplit, List.reverse_reverse]
    refine ⟨kept.reverse, idle.reverse, happend, ?_, ?_, ?_⟩
    · intro s hs
      exact hidle s (List.mem_reverse.1 hs)
    · rcases hq with ⟨rfl, -⟩ | ⟨last, more, rfl, -, -⟩ <;> simp
    · simp only [hhead, Option.isSome_some, if_true, Option.elim_some]
      rcases hq with ⟨rfl, rfl⟩ | ⟨last, more, hkept, hlast, rfl⟩
      · have hroot := parts_append_slash "" other
        rw [parts_of_not_mem hother] at hroot
        simpa [parts, Text.fields] using hroot
      · have hne : kept.reverse ≠ [] := by simp [hkept]
        have hfree : ∀ s ∈ kept.reverse, '/' ∉ s.toList := by
          intro s hs
          obtain ⟨rest, hp, -⟩ := h
          exact slash_not_mem_parts (p := p) (by simp [hp, happend, List.mem_reverse.1 hs])
        rw [if_neg (intercalate_joins hfree hne (by simpa [hkept] using hlast)),
          parts_append_slash, parts_intercalate hne hfree, parts_of_not_mem hother]

theorem EndsWith.isAbsolute_sibling {p : Path} {above : List String} {name other : String}
    (h : p.EndsWith above name) (hother : '/' ∉ other.toList) :
    (p.sibling other).isAbsolute = p.isAbsolute := by
  obtain ⟨kept, idle, happend, -, hkept, hsibling⟩ := h.parts_sibling hother
  obtain ⟨rest, hparts, -, hidle, -⟩ := h
  rw [Bool.eq_iff_iff, isAbsolute_iff, isAbsolute_iff, hsibling, hparts]
  cases kept with
  | nil =>
    rw [hkept rfl]
    have hne : name ≠ "" := by
      rintro rfl
      simp [isIdle] at hidle
    simp [hne]
  | cons first kept => simp [happend]

theorem EndsWith.steps_sibling {p : Path} {above : List String} {name other : String}
    (h : p.EndsWith above name) (hother : '/' ∉ other.toList) (hne : other ≠ "") :
    ∃ front dots, p.steps = front ++ dots ++ [name] ∧ (∀ s ∈ dots, s = ".") ∧
      (p.sibling other).steps = front ++ [other] := by
  obtain ⟨kept, idle, rfl, hidle, -, hsibling⟩ := h.parts_sibling hother
  refine ⟨kept.filter (· ≠ ""), idle.filter (· ≠ ""), ?_, ?_, ?_⟩
  · rw [h.steps, List.filter_append]
  · intro s hs
    obtain ⟨hmem, hfull⟩ := List.mem_filter.1 hs
    have hs := hidle s hmem
    rw [isIdle, Bool.or_eq_true, beq_iff_eq, beq_iff_eq] at hs
    exact hs.resolve_left (by simpa using hfull)
  · rw [Path.steps, hsibling, List.filter_append, List.filter_cons_of_pos (by simpa using hne)]
    rfl

end Path

namespace FileTree

variable {t : FileTree} {p : Path} {front names : List String} {name other : String}

theorem walk_dots {steps : List String} (h : ∀ s ∈ steps, s = ".") (front : List String) :
    steps.foldlM t.enter front = .ok front := by
  induction steps with
  | nil => rfl
  | cons s steps ih =>
    obtain ⟨rfl, hrest⟩ := List.forall_mem_cons.1 h
    rw [List.foldlM_cons, bind_eq_ok]
    exact ⟨front, enter_ok_iff.2 (Or.inl ⟨rfl, rfl⟩), ih hrest⟩

/-- Where a path with a name leads, its sibling leads to the other name beside it. -/
theorem LeadsTo.sibling (hp : t.locate p = .ok (some (front, name)))
    (hother : '/' ∉ other.toList) (hne : other ≠ "") (h : t.LeadsTo (p.sibling other) names) :
    names = front ++ [other] := by
  obtain ⟨-, -, hlast, hdot, hdots, hwalk⟩ := locate_ok_iff.1 hp
  obtain ⟨above, hends⟩ := Path.exists_endsWith hlast hdot hdots
  obtain ⟨before, idle, hsteps, hidle, hsibling⟩ := hends.steps_sibling hother hne
  obtain ⟨front', name', hloc, -, rfl⟩ := h
  obtain ⟨-, -, hlast', -, -, hwalk'⟩ := locate_ok_iff.1 hloc
  have hstart : t.start (p.sibling other) = t.start p := by
    rw [start, start, hends.isAbsolute_sibling hother]
  rw [hsibling, List.getLast?_concat, Option.some.injEq] at hlast'
  rw [hsibling, List.dropLast_concat, hstart] at hwalk'
  rw [hsteps, List.dropLast_concat, List.foldlM_append, bind_eq_ok] at hwalk
  obtain ⟨front'', hbefore, hidles⟩ := hwalk
  rw [walk_dots hidle] at hidles
  rw [hwalk'] at hbefore
  rw [← hlast', Except.ok.inj hbefore, Except.ok.inj hidles]

theorem name_of_locate (hp : t.locate p = .ok (some (front, name))) :
    p.name = name ∧ name ∈ p.parts := by
  obtain ⟨-, -, hlast, hdot, hdots, -⟩ := locate_ok_iff.1 hp
  obtain ⟨above, hends⟩ := Path.exists_endsWith hlast hdot hdots
  refine ⟨by rw [Path.name, hends.name?_eq]; rfl, ?_⟩
  obtain ⟨rest, hparts, -⟩ := hends
  simp [hparts]

end FileTree

end TouchPanel
