import TouchPanel.Proofs.Access.Recipe

/-!
# Accesses to the sections of the device

The lines that hold the name and the key of the device are changed, put in and taken out by their
places. The sections have a line in front of each of these places, and the search for the key may
begin with it, for the line of a key is no line of another one.
-/

namespace TouchPanel.Access

open Text Recipe Document

/-! ## Lines that are looked for -/

section

variable {α : Type} {p : α → Bool}

/-- An element is found behind the first one if this is none. -/
theorem findIdx?_cons_cases {x : α} (hx : p x = false) (l : List α) :
    ((x :: l).findIdx? p = none ∧ ∀ y ∈ l, p y = false) ∨
      ∃ a y b, l = a ++ y :: b ∧ (∀ z ∈ a, p z = false) ∧ p y = true ∧
        (x :: l).findIdx? p = some (x :: a).length := by
  rcases findIdx?_cases p (x :: l) with ⟨hnone, hall⟩ | ⟨a, y, b, hsplit, ha, hy, hat⟩
  · exact Or.inl ⟨hnone, (List.forall_mem_cons.1 hall).2⟩
  · cases a with
    | nil =>
      cases hsplit
      rw [hx] at hy
      cases hy
    | cons z a =>
      obtain ⟨rfl, rfl⟩ := List.cons.inj hsplit
      exact Or.inr ⟨a, y, b, rfl, (List.forall_mem_cons.1 ha).2, hy, hat⟩

theorem dropWhile_not_eq_nil {l : List α} (h : ∀ x ∈ l, p x = false) :
    l.dropWhile (!p ·) = [] :=
  List.dropWhile_eq_nil_iff.2 fun x hx => by simp [h x hx]

/-- A list is divided in front of the first element that is looked for. -/
theorem divide_append_cons {a b : List α} {x : α} (ha : ∀ y ∈ a, p y = false) (hx : p x = true) :
    (a ++ x :: b).takeWhile (!p ·) = a ∧ (a ++ x :: b).dropWhile (!p ·) = x :: b := by
  have hbefore : ∀ y ∈ a, (!p y) = true := fun y hy => by simp [ha y hy]
  constructor
  · rw [List.takeWhile_append_of_pos hbefore, List.takeWhile_cons_of_neg (by simp [hx]),
      List.append_nil]
  · rw [List.dropWhile_append_of_pos hbefore, List.dropWhile_cons_of_neg (by simp [hx])]

end

variable {p : Text → Bool} {f : Text → Text} {a b ls : List Text} {x : Text}

theorem updateFirst?_eq_none (h : ∀ l ∈ ls, p l = false) : updateFirst? p f ls = none := by
  induction ls with
  | nil => rfl
  | cons l r ih =>
    obtain ⟨hl, hr⟩ := List.forall_mem_cons.1 h
    rw [updateFirst?, if_neg (by simp [hl]), ih hr]
    rfl

theorem updateFirst?_append_cons (ha : ∀ l ∈ a, p l = false) (hx : p x = true) :
    updateFirst? p f (a ++ x :: b) = some (a ++ f x :: b) := by
  induction a with
  | nil => exact if_pos hx
  | cons l a ih =>
    obtain ⟨hl, ha⟩ := List.forall_mem_cons.1 ha
    rw [List.cons_append, updateFirst?, if_neg (by simp [hl]), ih ha]
    rfl

/-! ## Name -/

/-- The section `esphome` for a device. -/
def esphomeSection? (name recipe : Text) (s : Option Section) : Option Text :=
  let key := "esphome:".toList
  match s with
  | none => some (joinLines [key, quotedLine 2 "name".toList name])
  | some s =>
    let s := { s with lines := s.lines.modifyHead fun _ => key }
    match s.lines.findIdx? (isNameLine s) with
    | some i => do
      let line ← s.lines[i]?
      let value := unquoted ((valueOf? "name".toList line).getD [])
      let ls ←
        if value == name || occurs deviceNamePlaceholder value then some s.lines
        else setAt? i (quotedLine (indentOf line) "name".toList name) s.lines
      text? { s with lines := ls }
    | none =>
      if occurs deviceNamePlaceholder recipe then text? s
      else do
        let ls ← insertAt? 1 (quotedLine s.childIndent "name".toList name) s.lines
        text? { s with lines := ls }

theorem esphomeSection?_eq (name recipe : Text) {s : Option Section} (h : ∀ s' ∈ s, Opens s') :
    esphomeSection? name recipe s = some (esphomeSection name recipe s) := by
  cases s with
  | none => rfl
  | some s =>
    obtain ⟨first, rest, hlines, -⟩ := h s rfl
    have hkey : isNameLine { s with lines := "esphome:".toList :: rest } "esphome:".toList =
        false := rfl
    have hname : isNameLine { s with lines := "esphome:".toList :: rest } = isNameLine s := by
      funext line
      rw [isNameLine, isNameLine, Section.childIndent, Section.childIndent, Section.firstChild?,
        Section.firstChild?, hlines]
      rfl
    have hindent : Section.childIndent { s with lines := "esphome:".toList :: rest } =
        s.childIndent := by
      rw [Section.childIndent, Section.childIndent, Section.firstChild?, Section.firstChild?,
        hlines]
      rfl
    simp only [esphomeSection?, esphomeSection, namedLines, hlines, List.modifyHead_cons,
      List.drop_succ_cons, List.drop_zero, hindent]
    rcases findIdx?_cons_cases hkey rest with ⟨hnone, hall⟩ | ⟨a, x, b, rfl, ha, hx, hat⟩
    · rw [hname] at hall
      rw [hnone, updateFirst?_eq_none hall]
      have hput := insertAt?_append ["esphome:".toList]
        (quotedLine s.childIndent "name".toList name) rest
      rw [List.length_singleton, List.singleton_append] at hput
      cases hrecipe : occurs deviceNamePlaceholder recipe with
      | true => exact text?_eq _
      | false => simp only [hput, Option.bind_eq_bind, Option.bind_some, text?_eq]; rfl
    · rw [hname] at ha hx
      rw [hat, updateFirst?_append_cons ha hx]
      have hget := getElem?_append ("esphome:".toList :: a) x b
      have hset := setAt?_append ("esphome:".toList :: a) x
        (quotedLine (indentOf x) "name".toList name) b
      rw [List.cons_append] at hget hset
      simp only [hget, hset, nameLine, Option.bind_eq_bind, Option.bind_some]
      split
      · simp only [text?_eq]
      · simp only [text?_eq]
        rfl

/-! ## API key -/

/-- The lines without the first placeholder of the key and without the line `encryption:` that has
nothing else below it. -/
def dropKeyPlaceholder? (ls : List Text) : Option (List Text) :=
  match ls.findIdx? (occurs apiKeyPlaceholder) with
  | none => some ls
  | some i => do
    let (_, ls) ← removeAt? i ls
    if i = 0 then return ls
    else
      let line ← ls[i - 1]?
      if trim line == "encryption:".toList then
        let after ← from? i ls
        if (after.find? (!allBlank ·)).any (indentOf line < indentOf ·) then return ls
        else
          let (_, ls) ← removeAt? (i - 1) ls
          return ls
      else return ls

/-- The lines with the key below the line `encryption:` at place `e`. -/
def putKey? (keyLine : Nat → Text) (e : Nat) (ls : List Text) : Option (List Text) := do
  let opening ← ls[e]?
  let after ← from? (e + 1) ls
  let isInner (line : Text) : Bool := allBlank line || indentOf opening < indentOf line
  let isKeyLine (line : Text) : Bool := (valueOf? "key".toList line).isSome
  match ((after.takeWhile isInner).findIdx? isKeyLine).map (· + (e + 1)) with
  | some k => do
    let line ← ls[k]?
    setAt? k (keyLine (indentOf line)) ls
  | none => insertAt? (e + 1) (keyLine (indentOf opening + 2)) ls

/-- The lines of the section `api` with the key of the device. -/
def encryptedLines? (key : Text) (s : Section) : Option (List Text) :=
  let keyLine (indent : Nat) := quotedLine indent "key".toList key
  match s.lines.findIdx? isEncryptionLine with
  | some e => putKey? keyLine e s.lines
  | none => do
    let ls ← insertAt? 1 (spaces s.childIndent ++ "encryption:".toList) s.lines
    insertAt? 2 (keyLine (s.childIndent + 2)) ls

/-- The section `api` for a device. -/
def apiSection? (key : Option Text) (s : Option Section) : Option Text :=
  let first := "api:".toList
  match key, s with
  | none, none => some first
  | none, some s => do
    let ls ← dropKeyPlaceholder? s.lines
    text? { s with lines := ls }
  | some key, none =>
    some (joinLines [first, "  encryption:".toList, quotedLine 4 "key".toList key])
  | some key, some s => do
    let t ← text? s
    if occurs key t || occurs apiKeyPlaceholder t then return t
    else
      let ls ← encryptedLines? key s
      text? { s with lines := ls.modifyHead fun _ => first }

theorem dropKeyPlaceholder?_eq (ls : List Text) :
    dropKeyPlaceholder? ls = some (dropKeyPlaceholder ls) := by
  unfold dropKeyPlaceholder? dropKeyPlaceholder
  rcases findIdx?_cases (occurs apiKeyPlaceholder) ls with
    ⟨hnone, hall⟩ | ⟨a, x, b, rfl, ha, hx, hat⟩
  · rw [hnone, dropWhile_not_eq_nil hall]
  · obtain ⟨htake, hdrop⟩ := divide_append_cons (b := b) ha hx
    rw [hat, htake, hdrop]
    rcases List.eq_nil_or_concat' a with rfl | ⟨init, line, rfl⟩
    · rfl
    · have hput := removeAt?_append (init ++ [line]) x b
      have hget := getElem?_append init line b
      have hafter := from?_append (init ++ [line]) b
      have hremove := removeAt?_append init line b
      simp only [List.length_append, List.length_singleton, List.append_assoc,
        List.singleton_append] at hput hafter
      have hlast : (init ++ [line]).getLast? = some line := by simp
      simp only [List.length_append, List.length_singleton, List.append_assoc,
        List.singleton_append, hput, Option.bind_eq_bind, Option.bind_some, hlast,
        Nat.add_one_ne_zero, if_false, Nat.add_sub_cancel, hget, hafter, hremove,
        List.dropLast_concat]
      cases trim line == "encryption:".toList with
      | false => rfl
      | true =>
        cases (b.find? (!allBlank ·)).any (indentOf line < indentOf ·) <;> rfl

theorem putKey?_append (keyLine : Nat → Text) (front : List Text) (opening : Text)
    (after : List Text) :
    let isInner (line : Text) : Bool := allBlank line || indentOf opening < indentOf line
    let isKeyLine (line : Text) : Bool := (valueOf? "key".toList line).isSome
    putKey? keyLine front.length (front ++ opening :: after) = some (front ++ opening ::
      match updateFirst? isKeyLine (fun line => keyLine (indentOf line))
        (after.takeWhile isInner) with
      | some inner => inner ++ after.dropWhile isInner
      | none => keyLine (indentOf opening + 2) :: after) := by
  intro isInner isKeyLine
  have hget := getElem?_append front opening after
  have hafter := from?_append (front ++ [opening]) after
  have hput := insertAt?_append (front ++ [opening]) (keyLine (indentOf opening + 2)) after
  rw [List.append_assoc, List.singleton_append, List.length_append, List.length_singleton]
    at hafter hput
  simp only [putKey?, hget, hafter, Option.bind_eq_bind, Option.bind_some]
  rcases findIdx?_cases isKeyLine (after.takeWhile isInner) with
    ⟨hnone, hall⟩ | ⟨u, line, v, hinside, hu, hline, hfound⟩
  · rw [hnone, updateFirst?_eq_none hall, Option.map_none]
    simpa using hput
  · -- The key stands behind the opening line and the lines `u` inside of the section.
    have hplace : u.length + (front.length + 1) = (front ++ opening :: u).length := by
      simp only [List.length_append, List.length_cons]
      omega
    have hlines : front ++ opening :: after =
        (front ++ opening :: u) ++ line :: (v ++ after.dropWhile isInner) := by
      conv_lhs => rw [← List.takeWhile_append_dropWhile (p := isInner) (l := after), hinside]
      simp
    have hget := getElem?_append (front ++ opening :: u) line (v ++ after.dropWhile isInner)
    have hset := setAt?_append (front ++ opening :: u) line (keyLine (indentOf line))
      (v ++ after.dropWhile isInner)
    rw [hfound, Option.map_some, hplace, hinside, updateFirst?_append_cons hu hline, hlines]
    simp only [hget, hset, Option.bind_some]
    simp

theorem encryptedLines?_eq {s : Section} {first : Text} {rest : List Text}
    (hlines : s.lines = first :: rest) (hfirst : isEncryptionLine first = false) (key : Text) :
    encryptedLines? key s = some (first :: encryptedLines key s) := by
  unfold encryptedLines? encryptedLines
  dsimp only
  rw [hlines, List.drop_succ_cons, List.drop_zero]
  rcases findIdx?_cons_cases hfirst rest with ⟨hnone, hall⟩ | ⟨a, opening, b, rfl, ha, hx, hat⟩
  · rw [hnone, dropWhile_not_eq_nil hall]
    rfl
  · obtain ⟨htake, hdrop⟩ := divide_append_cons (b := b) ha hx
    rw [hat, htake, hdrop]
    exact putKey?_append (fun indent => quotedLine indent "key".toList key) (first :: a) opening b

/-- The line of another key is not the line of the encryption. -/
theorem isEncryptionLine_eq_false {line : Text} (h : "api".toList <+: line) :
    isEncryptionLine line = false := by
  obtain ⟨r, rfl⟩ := h
  rfl

theorem apiSection?_eq (key : Option Text) {s : Option Section}
    (h : ∀ s' ∈ s, Opens s' ∧ s'.key = some "api".toList) :
    apiSection? key s = some (apiSection key s) := by
  cases key with
  | none =>
    cases s with
    | none => rfl
    | some s => simp only [apiSection?, apiSection, dropKeyPlaceholder?_eq, text?_eq]; rfl
  | some key =>
    cases s with
    | none => rfl
    | some s =>
      obtain ⟨⟨first, rest, hlines, hkey⟩, hapi⟩ := h s rfl
      have hencrypted :=
        encryptedLines?_eq hlines (isEncryptionLine_eq_false (hkey _ hapi)) key
      simp only [apiSection?, apiSection, text?_eq, hencrypted, Option.bind_eq_bind,
        Option.bind_some, List.modifyHead_cons]
      split <;> rfl

end TouchPanel.Access
