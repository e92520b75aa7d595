import TouchPanel.Text.Blank

/-!
# Searching in a text

Occurrences of a word are found from left to right and do not overlap: `cut`
splits a text at them, and counting and replacing are read off the pieces.
-/

namespace TouchPanel.Text

/-- What follows `word` in a text that begins with it. -/
def after? : Text → Text → Option Text
  | [], t => some t
  | _ :: _, [] => none
  | c :: word, d :: t => if c = d then after? word t else none

def startsWith (word t : Text) : Bool := (after? word t).isSome

def endsWith (word t : Text) : Bool := startsWith word.reverse t.reverse

/-- Whether `word` stands somewhere in the text. -/
def occurs (word : Text) : Text → Bool
  | [] => word.isEmpty
  | c :: r => startsWith word (c :: r) || occurs word r

/-- Puts `c` in front of the first text of a list. -/
def consHead (c : Char) : List Text → List Text
  | [] => [[c]]
  | p :: ps => (c :: p) :: ps

/-- `cutFrom word k t` skips the `k` characters that remain of an occurrence and
splits the rest of `t` at the occurrences of `word`. -/
def cutFrom (word : Text) : Nat → Text → List Text
  | _, [] => [[]]
  | k + 1, _ :: r => cutFrom word k r
  | 0, c :: r =>
    if startsWith word (c :: r) then [] :: cutFrom word (word.length - 1) r
    else consHead c (cutFrom word 0 r)

/-- The pieces between the occurrences of a non-empty `word`. -/
def cut (word t : Text) : List Text := cutFrom word 0 t

def count (word t : Text) : Nat := (cut word t).length - 1

def replace (word fill t : Text) : Text := fill.intercalate (cut word t)

/-- The texts between the characters that satisfy `separator`. -/
def fields (separator : Char → Bool) : Text → List Text
  | [] => [[]]
  | c :: r =>
    if separator c then [] :: fields separator r else consHead c (fields separator r)

/-- The longest runs of characters that do not satisfy `separator`. -/
def words (separator : Char → Bool) (t : Text) : List Text :=
  (fields separator t).filter (!·.isEmpty)

/-- The text up to the first `c`, and what follows it. -/
def splitAt? (c : Char) (t : Text) : Option (Text × Text) :=
  match t.dropWhile (· != c) with
  | [] => none
  | _ :: rest => some (t.takeWhile (· != c), rest)

/-- The text up to the last `c`, and what follows it. -/
def splitAtLast? (c : Char) (t : Text) : Option (Text × Text) :=
  (splitAt? c t.reverse).map fun (rest, front) => (front.reverse, rest.reverse)

theorem after?_eq_some_iff {word t rest : Text} :
    after? word t = some rest ↔ t = word ++ rest := by
  induction word generalizing t with
  | nil => simp [after?, @eq_comm _ t]
  | cons c word ih =>
    cases t with
    | nil => simp [after?]
    | cons d t =>
      by_cases h : c = d
      · simp [after?, h, ih]
      · simp [after?, h, Ne.symm h]

theorem startsWith_iff {word t : Text} :
    startsWith word t = true ↔ ∃ rest, t = word ++ rest := by
  simp [startsWith, Option.isSome_iff_exists, after?_eq_some_iff]

theorem occurs_iff {word t : Text} :
    occurs word t = true ↔ ∃ front rest, t = front ++ word ++ rest := by
  induction t with
  | nil => simp [occurs, List.isEmpty_iff]
  | cons c r ih =>
    rw [occurs, Bool.or_eq_true, startsWith_iff, ih]
    constructor
    · rintro (⟨rest, h⟩ | ⟨front, rest, h⟩)
      · exact ⟨[], rest, by simpa using h⟩
      · exact ⟨c :: front, rest, by simp [h]⟩
    · rintro ⟨front, rest, h⟩
      cases front with
      | nil => exact Or.inl ⟨rest, by simpa using h⟩
      | cons d front =>
        simp only [List.cons_append, List.cons.injEq] at h
        exact Or.inr ⟨front, rest, h.2⟩

end TouchPanel.Text
