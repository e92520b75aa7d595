import TouchPanel.Text.Blank

/-!
# Lines of a text

A text is cut after each newline into segments; a line is a segment without its
line ending, which is a newline that may follow one carriage return.
-/

namespace TouchPanel.Text

/-- Cuts a text after each newline. Only the last segment may lack one. -/
def segments : Text → List Text
  | [] => []
  | c :: r =>
    if c = '\n' then ['\n'] :: segments r
    else match segments r with
      | [] => [[c]]
      | s :: ss => (c :: s) :: ss

/-- A segment without its line ending. A carriage return that no newline follows
belongs to the line. -/
def chomp (s : Text) : Text :=
  match s.reverse with
  | '\n' :: '\r' :: r => r.reverse
  | '\n' :: r => r.reverse
  | _ => s

def lines (t : Text) : List Text := (segments t).map chomp

/-- Every line followed by a newline. -/
def unlines (ls : List Text) : Text := ls.flatMap (· ++ ['\n'])

/-- The texts with `sep` between each two neighbours. -/
def joinWith (sep : Text) : List Text → Text
  | [] => []
  | [t] => t
  | t :: u :: r => t ++ sep ++ joinWith sep (u :: r)

/-- The lines with a newline between each two neighbours. -/
def joinLines (ls : List Text) : Text := joinWith ['\n'] ls

theorem flatten_segments (t : Text) : (segments t).flatten = t := by
  induction t with
  | nil => rfl
  | cons c r ih =>
    unfold segments
    split
    · next h => simp [ih, h]
    · split
      · next h => simp [h] at ih; simp [← ih]
      · next h => simp [h] at ih; simp [← ih]

theorem segments_ne_nil {t : Text} (h : t ≠ []) : segments t ≠ [] := by
  intro hs
  exact h (by rw [← flatten_segments t, hs]; rfl)

end TouchPanel.Text
