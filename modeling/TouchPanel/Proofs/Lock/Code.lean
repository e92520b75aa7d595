import TouchPanel.Lock
import TouchPanel.Proofs.Identifier
import TouchPanel.Proofs.Output.Code

/-!
# Code about a lock

The code that takes a lock and the code that waits for it are written as they are, and each
names one lock only.
-/

namespace TouchPanel

open Node

namespace Lock

def guardCode (lock : String) : String := s!"return millis() > id({lock});"

def writerCode (window : Nat) (lock : String) : String := s!"id({lock}) = millis() + {window};"

/-- Some code of the tree lets an update run only if the lock has ended. -/
def Reads (node : Node) (lock : String) : Prop := node.Holds (guardCode lock)

/-- Some code of the tree takes the lock. -/
def Writes (node : Node) (lock : String) : Prop := ∃ window, node.Holds (writerCode window lock)

theorem guardCode_inj {lock lock' : String} (h : guardCode lock = guardCode lock') :
    lock = lock' :=
  (String.append_right_inj _).1 ((String.append_left_inj _).1 h)

theorem writerCode_inj {window window' : Nat} {lock lock' : String}
    (h : writerCode window lock = writerCode window' lock') : lock = lock' := by
  have hdigits : ∀ n : Nat, ' ' ∉ n.repr.toList ++ [';'] := by
    intro n hmem
    rcases List.mem_append.1 hmem with hmem | hmem
    · cases isDigit_of_mem_repr hmem
    · cases List.mem_singleton.1 hmem
  have hcode : ∀ (n : Nat) (l : String), (writerCode n l).toList =
      ("id(" ++ l ++ ") = millis() +").toList ++ ' ' :: (n.repr.toList ++ [';']) := by
    intro n l
    simp [writerCode, toString]
  have hlists := congrArg String.toList h
  rw [hcode, hcode] at hlists
  have hfront := (append_cons_inj_of_not_mem (hdigits window) (hdigits window') hlists).1
  exact (String.append_right_inj _).1 ((String.append_left_inj _).1 (String.toList_inj.1 hfront))

theorem writes_writer (window : Nat) (lock : String) : Writes (writer window lock) lock :=
  ⟨window, .map List.mem_cons_self .raw⟩

theorem reads_guarded (lock : String) (actions : List Node) :
    Reads (guarded lock actions) lock := by
  apply Holds.map List.mem_cons_self
  apply Holds.map List.mem_cons_self
  exact .map List.mem_cons_self .raw

variable {P : String → Prop}

theorem codeIn_writer {window : Nat} {lock : String} (h : P (writerCode window lock)) :
    (writer window lock).CodeIn P :=
  .single (.raw h)

end Lock

end TouchPanel
