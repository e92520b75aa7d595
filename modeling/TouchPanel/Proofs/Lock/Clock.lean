import TouchPanel.Lock
import TouchPanel.Options

/-!
# Locks and the clock of the device

The emitted code compares words of 32 bits. The clock begins again after 2^32 milliseconds,
and so does the end of a lock. The guard is right as long as both are in the same turn of
the clock; in different turns it lets updates through within the window and keeps them away
behind it.
-/

namespace TouchPanel.Lock

/-! ## The emitted code -/

/-- The words of which the emitted code consists. -/
inductive Expr where
  /-- The milliseconds since the start of the device. -/
  | clock
  | word (n : Nat)
  | global (id : String)
  | sum (a b : Expr)

def Expr.text : Expr → String
  | clock => "millis()"
  | word n => s!"{n}"
  | global id => s!"id({id})"
  | sum a b => s!"{a.text} + {b.text}"

/-- The true time of a device in milliseconds, and its globals. -/
structure Device where
  now : Nat
  globals : String → UInt32

/-- Globals start at zero. -/
def Device.start : Device := ⟨0, fun _ => 0⟩

def Expr.eval (d : Device) : Expr → UInt32
  | clock => UInt32.ofNat d.now
  | word n => UInt32.ofNat n
  | global id => d.globals id
  | sum a b => a.eval d + b.eval d

/-- What happens on a device, as far as locks are concerned. -/
inductive Event where
  | wait (milliseconds : Nat)
  | assign (id : String) (value : Expr)

namespace Event

def apply (d : Device) : Event → Device
  | wait ms => { d with now := d.now + ms }
  | assign id value =>
    { d with globals := fun other => if other = id then value.eval d else d.globals other }

/-- Whether the event leaves a global alone. -/
def Spares (lock : String) : Event → Prop
  | wait _ => True
  | assign id _ => id ≠ lock

end Event

def run (d : Device) (events : List Event) : Device := events.foldl Event.apply d

/-- The statement that takes a lock. -/
def taking (window : Nat) (lock : String) : Event := .assign lock (.sum .clock (.word window))

/-- The condition of an update does not hold. -/
def Skips (d : Device) (lock : String) : Prop :=
  ¬ (Expr.global lock).eval d < Expr.clock.eval d

instance (d : Device) (lock : String) : Decidable (Skips d lock) :=
  inferInstanceAs (Decidable ¬ (Expr.global lock).eval d < Expr.clock.eval d)

/-- The code that takes a lock assigns the sum of clock and window to its global. -/
theorem writer_eq (window : Nat) (lock : String) : writer window lock =
    .single "lambda" (.raw
      s!"{(Expr.global lock).text} = {(Expr.sum .clock (.word window)).text};") := by
  have hcode : s!"id({lock}) = millis() + {window};" =
      s!"{(Expr.global lock).text} = {(Expr.sum .clock (.word window)).text};" := by
    rw [← String.toList_inj]
    simp [Expr.text, toString]
  rw [writer, hcode]

/-- The condition of an update asks whether the clock is greater than the global. -/
theorem guarded_eq (lock : String) (actions : List Node) : guarded lock actions =
    .single "if" (.map [
      ("condition", .single "lambda" (.raw
        s!"return {Expr.clock.text} > {(Expr.global lock).text};")),
      ("then", .list actions)]) := by
  have hcode : s!"return millis() > id({lock});" =
      s!"return {Expr.clock.text} > {(Expr.global lock).text};" := by
    rw [← String.toList_inj]
    simp [Expr.text, toString]
  rw [guarded, hcode]

/-! ## Between taking a lock and an update -/

theorem globals_apply {d : Device} {lock : String} {event : Event} (h : event.Spares lock) :
    (event.apply d).globals lock = d.globals lock := by
  cases event with
  | wait ms => rfl
  | assign id value => exact if_neg (Ne.symm h)

theorem globals_run {d : Device} {lock : String} {events : List Event}
    (h : ∀ event ∈ events, event.Spares lock) : (run d events).globals lock = d.globals lock := by
  induction events generalizing d with
  | nil => rfl
  | cons event events ih =>
    obtain ⟨hevent, hevents⟩ := List.forall_mem_cons.1 h
    exact (ih hevents).trans (globals_apply hevent)

theorem now_apply (d : Device) (event : Event) : d.now ≤ (event.apply d).now := by
  cases event with
  | wait ms => exact Nat.le_add_right _ _
  | assign id value => exact Nat.le_refl _

theorem now_run (d : Device) (events : List Event) : d.now ≤ (run d events).now := by
  induction events generalizing d with
  | nil => exact Nat.le_refl _
  | cons event events ih => exact Nat.le_trans (now_apply d event) (ih _)

/-! ## The end of a lock -/

/-- The clock begins again after 2^32 milliseconds. -/
def turn : Nat := 4294967296

/-- The guard compares the remainders of two times. -/
theorem skips_iff {d : Device} {window : Nat} {lock : String} {events : List Event}
    (hspares : ∀ event ∈ events, event.Spares lock) :
    let later := run ((taking window lock).apply d) events
    Skips later lock ↔ later.now % turn ≤ (d.now + window) % turn := by
  intro later
  have hglobal : later.globals lock = UInt32.ofNat d.now + UInt32.ofNat window :=
    (globals_run hspares).trans (if_pos rfl)
  have hword : ∀ n : Nat, (UInt32.ofNat n).toNat = n % turn := fun _ => UInt32.toNat_ofNat'
  have hend : (UInt32.ofNat d.now + UInt32.ofNat window).toNat = (d.now + window) % turn := by
    rw [← UInt32.ofNat_add, hword]
  unfold Skips Expr.eval
  rw [hglobal, UInt32.lt_iff_toNat_lt, hend, hword, Nat.not_lt]

/-- The order of two times that are less than half a turn apart is that of their remainders
if and only if they are in the same turn. -/
theorem mod_le_mod_iff {n w d : Nat} (hw : w < turn / 2) (hd : d < turn / 2) :
    ((n + d) % turn ≤ (n + w) % turn ↔ d ≤ w) ↔ (n + w) / turn = (n + d) / turn := by
  unfold turn at *
  omega

/-- A lock keeps updates away for its window, and no longer, if and only if the update comes
in the turn of the clock in which the lock ends. -/
theorem skips_within_window_iff {d : Device} {window : Nat} {lock : String} {events : List Event}
    (hwindow : window < turn / 2) (hspares : ∀ event ∈ events, event.Spares lock)
    (helapsed : (run ((taking window lock).apply d) events).now - d.now < turn / 2) :
    let later := run ((taking window lock).apply d) events
    (Skips later lock ↔ later.now - d.now ≤ window) ↔
      (d.now + window) / turn = later.now / turn := by
  intro later
  have hle : d.now ≤ later.now := now_run ((taking window lock).apply d) events
  have hnow : d.now + (later.now - d.now) = later.now := by omega
  have hskips : Skips later lock ↔ later.now % turn ≤ (d.now + window) % turn :=
    skips_iff hspares
  have hturn := mod_le_mod_iff (n := d.now) (d := later.now - d.now) hwindow helapsed
  rw [hnow] at hturn
  rw [hskips]
  exact hturn

theorem skips_within_window_iff_start :
    let later := run ((taking 500 "lock").apply .start) [.wait 100]
    (Skips later "lock" ↔ later.now - Device.start.now ≤ 500) ↔
      (Device.start.now + 500) / turn = later.now / turn :=
  skips_within_window_iff (by decide) (by simp [Event.Spares]) (by decide)

/-- With the window that options have by default: a lock that is taken a hundred milliseconds
before the clock begins again is of no effect, and one that ends just before that keeps
updates away when its window is over. -/
theorem window_not_kept :
    ({} : Options).fault?.isNone = true ∧ ({} : Options).lockWindow = 500 ∧
    (let d := run .start [.wait (turn - 100)]
     let later := run ((taking 500 "lock").apply d) [.wait 10]
     later.now - d.now ≤ 500 ∧ ¬ Skips later "lock") ∧
    (let d := run .start [.wait (turn - 501)]
     let later := run ((taking 500 "lock").apply d) [.wait 600]
     500 < later.now - d.now ∧ Skips later "lock") := by
  decide

end TouchPanel.Lock
