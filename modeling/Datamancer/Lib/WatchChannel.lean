import Mathlib.Order.Basic

/-!
# Datamancer.Lib.WatchChannel

A channel that keeps the value sent last. A receiver remembers the version it has seen and
is notified of any later one; so what it found when it looked still holds, or it has a
notification it has not read (`Knows`).
-/

/-- A watch channel; it is closed once its sender is dropped. -/
structure WatchChannel (α : Type*) where
  value : α
  version : Nat
  closed : Bool

namespace WatchChannel

variable {α : Type*} {w : WatchChannel α} {seen : Nat} {P Q : α → Prop}

def new (v : α) : WatchChannel α := ⟨v, 0, false⟩

def send (w : WatchChannel α) (v : α) : WatchChannel α :=
  { w with value := v, version := w.version + 1 }

def close (w : WatchChannel α) : WatchChannel α := { w with closed := true }

/-- A receiver that has seen this version has not seen the latest. -/
def Unread (w : WatchChannel α) (seen : Nat) : Prop := seen ≠ w.version

instance : Decidable (w.Unread seen) := inferInstanceAs (Decidable (_ ≠ _))

/-- The value is as the receiver found it, unless the receiver has been notified. -/
structure Knows (w : WatchChannel α) (seen : Nat) (P : α → Prop) : Prop where
  le : seen ≤ w.version
  holds : ¬ w.Unread seen → P w.value

theorem knows_version (h : P w.value) : w.Knows w.version P := ⟨Nat.le_refl _, fun _ => h⟩

/-- A send notifies every receiver there is. -/
theorem unread_send (h : seen ≤ w.version) (v : α) : (w.send v).Unread seen := by
  show seen ≠ w.version + 1
  omega

theorem Knows.send (h : w.Knows seen P) (v : α) : (w.send v).Knows seen P :=
  ⟨Nat.le_succ_of_le h.le, fun hread => absurd (unread_send h.le v) hread⟩

theorem Knows.close (h : w.Knows seen P) : w.close.Knows seen P := ⟨h.le, h.holds⟩

theorem Knows.imp (h : w.Knows seen P) (himp : P w.value → Q w.value) : w.Knows seen Q :=
  ⟨h.le, fun hread => himp (h.holds hread)⟩

end WatchChannel
