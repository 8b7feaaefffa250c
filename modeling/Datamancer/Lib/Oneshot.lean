import Mathlib.Order.Basic

/-!
# Datamancer.Lib.Oneshot

A channel for one value. What its receiver waits for comes once: a value, or the end of the
sender; whatever comes later changes nothing.
-/

inductive Oneshot (α : Type*)
  | waiting
  | sent (a : α)
  /-- The sender is gone. -/
  | dropped

namespace Oneshot

variable {α : Type*} {o : Oneshot α}

def send : Oneshot α → α → Oneshot α
  | waiting, a => sent a
  | o, _ => o

def dropSender : Oneshot α → Oneshot α
  | waiting => dropped
  | o => o

/-- The receiver does not wait any more. -/
def Ready (o : Oneshot α) : Prop := o ≠ waiting

theorem ready_send (o : Oneshot α) (a : α) : (o.send a).Ready := by
  cases o <;> exact fun h => by cases h

theorem ready_dropSender (o : Oneshot α) : o.dropSender.Ready := by
  cases o <;> exact fun h => by cases h

end Oneshot
