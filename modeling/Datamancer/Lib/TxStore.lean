import Mathlib.Order.Basic

/-!
# Datamancer.Lib.TxStore

A durable state behind one connection. Between the begin and the commit of a transaction
every statement works on a copy, which the commit makes durable as a whole; a rollback, or the
end of the process, leaves what was committed last. A statement outside of a transaction is
durable by itself.
-/

/-- The durable state, and the copy of the open transaction. -/
structure TxStore (σ : Type*) where
  committed : σ
  working : Option σ

namespace TxStore

variable {σ : Type*} {t : TxStore σ}

def new (s : σ) : TxStore σ := ⟨s, none⟩

/-- What the connection sees. -/
def view (t : TxStore σ) : σ := t.working.getD t.committed

/-- A statement has made this of the state. -/
def put (t : TxStore σ) (s : σ) : TxStore σ :=
  match t.working with
  | some _ => { t with working := some s }
  | none => { t with committed := s }

def begin (t : TxStore σ) : TxStore σ := { t with working := some t.view }

def commit (t : TxStore σ) : TxStore σ := ⟨t.view, none⟩

def rollback (t : TxStore σ) : TxStore σ := { t with working := none }

@[simp] theorem view_mk_none (s : σ) : (⟨s, none⟩ : TxStore σ).view = s := rfl

@[simp] theorem view_put (s : σ) : (t.put s).view = s := by
  obtain ⟨c, _ | w⟩ := t <;> rfl

@[simp] theorem committed_commit : t.commit.committed = t.view := rfl

/-- Outside of a transaction a statement is durable. -/
theorem committed_put_of_closed (h : t.working = none) (s : σ) :
    t.put s = ⟨s, none⟩ := by
  simp [put, h]

/-- Inside of one nothing is, before the commit. -/
theorem committed_put_of_open (h : t.working ≠ none) (s : σ) :
    (t.put s).committed = t.committed ∧ (t.put s).working ≠ none := by
  obtain ⟨c, _ | w⟩ := t
  · exact absurd rfl h
  · exact ⟨rfl, by simp [put]⟩

theorem view_of_closed (h : t.working = none) : t.view = t.committed := by
  simp [view, h]

end TxStore
