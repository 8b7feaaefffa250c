import Mathlib.Data.List.Basic

/-!
# Datamancer.Lib.EvictRing

A bounded buffer that makes room by evicting its oldest element.

A ring never holds more than its capacity, which is positive; both are part of the
type. Whatever was pushed is what has been evicted followed by what is still buffered
(`evictions_append_buf`), so the buffer is the last part of what was pushed, as long as
fits (`buf_pushAll`).
-/

structure EvictRing (α : Type*) where
  capacity : Nat
  buf : List α
  positive : 0 < capacity
  bounded : buf.length ≤ capacity

namespace EvictRing

variable {α : Type*}

/-- An empty ring; a capacity of zero counts as one. -/
def new (capacity : Nat) : EvictRing α := ⟨max capacity 1, [], by omega, by simp⟩

@[simp] theorem buf_new (capacity : Nat) : (new capacity : EvictRing α).buf = [] := rfl

def isFull (r : EvictRing α) : Bool := r.buf.length == r.capacity

/-- The element a push would evict. -/
def evicted (r : EvictRing α) : Option α := if r.isFull then r.buf.head? else none

theorem evicted_new (capacity : Nat) : (new capacity : EvictRing α).evicted = none := by
  unfold evicted
  split <;> rfl

/-- Push one element, evicting the oldest if the ring is full. -/
def push (r : EvictRing α) (a : α) : EvictRing α where
  capacity := r.capacity
  buf := (if r.isFull then r.buf.tail else r.buf) ++ [a]
  positive := r.positive
  bounded := by
    have hpos := r.positive
    have hle := r.bounded
    unfold isFull
    split_ifs with h
    · have heq := beq_iff_eq.mp h
      simp only [List.length_append, List.length_tail, List.length_singleton]
      omega
    · have hne : r.buf.length ≠ r.capacity := fun heq => h (beq_iff_eq.mpr heq)
      simp only [List.length_append, List.length_singleton]
      omega

@[simp] theorem capacity_push (r : EvictRing α) (a : α) : (r.push a).capacity = r.capacity := rfl

/-- A push evicts the front of the buffer, or nothing. -/
theorem push_cases (r : EvictRing α) (a : α) :
    (∃ b rest, r.buf = b :: rest ∧ r.evicted = some b ∧ (r.push a).buf = rest ++ [a]) ∨
    (r.evicted = none ∧ (r.push a).buf = r.buf ++ [a] ∧ r.buf.length < r.capacity) := by
  have hpos := r.positive
  have hle := r.bounded
  cases hfull : r.isFull with
  | true =>
      have hlen : r.buf.length = r.capacity := beq_iff_eq.mp hfull
      cases hbuf : r.buf with
      | nil =>
          rw [hbuf, List.length_nil] at hlen
          omega
      | cons b rest =>
          refine .inl ⟨b, rest, rfl, ?_, ?_⟩
          · simp [evicted, hfull, hbuf]
          · simp [push, hfull, hbuf]
  | false =>
      have hlen : r.buf.length ≠ r.capacity := by simpa [isFull] using hfull
      refine .inr ⟨?_, ?_, by omega⟩
      · simp [evicted, hfull]
      · simp [push, hfull]

theorem evicted_append_buf_push (r : EvictRing α) (a : α) :
    r.evicted.toList ++ (r.push a).buf = r.buf ++ [a] := by
  rcases r.push_cases a with ⟨b, rest, hbuf, hev, hpush⟩ | ⟨hev, hpush, -⟩
  · simp [hev, hpush, hbuf]
  · simp [hev, hpush]

/-! ### A run of pushes -/

def pushAll (r : EvictRing α) (as : List α) : EvictRing α := as.foldl push r

/-- What a run of pushes evicts, in order. -/
def evictions (r : EvictRing α) : List α → List α
  | [] => []
  | a :: as => r.evicted.toList ++ (r.push a).evictions as

theorem evictions_append_buf (r : EvictRing α) (as : List α) :
    r.evictions as ++ (r.pushAll as).buf = r.buf ++ as := by
  induction as generalizing r with
  | nil => simp [evictions, pushAll]
  | cons a as ih =>
      have hstep := ih (r.push a)
      rw [evictions, List.append_assoc]
      show r.evicted.toList ++ ((r.push a).evictions as ++ ((r.push a).pushAll as).buf) = _
      rw [hstep, ← List.append_assoc, evicted_append_buf_push, List.append_assoc]
      rfl

/-- Nothing is evicted before the ring is full. -/
theorem length_buf_of_evictions_ne_nil (r : EvictRing α) (as : List α) (h : r.evictions as ≠ []) :
    (r.pushAll as).buf.length = r.capacity := by
  -- a full ring stays full
  have hfull : ∀ (as : List α) (r : EvictRing α), r.buf.length = r.capacity →
      (r.pushAll as).buf.length = r.capacity := by
    intro as
    induction as with
    | nil => exact fun r hr => hr
    | cons a as ih =>
        intro r hr
        refine ih (r.push a) ?_
        rcases r.push_cases a with ⟨b, rest, hbuf, -, hpush⟩ | ⟨-, -, hlt⟩
        · rw [hpush, capacity_push, ← hr, hbuf]
          simp
        · omega
  induction as generalizing r with
  | nil => exact absurd rfl h
  | cons a as ih =>
      rcases r.push_cases a with ⟨b, rest, hbuf, hev, hpush⟩ | ⟨hev, hpush, -⟩
      · refine hfull as (r.push a) ?_
        have hlen : r.buf.length = r.capacity := by
          by_contra hne
          simp [evicted, isFull, hne] at hev
        rw [hpush, capacity_push, ← hlen, hbuf]
        simp
      · refine ih (r.push a) ?_
        simpa [evictions, hev] using h

/-- From empty, the ring holds the last `capacity` elements pushed, and has evicted the
others. -/
theorem buf_pushAll (capacity : Nat) (as : List α) :
    ((new capacity : EvictRing α).pushAll as).buf = as.drop (as.length - max capacity 1) ∧
    (new capacity : EvictRing α).evictions as = as.take (as.length - max capacity 1) := by
  have hsplit :
      (new capacity : EvictRing α).evictions as ++ ((new capacity).pushAll as).buf = as := by
    simpa using evictions_append_buf (new capacity : EvictRing α) as
  have hlen : ((new capacity : EvictRing α).evictions as).length = as.length - max capacity 1 := by
    have htotal := congrArg List.length hsplit
    rw [List.length_append] at htotal
    have hcap : ((new capacity : EvictRing α).pushAll as).capacity = max capacity 1 := by
      have hkeep : ∀ (as : List α) (r : EvictRing α), (r.pushAll as).capacity = r.capacity := by
        intro as
        induction as with
        | nil => exact fun _ => rfl
        | cons a as ih => exact fun r => ih (r.push a)
      exact hkeep as _
    have hle := ((new capacity : EvictRing α).pushAll as).bounded
    by_cases hnil : (new capacity : EvictRing α).evictions as = []
    · rw [hnil, List.length_nil] at htotal ⊢
      omega
    · have hfull := length_buf_of_evictions_ne_nil _ as hnil
      have hnew : (new capacity : EvictRing α).capacity = max capacity 1 := rfl
      omega
  have htwo := hsplit.trans (List.take_append_drop (as.length - max capacity 1) as).symm
  obtain ⟨htake, hdrop⟩ := List.append_inj htwo (by rw [hlen, List.length_take]; omega)
  exact ⟨hdrop, htake⟩

end EvictRing
