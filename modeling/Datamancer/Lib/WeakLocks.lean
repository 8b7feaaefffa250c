import Mathlib.Data.List.Basic
import Mathlib.Logic.Function.Basic

/-!
# Datamancer.Lib.WeakLocks

One lock per key, behind a map that holds the locks weakly: a lock lives as long as a
caller waits for it or holds it. A call to acquire a key takes the lock of the map's
entry if that one is still alive, and puts a new lock there if it is not. Calls may be
given up while they wait, and guards dropped, at any time.

That a key is never guarded twice rests on the map: every live call of a key is on the
lock of the key's entry. This is part of the type, so all that is left of mutual
exclusion is that one lock has one holder (`exclusive`).
-/

/-- A call for a key: it waits, holds the guard, or is gone. -/
inductive LockPhase
  | waiting
  | holding
  | gone
  deriving DecidableEq, Repr

structure LockCall (κ : Type*) where
  key : κ
  /-- The lock the call is on, by number. -/
  lock : Nat
  phase : LockPhase

/-- No lock has two holders. -/
def SingleHolder {κ : Type*} (calls : List (LockCall κ)) : Prop :=
  ∀ (m n : Nat) (c d : LockCall κ), calls[m]? = some c → calls[n]? = some d →
    c.phase = .holding → d.phase = .holding → c.lock = d.lock → m = n

/-- The map of weak entries, the number of the next lock, and every call made so far. -/
structure WeakLocks (κ : Type*) where
  entry : κ → Option Nat
  fresh : Nat
  calls : List (LockCall κ)
  live : ∀ c ∈ calls, c.phase ≠ .gone → entry c.key = some c.lock
  single : SingleHolder calls

namespace WeakLocks

variable {κ : Type*}

/-- Before the first call. -/
def new : WeakLocks κ := ⟨fun _ => none, 0, [], by simp, by simp [SingleHolder]⟩

/-- Follow the entry of a key to its lock, if that one is alive. -/
def upgrade (l : WeakLocks κ) (k : κ) : Option Nat :=
  (l.entry k).filter fun lock => l.calls.any fun c => c.lock = lock ∧ c.phase ≠ .gone

/-- A key with a live call can be upgraded, to the lock of that call. -/
theorem upgrade_of_live {l : WeakLocks κ} {c : LockCall κ} (hc : c ∈ l.calls)
    (hlive : c.phase ≠ .gone) : l.upgrade c.key = some c.lock := by
  unfold upgrade
  rw [l.live c hc hlive, Option.filter_some, if_pos]
  rw [List.any_eq_true]
  exact ⟨c, hc, by simpa using hlive⟩

theorem entry_of_upgrade {l : WeakLocks κ} {k : κ} {lock : Nat} (h : l.upgrade k = some lock) :
    l.entry k = some lock := (Option.filter_eq_some_iff.mp h).1

/-! ### Calls -/

/-- A call that only waits adds no holder. -/
theorem single_concat (l : WeakLocks κ) (k : κ) (lock : Nat) :
    SingleHolder (l.calls ++ [⟨k, lock, .waiting⟩]) := by
  have hold : ∀ (m : Nat) (c : LockCall κ), (l.calls ++ [⟨k, lock, .waiting⟩])[m]? = some c →
      c.phase = .holding → l.calls[m]? = some c := by
    intro m c hm hc
    rw [List.getElem?_append] at hm
    split_ifs at hm
    · exact hm
    · obtain rfl := List.mem_singleton.mp (List.mem_of_getElem? hm)
      cases hc
  intro m n c d hm hn hc hd heq
  exact l.single m n c d (hold m c hm hc) (hold n d hn hd) hc hd heq

/-- A live call moves on; to hold its lock, nobody else may. -/
def move (l : WeakLocks κ) (n : Nat) (c : LockCall κ) (p : LockPhase) (hc : l.calls[n]? = some c)
    (hlive : c.phase ≠ .gone)
    (hfree : p = .holding → ∀ d ∈ l.calls, d.lock = c.lock → d.phase ≠ .holding) :
    WeakLocks κ where
  entry := l.entry
  fresh := l.fresh
  calls := l.calls.set n { c with phase := p }
  live := by
    intro d hd hdlive
    rcases List.mem_or_eq_of_mem_set hd with hd | rfl
    · exact l.live d hd hdlive
    · exact l.live c (List.mem_of_getElem? hc) hlive
  single := by
    -- Another holder of the same lock is none that was there before.
    have hnew : ∀ (i : Nat) (d : LockCall κ), i ≠ n →
        (l.calls.set n { c with phase := p })[i]? = some d → d.phase = .holding →
        p = .holding → d.lock ≠ c.lock := by
      intro i d hi hd hdhold hp hlock
      rw [List.getElem?_set_ne (Ne.symm hi)] at hd
      exact hfree hp d (List.mem_of_getElem? hd) hlock hdhold
    have hself : ∀ d : LockCall κ, (l.calls.set n { c with phase := p })[n]? = some d →
        d = { c with phase := p } := by
      intro d hd
      rw [List.getElem?_set_self (List.getElem?_eq_some_iff.mp hc).1] at hd
      exact (Option.some.inj hd).symm
    intro i j d e hd he hdhold hehold heq
    by_cases hi : i = n
    · by_cases hj : j = n
      · rw [hi, hj]
      · rw [hi] at hd
        obtain rfl := hself d hd
        exact absurd heq.symm (hnew j e hj he hehold hdhold)
    · by_cases hj : j = n
      · rw [hj] at he
        obtain rfl := hself e he
        exact absurd heq (hnew i d hi hd hdhold hehold)
      · rw [List.getElem?_set_ne (Ne.symm hi)] at hd
        rw [List.getElem?_set_ne (Ne.symm hj)] at he
        exact l.single i j d e hd he hdhold hehold heq

/-- Make a call for a key. Its number is that of the calls before it. -/
def acquire [DecidableEq κ] (l : WeakLocks κ) (k : κ) : WeakLocks κ :=
  match h : l.upgrade k with
  | some lock => { l with
      calls := l.calls ++ [⟨k, lock, .waiting⟩]
      live := by
        intro c hc hlive
        rcases List.mem_append.mp hc with hc | hc
        · exact l.live c hc hlive
        · obtain rfl := List.mem_singleton.mp hc
          exact entry_of_upgrade h
      single := l.single_concat k lock }
  | none =>
      { entry := Function.update l.entry k (some l.fresh)
        fresh := l.fresh + 1
        calls := l.calls ++ [⟨k, l.fresh, .waiting⟩]
        live := by
          intro c hc hlive
          rcases List.mem_append.mp hc with hc | hc
          · -- A live call of the key would have kept its lock alive.
            have hne : c.key ≠ k := by
              intro hkey
              have hsome := upgrade_of_live hc hlive
              rw [hkey, h] at hsome
              cases hsome
            rw [Function.update_of_ne hne]
            exact l.live c hc hlive
          · obtain rfl := List.mem_singleton.mp hc
            exact Function.update_self ..
        single := l.single_concat k l.fresh }

theorem phase_ne_gone {c : LockCall κ} (h : c.phase = .waiting) : c.phase ≠ .gone := by
  rw [h]
  decide

/-- The lock is handed to a waiting call, if nobody holds it. -/
def grant (l : WeakLocks κ) (n : Nat) : Option (WeakLocks κ) :=
  match hc : l.calls[n]? with
  | none => none
  | some c =>
      if h : c.phase = .waiting ∧ ∀ d ∈ l.calls, d.lock = c.lock → d.phase ≠ .holding then
        some (l.move n c .holding hc (phase_ne_gone h.1) fun _ => h.2)
      else none

/-- A call is given up while it waits, or its guard is dropped. -/
def release (l : WeakLocks κ) (n : Nat) : Option (WeakLocks κ) :=
  match hc : l.calls[n]? with
  | none => none
  | some c =>
      if h : c.phase ≠ .gone then
        some (l.move n c .gone hc h fun hp => (by cases hp))
      else none

/-! ### What a call does -/

theorem calls_acquire [DecidableEq κ] (l : WeakLocks κ) (k : κ) :
    ∃ lock, (l.acquire k).calls = l.calls ++ [⟨k, lock, .waiting⟩] := by
  unfold acquire
  split
  · exact ⟨_, rfl⟩
  · exact ⟨_, rfl⟩

theorem grant_eq_some {l l' : WeakLocks κ} {n : Nat} (h : l.grant n = some l') :
    ∃ c, l.calls[n]? = some c ∧ c.phase = .waiting ∧
      l'.calls = l.calls.set n { c with phase := .holding } := by
  unfold grant at h
  split at h
  · cases h
  · rename_i c hc
    split_ifs at h with hcond
    obtain rfl := Option.some.inj h
    exact ⟨c, hc, hcond.1, rfl⟩

theorem release_eq_some {l l' : WeakLocks κ} {n : Nat} (h : l.release n = some l') :
    ∃ c, l.calls[n]? = some c ∧ c.phase ≠ .gone ∧
      l'.calls = l.calls.set n { c with phase := .gone } := by
  unfold release at h
  split at h
  · cases h
  · rename_i c hc
    split_ifs at h with hcond
    obtain rfl := Option.some.inj h
    exact ⟨c, hc, hcond, rfl⟩

/-! ### Mutual exclusion -/

/-- Call `n` is for the key `k` and in the given phase. -/
def At (l : WeakLocks κ) (n : Nat) (k : κ) (p : LockPhase) : Prop :=
  ∃ c, l.calls[n]? = some c ∧ c.key = k ∧ c.phase = p

/-- A key is guarded at most once. -/
theorem exclusive (l : WeakLocks κ) {m n : Nat} {k : κ} (hm : l.At m k .holding)
    (hn : l.At n k .holding) : m = n := by
  obtain ⟨c, hc, hck, hcp⟩ := hm
  obtain ⟨d, hd, hdk, hdp⟩ := hn
  refine l.single m n c d hc hd hcp hdp ?_
  -- Both are on the lock of the key's entry.
  have hlock : l.entry c.key = l.entry d.key := by rw [hck, hdk]
  rw [l.live c (List.mem_of_getElem? hc) (by simp [hcp]),
    l.live d (List.mem_of_getElem? hd) (by simp [hdp])] at hlock
  exact Option.some.inj hlock

/-- A new call waits, and leaves the others where they are. -/
theorem at_acquire [DecidableEq κ] (l : WeakLocks κ) (k : κ) :
    (l.acquire k).At l.calls.length k .waiting ∧
      ∀ {n k' p}, l.At n k' p → (l.acquire k).At n k' p := by
  obtain ⟨lock, hcalls⟩ := l.calls_acquire k
  refine ⟨⟨_, by rw [hcalls, List.getElem?_concat_length], rfl, rfl⟩, ?_⟩
  rintro n k' p ⟨c, hc, hkey, hphase⟩
  refine ⟨c, ?_, hkey, hphase⟩
  rw [hcalls, List.getElem?_append_left (List.getElem?_eq_some_iff.mp hc).1, hc]

/-- A call that moves leaves the others where they are. -/
theorem at_set {l l' : WeakLocks κ} {n : Nat} {c : LockCall κ} {p : LockPhase}
    (hc : l.calls[n]? = some c) (hcalls : l'.calls = l.calls.set n { c with phase := p }) :
    l'.At n c.key p ∧ ∀ {m k q}, m ≠ n → l.At m k q → l'.At m k q := by
  constructor
  · exact ⟨{ c with phase := p },
      by rw [hcalls, List.getElem?_set_self (List.getElem?_eq_some_iff.mp hc).1], rfl, rfl⟩
  · rintro m k q hne ⟨d, hd, hkey, hphase⟩
    exact ⟨d, by rw [hcalls, List.getElem?_set_ne (Ne.symm hne), hd], hkey, hphase⟩

theorem at_grant {l l' : WeakLocks κ} {n : Nat} {k : κ} (h : l.grant n = some l')
    (hn : l.At n k .waiting) :
    l'.At n k .holding ∧ ∀ {m k' q}, m ≠ n → l.At m k' q → l'.At m k' q := by
  obtain ⟨c, hc, -, hcalls⟩ := grant_eq_some h
  obtain ⟨d, hd, rfl, -⟩ := hn
  obtain rfl := Option.some.inj (hc.symm.trans hd)
  exact at_set hc hcalls

theorem at_release {l l' : WeakLocks κ} {n m : Nat} {k : κ} {q : LockPhase}
    (h : l.release n = some l') (hne : m ≠ n) (hm : l.At m k q) : l'.At m k q := by
  obtain ⟨c, hc, -, hcalls⟩ := release_eq_some h
  exact (at_set hc hcalls).2 hne hm

/-! ### Runs -/

/-- What callers do: make a call, be handed the lock, give up or drop the guard. -/
inductive LockAction (κ : Type*)
  | acquire (k : κ)
  | grant (n : Nat)
  | release (n : Nat)

def step [DecidableEq κ] (l : WeakLocks κ) : LockAction κ → Option (WeakLocks κ)
  | .acquire k => some (l.acquire k)
  | .grant n => l.grant n
  | .release n => l.release n

end WeakLocks
