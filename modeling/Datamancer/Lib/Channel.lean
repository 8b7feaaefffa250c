import Mathlib.Data.List.AList

/-!
# Datamancer.Lib.Channel

A bounded first-in first-out channel between one sender and one receiver, and what a
table of them needs of its finite map.

The channel remembers what its receiver has taken, so that `accepted` is everything a
send ever succeeded with, in order. A failed send leaves the channel as it was; the
receiver moves the front of the queue to what it has taken (`accepted_recv`) and
cannot be seen by the sender otherwise than through room and closedness. Where others
wait for room, a send without waiting does not take the slots they were promised
(`trySendPast`, `push`).
-/

/-- A channel of capacity `cap`, with what its receiver has taken so far. -/
structure Channel (α : Type*) where
  cap : Nat
  queue : List α
  taken : List α
  isOpen : Bool
  deriving DecidableEq, Repr

namespace Channel

variable {α : Type*}

/-- What an attempt to send without waiting comes to. -/
inductive TrySend (α : Type*)
  | sent (tx : Channel α)
  | full
  | closed

def new (cap : Nat) : Channel α := ⟨cap, [], [], true⟩

/-- Everything a send succeeded with, in order. -/
def accepted (c : Channel α) : List α := c.taken ++ c.queue

def hasRoom (c : Channel α) : Bool := c.queue.length < c.cap

/-- Send without waiting; that the receiver is gone is noticed before that there is no
room. -/
def trySend (c : Channel α) (a : α) : TrySend α :=
  if c.isOpen then
    if c.hasRoom then .sent { c with queue := c.queue ++ [a] } else .full
  else .closed

/-- Send without waiting while `held` slots are promised to senders that wait. -/
def trySendPast (c : Channel α) (held : Nat) (a : α) : TrySend α :=
  if c.isOpen ∧ c.cap ≤ c.queue.length + held then .full else c.trySend a

/-- A sender that has waited uses the slot it was promised. -/
def push (c : Channel α) (a : α) : Channel α := { c with queue := c.queue ++ [a] }

/-- Send without waiting and ignore a failure. -/
def offer (c : Channel α) (a : α) : Channel α :=
  match c.trySend a with
  | .sent tx => tx
  | .full => c
  | .closed => c

/-- The receiver takes the front of the queue. -/
def recv (c : Channel α) : Option (Channel α) :=
  if c.isOpen then
    match c.queue with
    | [] => none
    | a :: queue => some { c with queue, taken := c.taken ++ [a] }
  else none

/-- The receiver is dropped; what it has not taken it never will. -/
def close (c : Channel α) : Channel α := { c with isOpen := false }

@[simp] theorem accepted_new (cap : Nat) : (new cap : Channel α).accepted = [] := rfl

@[simp] theorem accepted_close (c : Channel α) : c.close.accepted = c.accepted := rfl

@[simp] theorem taken_close (c : Channel α) : c.close.taken = c.taken := rfl

/-- The three outcomes of an attempt, and when each is met. -/
theorem trySend_cases (c : Channel α) (a : α) :
    (c.isOpen = true ∧ c.hasRoom = true ∧
      c.trySend a = .sent { c with queue := c.queue ++ [a] }) ∨
    (c.isOpen = true ∧ c.hasRoom = false ∧ c.trySend a = .full) ∨
    (c.isOpen = false ∧ c.trySend a = .closed) := by
  unfold trySend
  cases c.isOpen <;> cases c.hasRoom <;> simp

theorem eq_of_sent {c tx : Channel α} {a : α} (h : c.trySend a = .sent tx) :
    c.isOpen = true ∧ tx = { c with queue := c.queue ++ [a] } := by
  rcases trySend_cases c a with ⟨hopen, -, hs⟩ | ⟨-, -, hs⟩ | ⟨-, hs⟩
  · cases hs.symm.trans h
    exact ⟨hopen, rfl⟩
  · cases hs.symm.trans h
  · cases hs.symm.trans h

theorem isOpen_of_closed {c : Channel α} {a : α} (h : c.trySend a = .closed) :
    c.isOpen = false := by
  rcases trySend_cases c a with ⟨-, -, hs⟩ | ⟨-, -, hs⟩ | ⟨hclosed, -⟩
  · cases hs.symm.trans h
  · cases hs.symm.trans h
  · exact hclosed

theorem accepted_sent {c tx : Channel α} {a : α} (h : c.trySend a = .sent tx) :
    tx.accepted = c.accepted ++ [a] := by
  obtain ⟨-, rfl⟩ := eq_of_sent h
  simp [accepted]

@[simp] theorem accepted_push (c : Channel α) (a : α) :
    (c.push a).accepted = c.accepted ++ [a] := by
  simp [push, accepted]

@[simp] theorem length_push (c : Channel α) (a : α) :
    (c.push a).queue.length = c.queue.length + 1 := by
  simp [push]

/-- A send past held slots leaves them free. -/
theorem trySendPast_cases (c : Channel α) (held : Nat) (a : α) :
    (c.isOpen = true ∧ c.queue.length + held < c.cap ∧
      c.trySendPast held a = .sent (c.push a)) ∨
    (c.isOpen = true ∧ c.cap ≤ c.queue.length + held ∧ c.trySendPast held a = .full) ∨
    (c.isOpen = false ∧ c.trySendPast held a = .closed) := by
  unfold trySendPast
  by_cases hfull : c.isOpen = true ∧ c.cap ≤ c.queue.length + held
  · rw [if_pos hfull]
    exact .inr (.inl ⟨hfull.1, hfull.2, rfl⟩)
  · rw [if_neg hfull]
    rcases trySend_cases c a with ⟨hopen, -, hs⟩ | ⟨hopen, hroom, -⟩ | ⟨hclosed, hs⟩
    · exact .inl ⟨hopen, not_le.mp fun hle => hfull ⟨hopen, hle⟩, hs⟩
    · -- without room nothing is left past the held slots
      have hle : c.cap ≤ c.queue.length := not_lt.mp (of_decide_eq_false hroom)
      exact absurd ⟨hopen, Nat.le_trans hle (Nat.le_add_right _ _)⟩ hfull
    · exact .inr (.inr ⟨hclosed, hs⟩)

theorem accepted_offer (c : Channel α) (a : α) :
    (c.offer a).accepted = c.accepted ++ [a] ∨ (c.offer a).accepted = c.accepted := by
  unfold offer
  cases h : c.trySend a with
  | sent tx => exact .inl (accepted_sent h)
  | full => exact .inr rfl
  | closed => exact .inr rfl

theorem cap_offer (c : Channel α) (a : α) : (c.offer a).cap = c.cap := by
  unfold offer
  cases h : c.trySend a with
  | sent tx =>
      obtain ⟨-, rfl⟩ := eq_of_sent h
      rfl
  | full => rfl
  | closed => rfl

/-- A channel that is not over its capacity is not after a send. -/
theorem length_offer_le {c : Channel α} (h : c.queue.length ≤ c.cap) (a : α) :
    (c.offer a).queue.length ≤ c.cap := by
  unfold offer
  rcases trySend_cases c a with ⟨-, hroom, hs⟩ | ⟨-, -, hs⟩ | ⟨-, hs⟩
  · rw [hs, List.length_append, List.length_singleton]
    exact Nat.succ_le_of_lt (of_decide_eq_true hroom)
  · rw [hs]
    exact h
  · rw [hs]
    exact h

theorem isOpen_offer (c : Channel α) (a : α) : (c.offer a).isOpen = c.isOpen := by
  unfold offer
  cases h : c.trySend a with
  | sent tx =>
      obtain ⟨-, rfl⟩ := eq_of_sent h
      rfl
  | full => rfl
  | closed => rfl

theorem recv_eq_some {c c' : Channel α} (h : c.recv = some c') :
    c.isOpen = true ∧ ∃ a queue, c.queue = a :: queue ∧
      c' = { c with queue, taken := c.taken ++ [a] } := by
  unfold recv at h
  split_ifs at h with hopen
  split at h
  · cases h
  · rename_i a queue hq
    exact ⟨hopen, a, queue, hq, (Option.some.inj h).symm⟩

theorem accepted_recv {c c' : Channel α} (h : c.recv = some c') :
    c'.accepted = c.accepted := by
  obtain ⟨-, a, queue, hq, rfl⟩ := recv_eq_some h
  simp [accepted, hq]

/-- The receiver has a first part of what was accepted. -/
theorem taken_initial (c : Channel α) : c.taken <+: c.accepted := List.prefix_append _ _

end Channel

/-! ### Entries of a finite map -/

namespace AList

variable {α : Type*} {β γ : α → Type*} [DecidableEq α]

/-- The entries that survive `f`, each with its new value. -/
def filterMap (f : ∀ a, β a → Option (γ a)) (m : AList β) : AList γ where
  entries := m.entries.filterMap fun e => (f e.1 e.2).map (Sigma.mk e.1)
  nodupKeys := by
    have hkeys : List.Sublist
        (m.entries.filterMap fun e => (f e.1 e.2).map (Sigma.mk e.1)).keys m.entries.keys := by
      induction m.entries with
      | nil => exact .slnil
      | cons e es ih =>
          rw [List.filterMap_cons]
          cases f e.1 e.2 with
          | none => exact ih.cons e.1
          | some b => exact ih.cons_cons e.1
    exact hkeys.nodup m.nodupKeys

/-- Inserting puts the entry in front of those of other keys. -/
theorem entries_insert_eq_filter (m : AList β) (a : α) (b : β a) :
    (m.insert a b).entries = ⟨a, b⟩ :: m.entries.filter fun e => e.1 ≠ a := by
  have hkerase : ∀ es : List (Sigma β), es.NodupKeys →
      es.kerase a = es.filter fun e => e.1 ≠ a := by
    intro es
    induction es with
    | nil => intro _; rfl
    | cons e es ih =>
        intro hes
        obtain ⟨he, hrest⟩ := List.nodupKeys_cons.mp hes
        by_cases hea : a = e.1
        · subst hea
          rw [List.kerase_cons_eq rfl, List.filter_cons_of_neg (by simp)]
          refine (List.filter_eq_self.mpr ?_).symm
          intro x hx
          have hne : x.1 ≠ e.1 := fun heq => he (heq ▸ List.mem_keys_of_mem hx)
          simpa using hne
        · rw [List.kerase_cons_ne hea, List.filter_cons_of_pos (by simpa using Ne.symm hea),
            ih hrest]
  rw [AList.entries_insert, hkerase _ m.nodupKeys]

theorem lookup_filterMap (f : ∀ a, β a → Option (γ a)) (m : AList β) (a : α) :
    (m.filterMap f).lookup a = (m.lookup a).bind (f a) := by
  obtain ⟨es, hes⟩ := m
  change List.dlookup a (es.filterMap fun e => (f e.1 e.2).map (Sigma.mk e.1)) =
    (List.dlookup a es).bind (f a)
  induction es with
  | nil => rfl
  | cons e es ih =>
      obtain ⟨k, b⟩ := e
      obtain ⟨hk, hrest⟩ := List.nodupKeys_cons.mp hes
      rw [List.filterMap_cons]
      by_cases hka : a = k
      · subst hka
        rw [List.dlookup_cons_eq]
        have hnone : List.dlookup a es = none := List.dlookup_eq_none.mpr hk
        cases hf : f a b with
        | none =>
            show List.dlookup a (es.filterMap _) = _
            rw [ih hrest, hnone]
            simp [hf]
        | some c => simp [hf]
      · rw [List.dlookup_cons_ne _ _ hka]
        cases f k b with
        | none => exact ih hrest
        | some c =>
            show List.dlookup a (⟨k, c⟩ :: _) = _
            rw [List.dlookup_cons_ne _ _ hka]
            exact ih hrest

end AList
