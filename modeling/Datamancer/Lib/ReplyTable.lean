import Datamancer.Lib.Oneshot
import Mathlib.Data.List.Basic

/-!
# Datamancer.Lib.ReplyTable

A table of the senders that wait for a reply, by the key that the reply will carry. Whoever
registers has a number, which no one has had before, and holds the receiver; an entry goes
with its sender. A table that is closed has dropped all of them.

A receiver gets what was resolved under its own key, or waits with its entry in the table
(`Serves`).
-/

structure ReplyTable (κ α : Type*) where
  entries : List (κ × Nat)
  reply : Nat → Oneshot α
  next : Nat
  closed : Bool

namespace ReplyTable

variable {κ α : Type*} {t : ReplyTable κ α} {k : κ} {c : Nat}

def new : ReplyTable κ α := ⟨[], fun _ => .dropped, 0, false⟩

section Operations

variable [DecidableEq κ]

/-- The entry of a key goes, and with it the sender. -/
def remove (t : ReplyTable κ α) (k : κ) : ReplyTable κ α :=
  { t with
    entries := t.entries.filter (·.1 ≠ k)
    reply := fun c => if (k, c) ∈ t.entries then (t.reply c).dropSender else t.reply c }

/-- A reply takes the entry of its key, if there is one, and goes to its receiver. -/
def resolve (t : ReplyTable κ α) (k : κ) (a : α) : ReplyTable κ α :=
  { t with
    entries := t.entries.filter (·.1 ≠ k)
    reply := fun c => if (k, c) ∈ t.entries then (t.reply c).send a else t.reply c }

/-- A new receiver; an entry that its key had is replaced. -/
def register (t : ReplyTable κ α) (k : κ) : ReplyTable κ α :=
  { t.remove k with
    entries := (k, t.next) :: t.entries.filter (·.1 ≠ k)
    reply := fun c => if c = t.next then .waiting else (t.remove k).reply c
    next := t.next + 1 }

end Operations

def close (t : ReplyTable κ α) : ReplyTable κ α :=
  { t with
    entries := []
    reply := fun c => if c ∈ t.entries.map Prod.snd then (t.reply c).dropSender else t.reply c
    closed := true }

/-! ### Well-formed tables -/

/-- Each entry has a sender of its own. -/
structure Wf (t : ReplyTable κ α) : Prop where
  waiting : ∀ e ∈ t.entries, e.2 < t.next ∧ t.reply e.2 = .waiting
  call_eq : ∀ e ∈ t.entries, ∀ e' ∈ t.entries, e.2 = e'.2 → e = e'
  closed : t.closed = true → t.entries = []

/-- Whoever holds the receiver for a key has a reply to that key, or has its entry. -/
structure Serves (t : ReplyTable κ α) (key : α → κ) (k : κ) (c : Nat) : Prop where
  lt : c < t.next
  own : ∀ e ∈ t.entries, e.2 = c → e = (k, c)
  entry : t.reply c = .waiting → (k, c) ∈ t.entries
  sent : ∀ a, t.reply c = .sent a → key a = k

/-- The number is of the past: no entry has it. -/
structure Absent (t : ReplyTable κ α) (c : Nat) : Prop where
  lt : c < t.next
  ne : ∀ e ∈ t.entries, e.2 ≠ c

variable {key : α → κ}

theorem wf_new : (new : ReplyTable κ α).Wf :=
  ⟨fun _ he => absurd he List.not_mem_nil, fun _ he => absurd he List.not_mem_nil, fun _ => rfl⟩

/-- Once the table is closed nobody waits. -/
theorem Serves.ready (hs : t.Serves key k c) (h : t.Wf) (hclosed : t.closed = true) :
    (t.reply c).Ready := by
  intro hwaiting
  have hentry := hs.entry hwaiting
  rw [h.closed hclosed] at hentry
  exact absurd hentry List.not_mem_nil

theorem wf_close (t : ReplyTable κ α) : t.close.Wf :=
  ⟨fun _ he => absurd he List.not_mem_nil, fun _ he => absurd he List.not_mem_nil, fun _ => rfl⟩

theorem Serves.close (hs : t.Serves key k c) : t.close.Serves key k c where
  lt := hs.lt
  own := fun _ he => absurd he List.not_mem_nil
  entry := fun hwaiting => by
    simp only [ReplyTable.close] at hwaiting
    split_ifs at hwaiting with hmem
    · exact absurd hwaiting (Oneshot.ready_dropSender _)
    · exact absurd (List.mem_map.mpr ⟨_, hs.entry hwaiting, rfl⟩) hmem
  sent := fun a ha => by
    simp only [ReplyTable.close] at ha
    split_ifs at ha
    · exact hs.sent a (by cases hr : t.reply c <;> simp_all [Oneshot.dropSender])
    · exact hs.sent a ha

theorem Absent.close (h : t.Absent c) : t.close.Absent c :=
  ⟨h.lt, fun _ he => absurd he List.not_mem_nil⟩

/-- The entry of another key is not of this key's receiver. -/
theorem Wf.not_mem_of_ne (h : t.Wf) {e : κ × Nat} (he : e ∈ t.entries) (hne : e.1 ≠ k) :
    (k, e.2) ∉ t.entries := fun hmem => hne (by rw [h.call_eq e he _ hmem rfl])

section Operations

variable [DecidableEq κ]

theorem mem_filter_ne {e : κ × Nat} {l : List (κ × Nat)} :
    e ∈ l.filter (·.1 ≠ k) ↔ e ∈ l ∧ e.1 ≠ k := by
  simp

/-- What takes an entry out and leaves the others be keeps the table well-formed. -/
theorem Wf.filter (h : t.Wf) {t' : ReplyTable κ α}
    (hentries : t'.entries = t.entries.filter (·.1 ≠ k)) (hnext : t.next ≤ t'.next)
    (hreply : ∀ e ∈ t.entries, e.1 ≠ k → t'.reply e.2 = t.reply e.2)
    (hclosed : t'.closed = t.closed) : t'.Wf := by
  refine ⟨fun e he => ?_, fun e he e' he' => ?_, fun hc => ?_⟩
  · rw [hentries] at he
    obtain ⟨hmem, hne⟩ := mem_filter_ne.mp he
    obtain ⟨hlt, hwaiting⟩ := h.waiting e hmem
    exact ⟨Nat.lt_of_lt_of_le hlt hnext, (hreply e hmem hne).trans hwaiting⟩
  · rw [hentries] at he he'
    exact h.call_eq e (mem_filter_ne.mp he).1 e' (mem_filter_ne.mp he').1
  · rw [hentries, h.closed (hclosed ▸ hc)]
    rfl

theorem Wf.remove (h : t.Wf) (k : κ) : (t.remove k).Wf :=
  h.filter rfl (Nat.le_refl _) (fun _ he hne => if_neg (h.not_mem_of_ne he hne)) rfl

theorem Wf.resolve (h : t.Wf) (k : κ) (a : α) : (t.resolve k a).Wf :=
  h.filter rfl (Nat.le_refl _) (fun _ he hne => if_neg (h.not_mem_of_ne he hne)) rfl

theorem Wf.register (h : t.Wf) (hopen : t.closed = false) (k : κ) : (t.register k).Wf := by
  have hr := h.remove k
  refine ⟨fun e he => ?_, fun e he e' he' hcall => ?_, fun hc => ?_⟩
  · rcases List.mem_cons.mp he with rfl | he
    · exact ⟨Nat.lt_succ_self _, if_pos rfl⟩
    · obtain ⟨hlt, hwaiting⟩ := hr.waiting e he
      exact ⟨Nat.lt_succ_of_lt hlt, (if_neg (Nat.ne_of_lt hlt)).trans hwaiting⟩
  · rcases List.mem_cons.mp he with rfl | he <;> rcases List.mem_cons.mp he' with rfl | he'
    · rfl
    · exact absurd hcall.symm (Nat.ne_of_lt (hr.waiting e' he').1)
    · exact absurd hcall (Nat.ne_of_lt (hr.waiting e he).1)
    · exact hr.call_eq e he e' he' hcall
  · exact absurd (hopen.symm.trans hc) (by simp)

theorem serves_register (h : t.Wf) (key : α → κ) (k : κ) :
    (t.register k).Serves key k t.next where
  lt := Nat.lt_succ_self _
  own := fun e he hcall => by
    rcases List.mem_cons.mp he with rfl | he
    · rfl
    · exact absurd hcall (Nat.ne_of_lt ((h.remove k).waiting e he).1)
  entry := fun _ => List.mem_cons_self
  sent := fun a ha => by
    simp only [ReplyTable.register, if_true] at ha
    cases ha

theorem Serves.resolve (hs : t.Serves key k c) (a : α) :
    (t.resolve (key a) a).Serves key k c where
  lt := hs.lt
  own := fun e he => hs.own e (mem_filter_ne.mp he).1
  entry := fun hwaiting => by
    simp only [ReplyTable.resolve] at hwaiting
    split_ifs at hwaiting with hmem
    · exact absurd hwaiting (Oneshot.ready_send _ a)
    · have hentry := hs.entry hwaiting
      exact mem_filter_ne.mpr ⟨hentry, fun hk => hmem (by rw [← hk]; exact hentry)⟩
  sent := fun b hb => by
    simp only [ReplyTable.resolve] at hb
    split_ifs at hb with hmem
    · have hk : (key a, c) = (k, c) := hs.own _ hmem rfl
      cases hr : t.reply c with
      | waiting =>
          rw [hr] at hb
          cases hb
          exact (Prod.mk.inj hk).1
      | sent b' =>
          rw [hr] at hb
          cases hb
          exact hs.sent b hr
      | dropped =>
          rw [hr] at hb
          cases hb
    · exact hs.sent b hb

theorem Absent.filter (h : t.Absent c) {t' : ReplyTable κ α}
    (hentries : t'.entries = t.entries.filter (·.1 ≠ k)) (hnext : t'.next = t.next) :
    t'.Absent c :=
  ⟨hnext ▸ h.lt, fun e he => h.ne e (mem_filter_ne.mp (hentries ▸ he)).1⟩

theorem Absent.register (h : t.Absent c) (k : κ) : (t.register k).Absent c where
  lt := Nat.lt_succ_of_lt h.lt
  ne := fun e he => by
    rcases List.mem_cons.mp he with rfl | he
    · exact Nat.ne_of_gt h.lt
    · exact h.ne e (mem_filter_ne.mp he).1

/-- The one entry of a receiver is removed under its key. -/
theorem Serves.absent_remove (hs : t.Serves key k c) : (t.remove k).Absent c where
  lt := hs.lt
  ne := fun e he hcall => by
    obtain ⟨hmem, hne⟩ := mem_filter_ne.mp he
    exact hne (by rw [hs.own e hmem hcall])

end Operations

end ReplyTable
