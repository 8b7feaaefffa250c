import Datamancer.Lib.ActionSystem
import Datamancer.Lib.WatchChannel
import Mathlib.Algebra.BigOperators.Group.Finset.Piecewise
import Mathlib.Algebra.Order.BigOperators.Group.Finset
import Mathlib.Logic.Function.Basic

/-!
# Datamancer.Lib.RebuildOnUse

A value built from several watched sources and kept, and rebuilt by the next use of it after any
of them has news.

The owner holds one receiver a source, captured before the first build. A use asks each receiver
in turn whether there is news, which is then seen; if any had some, the sources are read again, one
after the other, and the value built anew. Sends fall between any two of these steps. What a use
hands out is nevertheless no older, reading by reading, than what the source held when the use
began (`fresh`), because a receiver never has seen more than the build has read (`Settled`). A
receiver whose sender is gone is news once and is then given up, so a rebuild is paid for by a send
or by a closing (`rebuilds_le`).
-/

namespace RebuildOnUse

open ActionSystem

/-! ### Sources -/

/-- A watched source, with every value it has held. -/
structure Source (α : Type*) where
  chan : WatchChannel α
  sent : List α
  length : sent.length = chan.version + 1
  holds : sent[chan.version]? = some chan.value

namespace Source

variable {α : Type*}

def new (v : α) : Source α := ⟨.new v, [v], rfl, rfl⟩

def send (s : Source α) (v : α) : Source α where
  chan := s.chan.send v
  sent := s.sent ++ [v]
  length := by simp [WatchChannel.send, s.length]
  holds := by
    show (s.sent ++ [v])[s.chan.version + 1]? = some v
    rw [← s.length]
    exact List.getElem?_concat_length

def close (s : Source α) : Source α := { s with chan := s.chan.close }

/-- A value the source held at this version or has held since. -/
def HeldSince (s : Source α) (n : Nat) (v : α) : Prop := ∃ m, n ≤ m ∧ s.sent[m]? = some v

/-- What a source held it has held. -/
theorem getElem?_send {s : Source α} {v : α} {n : Nat} {a : α} (h : s.sent[n]? = some a) :
    (s.send v).sent[n]? = some a := by
  show (s.sent ++ [v])[n]? = some a
  rw [List.getElem?_append_left (List.getElem?_eq_some_iff.mp h).1, h]

end Source

/-! ### The state -/

/-- What a build reads: of each place it reads a source at, the value and the version of it. -/
structure Readings {ι κ : Type} (V : ι → Type) (src : κ → ι) where
  value : ∀ k, V (src k)
  version : κ → Nat

section System

variable {ι κ : Type} {V : ι → Type} {src : κ → ι}

/-- Where the owner is: it builds for the first time, or a use is under way. -/
inductive Phase (V : ι → Type) (src : κ → ι)
  /-- The receivers of these are still to be captured. -/
  | capturing (todo : List ι)
  | idle
  /-- These are still to be asked for news, and whether there has been some. -/
  | checking (todo : List ι) (changed : Bool)
  /-- These readings are still to be made. -/
  | reading (todo : List κ) (got : Readings V src)

structure State (V : ι → Type) (src : κ → ι) where
  source : ∀ i, Source (V i)
  /-- The version each cached receiver has seen; none is cached of a source that is not watched or
  whose sender is gone. -/
  slot : ι → Option Nat
  /-- What the value handed out is built from. -/
  built : Readings V src
  phase : Phase V src
  /-- The versions when the use under way, or the first build, began. -/
  since : ι → Nat
  /-- Of each use, when it began and what it was handed. -/
  handed : List ((ι → Nat) × Readings V src)
  rebuilds : Nat
  /-- How often each receiver had news. -/
  news : ι → Nat

inductive Action (V : ι → Type)
  | send (i : ι) (v : V i)
  | close (i : ι)
  /-- A use begins. -/
  | use
  /-- The owner takes its next step. -/
  | next

namespace State

def version (s : State V src) (i : ι) : Nat := (s.source i).chan.version

def closed (s : State V src) (i : ι) : Bool := (s.source i).chan.closed

/-- Nothing will be sent by this source any more. -/
def Quiet (watched : ι → Bool) (s : State V src) (i : ι) : Prop :=
  watched i = false ∨ s.closed i = true

end State

/-! ### What is kept -/

/-- A reading is of something the source has held. -/
def Readings.Genuine (r : Readings V src) (s : State V src) (k : κ) : Prop :=
  (s.source (src k)).sent[r.version k]? = some (r.value k)

variable (watched : ι → Bool)

/-- A reading the receiver vouches for: what the receiver has seen has been read, and what has no
receiver has nothing newer. -/
structure Settled (s : State V src) (r : Readings V src) (k : κ) : Prop where
  genuine : r.Genuine s k
  seen : ∀ n, s.slot (src k) = some n → n ≤ r.version k
  given : s.slot (src k) = none → s.Quiet watched (src k) ∧ r.version k = s.version (src k)

/-- A source without a receiver has nothing more to tell. -/
def Covered (s : State V src) : Prop := ∀ i, s.slot i = none → s.Quiet watched i

/-- Where the owner is, what it has done holds of the sources done, whatever has been sent since. -/
def PhaseInv (s : State V src) : Prop :=
  match s.phase with
  | .idle => Covered watched s ∧ ∀ k, Settled watched s s.built k
  | .capturing todo => ∀ i, i ∉ todo → s.slot i = none → s.Quiet watched i
  | .checking todo changed => Covered watched s ∧ (changed = false →
      ∀ k, Settled watched s s.built k ∧ (src k ∉ todo → s.since (src k) ≤ s.built.version k))
  | .reading todo got => Covered watched s ∧
      ∀ k, k ∉ todo → Settled watched s got k ∧ s.since (src k) ≤ got.version k

/-- What was handed out is of what each source held when the use began, or of something newer. -/
def Fresh (s : State V src) (since : ι → Nat) (r : Readings V src) : Prop :=
  ∀ k, since (src k) ≤ r.version k ∧ r.Genuine s k

/-- The news a receiver has had are versions it has seen, and the closing that ended it. -/
def Paid (s : State V src) (i : ι) : Prop :=
  match s.slot i with
  | some n => s.news i ≤ n
  | none => s.news i ≤ s.version i + (s.closed i).toNat

structure Inv (s : State V src) : Prop where
  slot : ∀ i n, s.slot i = some n → n ≤ s.version i
  since : ∀ i, s.since i ≤ s.version i
  phase : PhaseInv watched s
  handed : ∀ h ∈ s.handed, Fresh s h.1 h.2
  paid : ∀ i, Paid s i
  unheard : ∀ todo, s.phase = .capturing todo → s.news = fun _ => 0

variable {watched}

/-- What a send or a closing does to the state: nothing that was held is lost, and what is quiet
does not change. -/
structure Moved (watched : ι → Bool) (s s' : State V src) : Prop where
  slot : s'.slot = s.slot
  built : s'.built = s.built
  phase : s'.phase = s.phase
  since : s'.since = s.since
  handed : s'.handed = s.handed
  news : s'.news = s.news
  rebuilds : s'.rebuilds = s.rebuilds
  version : ∀ i, s.version i ≤ s'.version i
  closed : ∀ i, s.closed i = true → s'.closed i = true
  sent : ∀ (i : ι) (n : Nat) (v : V i),
    (s.source i).sent[n]? = some v → (s'.source i).sent[n]? = some v
  quiet : ∀ i, s.Quiet watched i → s'.version i = s.version i

namespace Moved

variable {s s' : State V src}

theorem quiet_iff (h : Moved watched s s') {i : ι} (hi : s.Quiet watched i) :
    s'.Quiet watched i :=
  hi.imp_right (h.closed i)

theorem covered (h : Moved watched s s') (hs : Covered watched s) : Covered watched s' := by
  intro i hi
  rw [h.slot] at hi
  exact h.quiet_iff (hs i hi)

theorem settled (h : Moved watched s s') {r : Readings V src} {k : κ}
    (hr : Settled watched s r k) : Settled watched s' r k where
  genuine := h.sent _ _ _ hr.genuine
  seen := by rw [h.slot]; exact hr.seen
  given := by
    rw [h.slot]
    intro hnone
    obtain ⟨hquiet, hversion⟩ := hr.given hnone
    exact ⟨h.quiet_iff hquiet, hversion.trans (h.quiet _ hquiet).symm⟩

theorem fresh (h : Moved watched s s') {since : ι → Nat} {r : Readings V src}
    (hr : Fresh s since r) : Fresh s' since r :=
  fun k => ⟨(hr k).1, h.sent _ _ _ (hr k).2⟩

theorem paid (h : Moved watched s s') {i : ι} (hi : Paid s i) : Paid s' i := by
  have hversion := h.version i
  have hclosed : (s.closed i).toNat ≤ (s'.closed i).toNat := by
    cases hc : s.closed i with
    | false => exact Nat.zero_le _
    | true => rw [h.closed i hc]
  unfold Paid at hi ⊢
  rw [h.slot, h.news]
  cases hslot : s.slot i with
  | some n =>
      rw [hslot] at hi
      exact hi
  | none =>
      rw [hslot] at hi
      dsimp only at hi ⊢
      omega

theorem phaseInv (h : Moved watched s s') (hs : PhaseInv watched s) : PhaseInv watched s' := by
  unfold PhaseInv at hs ⊢
  rw [h.phase, h.built, h.since]
  cases hphase : s.phase with
  | idle =>
      rw [hphase] at hs
      exact ⟨h.covered hs.1, fun k => h.settled (hs.2 k)⟩
  | capturing todo =>
      rw [hphase] at hs
      intro i hi hnone
      rw [h.slot] at hnone
      exact h.quiet_iff (hs i hi hnone)
  | checking todo changed =>
      rw [hphase] at hs
      exact ⟨h.covered hs.1, fun hfalse k =>
        ⟨h.settled (hs.2 hfalse k).1, (hs.2 hfalse k).2⟩⟩
  | reading todo got =>
      rw [hphase] at hs
      exact ⟨h.covered hs.1, fun k hk => ⟨h.settled (hs.2 k hk).1, (hs.2 k hk).2⟩⟩

theorem inv (h : Moved watched s s') (hs : Inv watched s) : Inv watched s' where
  slot := by
    rw [h.slot]
    exact fun i n hn => (hs.slot i n hn).trans (h.version i)
  since := by
    rw [h.since]
    exact fun i => (hs.since i).trans (h.version i)
  phase := h.phaseInv hs.phase
  handed := by
    rw [h.handed]
    exact fun r hr => h.fresh (hs.handed r hr)
  paid := fun i => h.paid (hs.paid i)
  unheard := by
    rw [h.phase, h.news]
    exact hs.unheard

end Moved

/-! ### Rebuilds -/

section Rebuilds

variable [Fintype ι] {s : State V src}

/-- The rebuilds, and the one news has been had for, are as many as the news at most. -/
def Earned (s : State V src) : Prop :=
  s.rebuilds + (match s.phase with | .checking _ true => 1 | _ => 0) ≤ ∑ i, s.news i

/-- What has been earned was paid for by a send or by a closing. -/
theorem Inv.rebuilds_le (hs : Inv watched s) (hearned : Earned s) :
    s.rebuilds ≤ ∑ i, (s.version i + (s.closed i).toNat) := by
  have hnews : ∀ i, s.news i ≤ s.version i + (s.closed i).toNat := by
    intro i
    have hpaid := hs.paid i
    unfold Paid at hpaid
    split at hpaid
    next n hslot => exact (hpaid.trans (hs.slot i n hslot)).trans (Nat.le_add_right _ _)
    next => exact hpaid
  calc s.rebuilds ≤ ∑ i, s.news i := (Nat.le_add_right _ _).trans hearned
    _ ≤ ∑ i, (s.version i + (s.closed i).toNat) := Finset.sum_le_sum fun i _ => hnews i

end Rebuilds

/-! ### Asking a receiver -/

variable (watched : ι → Bool) (checks : List ι) (reads : List κ)

/-- The owner before its first build. -/
def start (init : ∀ i, V i) : State V src where
  source := fun i => .new (init i)
  slot := fun _ => none
  built := ⟨fun k => init (src k), fun _ => 0⟩
  phase := .capturing checks
  since := fun _ => 0
  handed := []
  rebuilds := 0
  news := fun _ => 0

def handOut (s : State V src) (r : Readings V src) : State V src :=
  { s with phase := .idle, built := r, handed := s.handed ++ [(s.since, r)] }

/-- A receiver is asked for news: whether there is some, and what it has seen then. -/
def news? (s : State V src) (i : ι) : Bool × Option Nat :=
  match s.slot i with
  | none => (false, none)
  | some seen =>
      if s.closed i then (true, none)
      else if (s.source i).chan.Unread seen then (true, some (s.version i))
      else (false, some seen)

variable {watched checks reads} {s s' : State V src}

theorem not_quiet {i : ι} (h : (watched i && !s.closed i) = true) : ¬ s.Quiet watched i := by
  rw [Bool.and_eq_true, Bool.not_eq_true'] at h
  rintro (hwatched | hclosed)
  · exact absurd h.1 (by simp [hwatched])
  · exact absurd h.2 (by simp [hclosed])

/-- What asking one receiver finds. -/
theorem news?_cases (s : State V src) (i : ι) :
    (s.slot i = none ∧ news? s i = (false, none)) ∨
    (s.closed i = true ∧ news? s i = (true, none) ∧ ∃ seen, s.slot i = some seen) ∨
    (∃ seen, s.slot i = some seen ∧ seen ≠ s.version i ∧
      news? s i = (true, some (s.version i))) ∨
    (s.slot i = some (s.version i) ∧ news? s i = (false, some (s.version i))) := by
  unfold news?
  cases hslot : s.slot i with
  | none => exact .inl ⟨rfl, rfl⟩
  | some seen =>
      cases hclosed : s.closed i with
      | true => exact .inr (.inl ⟨rfl, rfl, seen, rfl⟩)
      | false =>
          by_cases hunread : (s.source i).chan.Unread seen
          · exact .inr (.inr (.inl ⟨seen, rfl, hunread, by simp [hunread]⟩))
          · obtain rfl : seen = s.version i := not_not.mp hunread
            exact .inr (.inr (.inr ⟨rfl, by simp [hunread]⟩))

/-- Without news, what the receiver vouches for is of the version the source holds. -/
theorem version_of_false {r : Readings V src} {k : κ} (hr : Settled watched s r k)
    (h : (news? s (src k)).1 = false) : s.version (src k) ≤ r.version k := by
  obtain ⟨hnone, -⟩ | ⟨-, hn, -⟩ | ⟨_, -, -, hn⟩ | ⟨hsome, -⟩ := news?_cases s (src k)
  · exact (hr.given hnone).2.ge
  · rw [hn] at h
    cases h
  · rw [hn] at h
    cases h
  · exact hr.seen _ hsome

theorem inv_start (init : ∀ i, V i) (hchecks : ∀ i, i ∈ checks) :
    Inv watched (start checks init : State V src) where
  slot := fun i n h => by cases h
  since := fun _ => Nat.zero_le _
  phase := fun i hnot => absurd (hchecks i) hnot
  handed := fun h hh => by cases hh
  paid := fun _ => Nat.zero_le _
  unheard := fun _ _ => rfl

/-- A use may begin whenever the owner is idle. -/
theorem inv_use (hs : Inv watched s) (hchecks : ∀ i, i ∈ checks) (hphase : s.phase = .idle) :
    Inv watched { s with phase := .checking checks false, since := s.version } where
  slot := hs.slot
  since := fun _ => Nat.le_refl _
  phase := by
    have hidle := hs.phase
    rw [PhaseInv, hphase] at hidle
    exact ⟨hidle.1, fun _ k => ⟨⟨(hidle.2 k).genuine, (hidle.2 k).seen, (hidle.2 k).given⟩,
      fun hnot => absurd (hchecks _) hnot⟩⟩
  handed := hs.handed
  paid := hs.paid
  unheard := fun _ h => by cases h

/-- What has been settled since the use began may be handed out. -/
theorem inv_handOut (hs : Inv watched s) (hcov : Covered watched s) {r : Readings V src}
    (hr : ∀ k, Settled watched s r k ∧ s.since (src k) ≤ r.version k) :
    Inv watched (handOut s r) where
  slot := hs.slot
  since := hs.since
  phase := ⟨hcov, fun k => ⟨(hr k).1.genuine, (hr k).1.seen, (hr k).1.given⟩⟩
  handed := by
    intro h hh
    rcases List.mem_append.mp hh with hold | hnew
    · exact hs.handed h hold
    · obtain rfl := List.mem_singleton.mp hnew
      exact fun k => ⟨(hr k).2, (hr k).1.genuine⟩
  paid := hs.paid
  unheard := fun _ h => by cases h

/-- The sources are read once nothing unread is left without a receiver. -/
theorem inv_reading (hs : Inv watched s) (hreads : ∀ k, k ∈ reads) (hcov : Covered watched s)
    (n : Nat) :
    Inv watched { s with phase := .reading reads s.built, rebuilds := n } where
  slot := hs.slot
  since := hs.since
  phase := ⟨hcov, fun k hnot => absurd (hreads k) hnot⟩
  handed := hs.handed
  paid := hs.paid
  unheard := fun _ h => by cases h

/-! ### Capturing and asking -/

variable [DecidableEq ι]

/-- A receiver is captured with what the source now holds marked seen. -/
def capture (watched : ι → Bool) (s : State V src) (i : ι) : State V src :=
  { s with slot := Function.update s.slot i (if watched i then some (s.version i) else none) }

def ask (s : State V src) (i : ι) : State V src :=
  { s with
    slot := Function.update s.slot i (news? s i).2
    news := Function.update s.news i (s.news i + (news? s i).1.toNat) }

@[simp] theorem version_ask (i j : ι) : (ask s i).version j = s.version j := rfl

@[simp] theorem closed_ask (i j : ι) : (ask s i).closed j = s.closed j := rfl

@[simp] theorem slot_ask_self (i : ι) : (ask s i).slot i = (news? s i).2 :=
  Function.update_self ..

@[simp] theorem news_ask_self (i : ι) :
    (ask s i).news i = s.news i + (news? s i).1.toNat :=
  Function.update_self ..

theorem slot_ask_of_ne {i j : ι} (h : j ≠ i) : (ask s i).slot j = s.slot j :=
  Function.update_of_ne h ..

theorem news_ask_of_ne {i j : ι} (h : j ≠ i) : (ask s i).news j = s.news j :=
  Function.update_of_ne h ..

/-- Without news the receiver is as it was. -/
theorem ask_of_false {i : ι} (h : (news? s i).1 = false) : ask s i = s := by
  have hslot : (news? s i).2 = s.slot i := by
    obtain ⟨hnone, hr⟩ | ⟨-, hr, -⟩ | ⟨_, -, -, hr⟩ | ⟨hsome, hr⟩ := news?_cases s i
    · rw [hr, hnone]
    · rw [hr] at h
      cases h
    · rw [hr] at h
      cases h
    · rw [hr, hsome]
  simp [ask, h, hslot]

theorem slot_ask_le (hs : ∀ i n, s.slot i = some n → n ≤ s.version i) (i j : ι) (n : Nat)
    (hn : (ask s i).slot j = some n) : n ≤ s.version j := by
  by_cases hj : j = i
  · subst hj
    rw [slot_ask_self] at hn
    obtain ⟨-, hr⟩ | ⟨-, hr, -⟩ | ⟨_, -, -, hr⟩ | ⟨-, hr⟩ := news?_cases s j <;> rw [hr] at hn
    · cases hn
    · cases hn
    · exact (Option.some.inj hn).ge
    · exact (Option.some.inj hn).ge
  · rw [slot_ask_of_ne hj] at hn
    exact hs j n hn

theorem covered_ask (hs : Covered watched s) (i : ι) : Covered watched (ask s i) := by
  intro j hj
  by_cases hji : j = i
  · subst hji
    rw [slot_ask_self] at hj
    obtain ⟨hnone, -⟩ | ⟨hclosed, -, -⟩ | ⟨_, -, -, hr⟩ | ⟨-, hr⟩ := news?_cases s j
    · exact hs j hnone
    · exact .inr hclosed
    · rw [hr] at hj
      cases hj
    · rw [hr] at hj
      cases hj
  · rw [slot_ask_of_ne hji] at hj
    exact hs j hj

/-- A receiver's news is paid for by what it has seen, or by the closing. -/
theorem paid_ask (hslot : ∀ i n, s.slot i = some n → n ≤ s.version i) {j : ι} (hs : Paid s j)
    (i : ι) : Paid (ask s i) j := by
  by_cases hj : j = i
  · subst hj
    unfold Paid at hs ⊢
    rw [slot_ask_self, news_ask_self, version_ask, closed_ask]
    obtain ⟨hnone, hr⟩ | ⟨hclosed, hr, seen, hsome⟩ | ⟨seen, hsome, hne, hr⟩ | ⟨hsome, hr⟩ :=
      news?_cases s j
    · rw [hnone] at hs
      rw [hr]
      exact hs
    · have hle := hslot j seen hsome
      rw [hsome] at hs
      rw [hr, hclosed]
      dsimp only [Bool.toNat_true] at hs ⊢
      omega
    · have hle := hslot j seen hsome
      rw [hsome] at hs
      rw [hr]
      dsimp only [Bool.toNat_true] at hs ⊢
      omega
    · rw [hsome] at hs
      rw [hr]
      exact hs
  · unfold Paid at hs ⊢
    rw [slot_ask_of_ne hj, news_ask_of_ne hj, version_ask, closed_ask]
    exact hs

theorem inv_capture {i : ι} {todo : List ι} (hs : Inv watched s)
    (hphase : s.phase = .capturing (i :: todo)) :
    Inv watched { capture watched s i with phase := .capturing todo } := by
  have hzero : s.news = fun _ => 0 := hs.unheard _ hphase
  have hpast := hs.phase
  rw [PhaseInv, hphase] at hpast
  constructor
  case slot =>
    intro j n hn
    simp only [capture] at hn
    by_cases hj : j = i
    · subst hj
      rw [Function.update_self] at hn
      split at hn
      · exact (Option.some.inj hn).ge
      · cases hn
    · rw [Function.update_of_ne hj] at hn
      exact hs.slot j n hn
  case since => exact hs.since
  case phase =>
    intro j hj hnone
    simp only [capture] at hnone
    by_cases hji : j = i
    · subst hji
      rw [Function.update_self] at hnone
      split at hnone
      · cases hnone
      next hwatched => exact .inl (by simpa using hwatched)
    · rw [Function.update_of_ne hji] at hnone
      exact hpast j (by simp [hji, hj]) hnone
  case handed => exact hs.handed
  case paid =>
    intro j
    unfold Paid
    simp only [capture, hzero]
    split <;> exact Nat.zero_le _
  case unheard => exact fun _ _ => hzero

theorem inv_ask {i : ι} {todo : List ι} {changed : Bool} (hs : Inv watched s)
    (hphase : s.phase = .checking (i :: todo) changed) :
    Inv watched { ask s i with phase := .checking todo (changed || (news? s i).1) } := by
  have hpast := hs.phase
  rw [PhaseInv, hphase] at hpast
  constructor
  case slot => exact fun j n hn => slot_ask_le hs.slot i j n hn
  case since => exact hs.since
  case phase =>
    refine ⟨covered_ask hpast.1 i, fun hfalse => ?_⟩
    obtain ⟨hunchanged, hnews⟩ := Bool.or_eq_false_iff.mp hfalse
    rw [ask_of_false hnews]
    intro k
    obtain ⟨hsettled, hasked⟩ := hpast.2 hunchanged k
    refine ⟨⟨hsettled.genuine, hsettled.seen, hsettled.given⟩, fun hk => ?_⟩
    by_cases hki : src k = i
    · subst hki
      exact (hs.since _).trans (version_of_false hsettled hnews)
    · exact hasked (by simp [hki, hk])
  case handed => exact hs.handed
  case paid => exact fun j => paid_ask hs.slot (hs.paid j) i
  case unheard => exact fun _ h => by cases h

/-! ### Sending and closing -/

/-- What a source becomes by a send or a closing keeps what it had. -/
theorem moved_source {i : ι} {src' : Source (V i)} (hi : ¬ s.Quiet watched i)
    (hversion : s.version i ≤ src'.chan.version)
    (hclosed : s.closed i = true → src'.chan.closed = true)
    (hsent : ∀ (n : Nat) (v : V i), (s.source i).sent[n]? = some v → src'.sent[n]? = some v) :
    Moved watched s { s with source := Function.update s.source i src' } where
  slot := rfl
  built := rfl
  phase := rfl
  since := rfl
  handed := rfl
  news := rfl
  rebuilds := rfl
  version j := by
    by_cases hj : j = i
    · subst hj
      simpa [State.version] using hversion
    · simp [State.version, Function.update_of_ne hj]
  closed j := by
    by_cases hj : j = i
    · subst hj
      simpa [State.closed] using hclosed
    · simp [State.closed, Function.update_of_ne hj]
  sent j := by
    by_cases hj : j = i
    · subst hj
      simpa using hsent
    · simp [Function.update_of_ne hj]
  quiet j hquiet := by
    have hj : j ≠ i := fun h => hi (h ▸ hquiet)
    simp [State.version, Function.update_of_ne hj]

/-! ### Reading -/

section Reading

omit [DecidableEq ι]

variable [DecidableEq κ]

def Readings.read (r : Readings V src) (s : State V src) (k : κ) : Readings V src where
  value := Function.update r.value k (s.source (src k)).chan.value
  version := Function.update r.version k (s.version (src k))

/-- What is read now is settled. -/
theorem settled_read (hs : Inv watched s) (hcov : Covered watched s) (r : Readings V src)
    (k : κ) : Settled watched s (r.read s k) k where
  genuine := by
    simp only [Readings.Genuine, Readings.read, Function.update_self]
    exact (s.source (src k)).holds
  seen := by
    simp only [Readings.read, Function.update_self]
    exact hs.slot _
  given := by
    simp only [Readings.read, Function.update_self]
    exact fun hnone => ⟨hcov _ hnone, trivial⟩

theorem settled_read_of_ne {r : Readings V src} {k l : κ} (h : l ≠ k)
    (hr : Settled watched s r l) : Settled watched s (r.read s k) l where
  genuine := by
    simp only [Readings.Genuine, Readings.read, Function.update_of_ne h]
    exact hr.genuine
  seen := by
    simp only [Readings.read, Function.update_of_ne h]
    exact hr.seen
  given := by
    simp only [Readings.read, Function.update_of_ne h]
    exact hr.given

theorem inv_read {k : κ} {todo : List κ} {got : Readings V src} (hs : Inv watched s)
    (hphase : s.phase = .reading (k :: todo) got) :
    Inv watched { s with phase := .reading todo (got.read s k) } where
  slot := hs.slot
  since := hs.since
  phase := by
    have hpast := hs.phase
    rw [PhaseInv, hphase] at hpast
    refine ⟨hpast.1, fun l hl => ?_⟩
    by_cases hlk : l = k
    · subst hlk
      have hread := settled_read hs hpast.1 got l
      refine ⟨⟨hread.genuine, hread.seen, hread.given⟩, ?_⟩
      simp only [Readings.read, Function.update_self]
      exact hs.since (src l)
    · obtain ⟨hold, hsince⟩ := hpast.2 l (by simp [hlk, hl])
      have hread := settled_read_of_ne hlk hold
      refine ⟨⟨hread.genuine, hread.seen, hread.given⟩, ?_⟩
      simp only [Readings.read, Function.update_of_ne hlk]
      exact hsince
  handed := hs.handed
  paid := hs.paid
  unheard := fun _ h => by cases h

end Reading

/-! ### Runs -/

variable [DecidableEq κ] (watched checks reads)

def step (s : State V src) : Action V → Option (State V src)
  | .send i v =>
      if watched i && !s.closed i then
        some { s with source := Function.update s.source i ((s.source i).send v) }
      else none
  | .close i =>
      if watched i && !s.closed i then
        some { s with source := Function.update s.source i (s.source i).close }
      else none
  | .use =>
      match s.phase with
      | .idle => some { s with phase := .checking checks false, since := s.version }
      | _ => none
  | .next =>
      match s.phase with
      | .idle => none
      | .capturing [] => some { s with phase := .reading reads s.built }
      | .capturing (i :: todo) => some { capture watched s i with phase := .capturing todo }
      | .checking [] true =>
          some { s with phase := .reading reads s.built, rebuilds := s.rebuilds + 1 }
      | .checking [] false => some (handOut s s.built)
      | .checking (i :: todo) changed =>
          some { ask s i with phase := .checking todo (changed || (news? s i).1) }
      | .reading (k :: todo) got => some { s with phase := .reading todo (got.read s k) }
      | .reading [] got => some (handOut s got)

variable {watched checks reads}

theorem moved_of_send {i : ι} {v : V i} (h : step watched checks reads s (.send i v) = some s') :
    Moved watched s s' := by
  simp only [step] at h
  split at h
  next hopen =>
    obtain rfl := Option.some.inj h
    exact moved_source (not_quiet hopen) (Nat.le_succ _) id fun _ _ => Source.getElem?_send
  next => cases h

theorem moved_of_close {i : ι} (h : step watched checks reads s (.close i) = some s') :
    Moved watched s s' := by
  simp only [step] at h
  split at h
  next hopen =>
    obtain rfl := Option.some.inj h
    exact moved_source (not_quiet hopen) (Nat.le_refl _) (fun _ => rfl) fun _ _ => id
  next => cases h

theorem use_cases (h : step watched checks reads s .use = some s') :
    s.phase = .idle ∧ s' = { s with phase := .checking checks false, since := s.version } := by
  simp only [step] at h
  split at h
  next hphase => exact ⟨hphase, (Option.some.inj h).symm⟩
  next => cases h

/-- What a step of the owner can be. -/
theorem next_cases (h : step watched checks reads s .next = some s') :
    (s.phase = .capturing [] ∧ s' = { s with phase := .reading reads s.built }) ∨
    (∃ i todo, s.phase = .capturing (i :: todo) ∧
      s' = { capture watched s i with phase := .capturing todo }) ∨
    (s.phase = .checking [] true ∧
      s' = { s with phase := .reading reads s.built, rebuilds := s.rebuilds + 1 }) ∨
    (s.phase = .checking [] false ∧ s' = handOut s s.built) ∨
    (∃ i todo changed, s.phase = .checking (i :: todo) changed ∧
      s' = { ask s i with phase := .checking todo (changed || (news? s i).1) }) ∨
    (∃ k todo got, s.phase = .reading (k :: todo) got ∧
      s' = { s with phase := .reading todo (got.read s k) }) ∨
    (∃ got, s.phase = .reading [] got ∧ s' = handOut s got) := by
  simp only [step] at h
  split at h
  next => cases h
  next hphase => exact .inl ⟨hphase, (Option.some.inj h).symm⟩
  next i todo hphase => exact .inr (.inl ⟨i, todo, hphase, (Option.some.inj h).symm⟩)
  next hphase => exact .inr (.inr (.inl ⟨hphase, (Option.some.inj h).symm⟩))
  next hphase => exact .inr (.inr (.inr (.inl ⟨hphase, (Option.some.inj h).symm⟩)))
  next i todo changed hphase =>
    exact .inr (.inr (.inr (.inr (.inl ⟨i, todo, changed, hphase, (Option.some.inj h).symm⟩))))
  next k todo got hphase =>
    exact .inr (.inr (.inr (.inr (.inr (.inl ⟨k, todo, got, hphase, (Option.some.inj h).symm⟩)))))
  next got hphase =>
    exact .inr (.inr (.inr (.inr (.inr (.inr ⟨got, hphase, (Option.some.inj h).symm⟩)))))

theorem inv_next (hreads : ∀ k, k ∈ reads) (hs : Inv watched s)
    (h : step watched checks reads s .next = some s') : Inv watched s' := by
  have hpast := hs.phase
  obtain ⟨hphase, rfl⟩ | ⟨i, todo, hphase, rfl⟩ | ⟨hphase, rfl⟩ | ⟨hphase, rfl⟩ |
    ⟨i, todo, changed, hphase, rfl⟩ | ⟨k, todo, got, hphase, rfl⟩ | ⟨got, hphase, rfl⟩ :=
    next_cases h
  · rw [PhaseInv, hphase] at hpast
    exact inv_reading hs hreads (fun i => hpast i (by simp)) s.rebuilds
  · exact inv_capture hs hphase
  · rw [PhaseInv, hphase] at hpast
    exact inv_reading hs hreads hpast.1 _
  · rw [PhaseInv, hphase] at hpast
    exact inv_handOut hs hpast.1 fun k => ⟨(hpast.2 rfl k).1, (hpast.2 rfl k).2 (by simp)⟩
  · exact inv_ask hs hphase
  · exact inv_read hs hphase
  · rw [PhaseInv, hphase] at hpast
    exact inv_handOut hs hpast.1 fun k => hpast.2 k (by simp)

theorem inv_step (hchecks : ∀ i, i ∈ checks) (hreads : ∀ k, k ∈ reads) {a : Action V}
    (hs : Inv watched s) (h : step watched checks reads s a = some s') : Inv watched s' := by
  cases a with
  | send i v => exact (moved_of_send h).inv hs
  | close i => exact (moved_of_close h).inv hs
  | use =>
      obtain ⟨hphase, rfl⟩ := use_cases h
      exact inv_use hs hchecks hphase
  | next => exact inv_next hreads hs h

/-- What any use hands out is, reading by reading, what the source held when the use began or
has held since. -/
theorem fresh (hchecks : ∀ i, i ∈ checks) (hreads : ∀ k, k ∈ reads) {init : ∀ i, V i}
    {as : List (Action V)} {t : State V src}
    (h : run (step watched checks reads) (start checks init) as = some t)
    {since : ι → Nat} {r : Readings V src} (hr : (since, r) ∈ t.handed) (k : κ) :
    (t.source (src k)).HeldSince (since (src k)) (r.value k) := by
  have hinv : Inv watched t := invariant (inv_step hchecks hreads) (inv_start init hchecks) h
  obtain ⟨hsince, hheld⟩ := hinv.handed _ hr k
  exact ⟨r.version k, hsince, hheld⟩

variable [Fintype ι]

omit [DecidableEq κ] in
theorem sum_news_ask (i : ι) :
    ∑ j, (ask s i).news j = ∑ j, s.news j + (news? s i).1.toNat := by
  have hnews : ∀ j, (ask s i).news j = s.news j + if j = i then (news? s i).1.toNat else 0 := by
    intro j
    by_cases hj : j = i
    · subst hj
      simp
    · simp [news_ask_of_ne hj, hj]
  simp only [hnews, Finset.sum_add_distrib, Finset.sum_ite_eq', Finset.mem_univ, if_true]

theorem earned_step {a : Action V} (hs : Earned s)
    (h : step watched checks reads s a = some s') : Earned s' := by
  unfold Earned at hs ⊢
  cases a with
  | send i v =>
      have hmoved := moved_of_send h
      rw [hmoved.rebuilds, hmoved.phase, hmoved.news]
      exact hs
  | close i =>
      have hmoved := moved_of_close h
      rw [hmoved.rebuilds, hmoved.phase, hmoved.news]
      exact hs
  | use =>
      obtain ⟨hphase, rfl⟩ := use_cases h
      rw [hphase] at hs
      exact hs
  | next =>
      obtain ⟨hphase, rfl⟩ | ⟨i, todo, hphase, rfl⟩ | ⟨hphase, rfl⟩ | ⟨hphase, rfl⟩ |
        ⟨i, todo, changed, hphase, rfl⟩ | ⟨k, todo, got, hphase, rfl⟩ | ⟨got, hphase, rfl⟩ :=
        next_cases h
      all_goals rw [hphase] at hs
      -- only asking for news changes what has been earned
      case inr.inr.inr.inr.inl =>
        have hsum := sum_news_ask (s := s) i
        show s.rebuilds + _ ≤ ∑ j, (ask s i).news j
        rw [hsum]
        cases changed with
        | true =>
            rw [Bool.true_or]
            exact hs.trans (Nat.le_add_right _ _)
        | false =>
            rw [Bool.false_or]
            have hle : s.rebuilds ≤ ∑ j, s.news j := hs
            cases (news? s i).1 with
            | true => exact Nat.add_le_add_right hle 1
            | false => exact hle
      all_goals exact hs

/-- However often the value is used, it is rebuilt no more often than the sources were sent to or
closed. -/
theorem rebuilds_le (hchecks : ∀ i, i ∈ checks) (hreads : ∀ k, k ∈ reads) {init : ∀ i, V i}
    {as : List (Action V)} {t : State V src}
    (h : run (step watched checks reads) (start checks init) as = some t) :
    t.rebuilds ≤ ∑ i, (t.version i + (t.closed i).toNat) := by
  have hstart : Inv watched (start checks init : State V src) := inv_start init hchecks
  have hearned : Earned t := invariant (P := Earned) earned_step (by simp [Earned, start]) h
  exact (invariant (inv_step hchecks hreads) hstart h).rebuilds_le hearned

end System

end RebuildOnUse
