import Datamancer.Core.Error
import Datamancer.Lib.ActionSystem
import Datamancer.Lib.EvictRing
import Mathlib.Algebra.BigOperators.Group.Finset.Basic
import Mathlib.Logic.Function.Basic

/-!
# Datamancer.Live.Connection

What is known of a provider's connection: each substream's phase (`LiveStats::record_connection`),
the counters and sticky flags of the provider (`ProviderAccounting`), and the state read off both.

A controller folds a control at receipt in two steps, first into its substream's phase and then
into the provider's accounting, between which other controllers take theirs; only then is the
event buffered or forwarded. The phases and the reconnects come out right whatever the order. The
flag of a rejection is written by whichever controller comes last: it is right while no controller
folds a broadcast that another has folded past and found overruled (`connection_accounting`).
-/

namespace Datamancer

namespace Connection

open ActionSystem

/-! ### Phases -/

inductive StreamConnection
  | pending
  | up (since : Timestamp)
  | down (since : Timestamp) (cause : DisconnectCause)
  deriving DecidableEq, Repr

/-- What a control did to a substream's phase. -/
inductive ConnectionChange
  | none
  | connected (reconnect : Bool)
  | disconnected
  deriving DecidableEq, Repr

def StreamConnection.isDown : StreamConnection → Bool
  | .down _ _ => true
  | _ => false

def StreamConnection.isUp : StreamConnection → Bool
  | .up _ => true
  | _ => false

/-- Record a control: the phase after it, and the transition it caused. -/
def recordConnection (slot : StreamConnection) (c : Control) :
    StreamConnection × ConnectionChange :=
  match c.kind, slot with
  -- a repeated connect is no transition, and `since` stays that of the first
  | .providerConnected _, .up since => (.up since, .none)
  | .providerConnected _, previous => (.up c.rxTs, .connected previous.isDown)
  -- so for a disconnect, whose cause is the newest
  | .providerDisconnected _ _ cause, .down since _ => (.down since cause, .none)
  | .providerDisconnected _ _ cause, _ => (.down c.rxTs cause, .disconnected)
  | _, slot => (slot, .none)

/-- The phase after controls, from none received. -/
def foldPhase (cs : List Control) : StreamConnection :=
  cs.foldl (fun slot c => (recordConnection slot c).1) .pending

/-- The transitions from `Down` to `Up` among controls received in a phase. -/
def downToUp (slot : StreamConnection) : List Control → Nat
  | [] => 0
  | c :: cs =>
      (if slot.isDown && (recordConnection slot c).1.isUp then 1 else 0)
        + downToUp (recordConnection slot c).1 cs

/-! ### The provider -/

/-- What the connection reads and writes of `ProviderAccounting`. -/
structure ProviderAccounting where
  reconnects : Nat
  everConnected : Bool
  authFailed : Bool
  lastError : Option String
  deriving DecidableEq, Repr

def ProviderAccounting.new : ProviderAccounting := ⟨0, false, false, none⟩

def ProviderAccounting.recordError (acc : ProviderAccounting) (message : String) :
    ProviderAccounting :=
  { acc with lastError := some message }

/-- The counters of a transition. -/
def ProviderAccounting.recordChange (acc : ProviderAccounting) (change : ConnectionChange) :
    ProviderAccounting :=
  match change with
  | .connected reconnect =>
      { acc with
        everConnected := true
        authFailed := false
        reconnects := if reconnect then acc.reconnects + 1 else acc.reconnects }
  | _ => acc

/-- The rejection and the error text a control carries. -/
def ProviderAccounting.recordKind (acc : ProviderAccounting) (kind : ControlKind) :
    ProviderAccounting :=
  match kind with
  | .providerDisconnected _ reason .unauthenticated =>
      ({ acc with authFailed := true } : ProviderAccounting).recordError reason
  | .providerError _ message => acc.recordError message
  | _ => acc

/-- Fold one control received from the provider, with the transition it caused. -/
def ProviderAccounting.recordProviderControl (acc : ProviderAccounting) (kind : ControlKind)
    (change : ConnectionChange) : ProviderAccounting :=
  (acc.recordChange change).recordKind kind

/-- A failed open, of which no substream carries the evidence. -/
def ProviderAccounting.recordOpenFailure (acc : ProviderAccounting) (e : Error) :
    ProviderAccounting :=
  let acc :=
    match e with
    | .unauthenticated _ _ => { acc with authFailed := true }
    | _ => acc
  acc.recordError e.display

inductive ConnectionState
  | unknown
  | connected
  | disconnected
  | unauthenticated
  deriving DecidableEq, Repr

def StreamConnection.isUnauthenticated : StreamConnection → Bool
  | .down _ .unauthenticated => true
  | _ => false

/-- The provider's state, by the phases of its active substreams or, without any, by the sticky
facts. -/
def ProviderAccounting.connectionState (acc : ProviderAccounting)
    (streams : List StreamConnection) : ConnectionState :=
  if streams.any StreamConnection.isUp then .connected
  else if streams.any StreamConnection.isUnauthenticated || (streams.isEmpty && acc.authFailed) then
    .unauthenticated
  else if streams.any StreamConnection.isDown || (streams.isEmpty && acc.everConnected) then
    .disconnected
  else .unknown

/-! ### Substreams side by side -/

/-- One substream and its controller. -/
structure Substream where
  connection : StreamConnection
  /-- The arrival in hand: its phase is recorded, the provider's accounting is next. -/
  hand : Option (MarketEvent × ConnectionChange)
  /-- The ring of a backfill under way. -/
  pending : Option (EvictRing MarketEvent)
  gone : Bool
  /-- The controls folded into the provider's accounting, in their order. -/
  folded : List Control

def Substream.opened : Substream := ⟨.pending, none, none, false, []⟩

/-- The control of an event, if it is one. -/
def control : MarketEvent → Option Control
  | .control c => some c
  | _ => none

/-- The controls received: those folded, and one in hand. -/
def Substream.received (s : Substream) : List Control :=
  s.folded ++ ((s.hand.map Prod.fst).bind control).toList

variable {ι : Type} [DecidableEq ι]

structure World (ι : Type) where
  subs : ι → Substream
  acc : ProviderAccounting
  /-- The connects and disconnects folded by the controller that has folded most of them. -/
  newest : List ControlKind

def World.opened : World ι := ⟨fun _ => .opened, .new, []⟩

def World.set (w : World ι) (i : ι) (s : Substream) : World ι :=
  { w with subs := Function.update w.subs i s }

inductive Action (ι : Type)
  /-- An event is received: the first half of `note_provider_arrival`. -/
  | arrive (i : ι) (ev : MarketEvent)
  /-- The second half, and then the event is buffered or forwarded. -/
  | fold (i : ι)
  | beginBackfill (i : ι) (capacity : Nat)
  | endBackfill (i : ι)
  | leave (i : ι)
  /-- A live open fails. -/
  | openFailed (e : Error)

/-- A connect or a disconnect. -/
def isConnection : ControlKind → Bool
  | .providerConnected _ | .providerDisconnected _ _ _ => true
  | _ => false

def isConnect : ControlKind → Bool
  | .providerConnected _ => true
  | _ => false

/-- A disconnect for rejected credentials. -/
def isRejection : ControlKind → Bool
  | .providerDisconnected _ _ .unauthenticated => true
  | _ => false

/-- The connects and disconnects among controls. -/
def broadcasts (cs : List Control) : List ControlKind := (cs.map Control.kind).filter isConnection

/-- The longer of what was folded furthest and what this controller has folded. -/
def furthest (newest mine : List ControlKind) : List ControlKind :=
  if newest.length < mine.length then mine else newest

def step (w : World ι) : Action ι → Option (World ι)
  | .arrive i ev =>
      let s := w.subs i
      if s.gone || s.hand.isSome then none
      else
        match ev with
        | .control c =>
            let r := recordConnection s.connection c
            some (w.set i { s with connection := r.1, hand := some (ev, r.2) })
        | _ => some (w.set i { s with hand := some (ev, .none) })
  | .fold i =>
      let s := w.subs i
      match s.hand with
      | none => none
      | some (ev, change) =>
          let s' := { s with hand := none, pending := s.pending.map fun ring => ring.push ev }
          match ev with
          | .control c =>
              let folded := s.folded ++ [c]
              some { w.set i { s' with folded := folded } with
                acc := w.acc.recordProviderControl c.kind change
                newest := furthest w.newest (broadcasts folded) }
          | _ => some (w.set i s')
  | .beginBackfill i capacity =>
      let s := w.subs i
      if s.gone || s.hand.isSome then none
      else some (w.set i { s with pending := some (.new capacity) })
  | .endBackfill i =>
      let s := w.subs i
      if s.gone || s.hand.isSome then none else some (w.set i { s with pending := none })
  | .leave i =>
      let s := w.subs i
      if s.hand.isSome then none else some (w.set i { s with gone := true })
  | .openFailed e => some { w with acc := w.acc.recordOpenFailure e }

@[simp] theorem World.set_self (w : World ι) (i : ι) (s : Substream) : (w.set i s).subs i = s :=
  Function.update_self ..

theorem World.set_of_ne (w : World ι) {i j : ι} (s : Substream) (h : j ≠ i) :
    (w.set i s).subs j = w.subs j :=
  Function.update_of_ne h ..

/-! ### Phases and transitions -/

theorem foldPhase_append (cs : List Control) (c : Control) :
    foldPhase (cs ++ [c]) = (recordConnection (foldPhase cs) c).1 := by
  rw [foldPhase, List.foldl_append]
  rfl

/-- What a change adds to the reconnects. -/
def ConnectionChange.reconnects : ConnectionChange → Nat
  | .connected true => 1
  | _ => 0

/-- A reconnect is a transition from `Down` to `Up`. -/
theorem reconnects_recordConnection (slot : StreamConnection) (c : Control) :
    (if slot.isDown && (recordConnection slot c).1.isUp then 1 else 0)
      = (recordConnection slot c).2.reconnects := by
  obtain ⟨sourceTs, rxTs, seq, kind⟩ := c
  cases kind <;> cases slot <;> rfl

theorem downToUp_append (slot : StreamConnection) (cs : List Control) (c : Control) :
    downToUp slot (cs ++ [c])
      = downToUp slot cs
        + (recordConnection (cs.foldl (fun slot c => (recordConnection slot c).1) slot)
          c).2.reconnects := by
  induction cs generalizing slot with
  | nil =>
      rw [List.nil_append, downToUp, downToUp, downToUp, reconnects_recordConnection, Nat.add_comm]
      rfl
  | cons d cs ih => rw [List.cons_append, downToUp, downToUp, ih, Nat.add_assoc]; rfl

theorem reconnects_recordProviderControl (acc : ProviderAccounting) (kind : ControlKind)
    (change : ConnectionChange) :
    (acc.recordProviderControl kind change).reconnects = acc.reconnects + change.reconnects := by
  have hkind : ∀ acc' : ProviderAccounting,
      (acc'.recordKind kind).reconnects = acc'.reconnects := by
    intro acc'
    cases kind with
    | providerDisconnected _ _ cause => cases cause <;> rfl
    | _ => rfl
  rw [ProviderAccounting.recordProviderControl, hkind]
  cases change with
  | connected reconnect => cases reconnect <;> rfl
  | _ => rfl

theorem reconnects_recordOpenFailure (acc : ProviderAccounting) (e : Error) :
    (acc.recordOpenFailure e).reconnects = acc.reconnects := by
  cases e <;> rfl

/-! ### What a step does -/

/-- The phase is that of the controls received, and the transition in hand is the one the control
in hand makes after those folded. -/
structure Substream.Inv (s : Substream) : Prop where
  phase : s.connection = foldPhase s.received
  hand : ∀ c change, s.hand = some (.control c, change) →
    change = (recordConnection (foldPhase s.folded) c).2
  gone : s.gone = true → s.hand = none

theorem Substream.received_of_hand {s : Substream} (h : s.hand = none) : s.received = s.folded := by
  rw [Substream.received, h]
  exact List.append_nil _

theorem Substream.free_of_not_busy {s : Substream} (h : ¬ s.hand.isSome = true) : s.hand = none :=
  Option.not_isSome_iff_eq_none.mp h

/-- An event in hand that is no control is not among the controls received. -/
theorem Substream.received_of_data {s : Substream} {ev : MarketEvent} {change : ConnectionChange}
    (hhand : s.hand = some (ev, change)) (hdata : ∀ c, ev ≠ .control c) :
    s.received = s.folded := by
  have hnone : control ev = none := by
    cases ev with
    | control c => exact absurd rfl (hdata c)
    | _ => rfl
  rw [Substream.received, hhand]
  show s.folded ++ (control ev).toList = _
  rw [hnone]
  exact List.append_nil _

/-- Nothing is folded, what is received only grows, and a sound substream stays sound. -/
structure Substream.Quiet (s s' : Substream) : Prop where
  folded : s'.folded = s.folded
  inv : s.Inv → s'.Inv
  received : s.received <+: s'.received

theorem quiet_arrive_control {s : Substream} (c : Control) (hlive : s.gone ≠ true)
    (hfree : s.hand = none) :
    s.Quiet { s with
      connection := (recordConnection s.connection c).1
      hand := some (.control c, (recordConnection s.connection c).2) } := by
  have hreceived := Substream.received_of_hand hfree
  refine ⟨rfl, fun hinv => ⟨?_, fun d change hd => ?_, fun hg => absurd hg hlive⟩, ?_⟩
  · show (recordConnection s.connection c).1 = foldPhase (s.folded ++ [c])
    rw [hinv.phase, hreceived, foldPhase_append]
  · cases hd
    show (recordConnection s.connection c).2 = _
    rw [hinv.phase, hreceived]
  · rw [hreceived]
    exact List.prefix_append _ _

theorem quiet_arrive_data {s : Substream} {ev : MarketEvent} (hdata : ∀ c, ev ≠ .control c)
    (hlive : s.gone ≠ true) (hfree : s.hand = none) :
    s.Quiet { s with hand := some (ev, .none) } := by
  have hreceived := Substream.received_of_hand hfree
  have hsame : ({ s with hand := some (ev, .none) } : Substream).received = s.folded :=
    Substream.received_of_data rfl hdata
  refine ⟨rfl, fun hinv => ⟨?_, fun d change hd => ?_, fun hg => absurd hg hlive⟩, ?_⟩
  · rw [hsame, ← hreceived]
    exact hinv.phase
  · cases hd
    exact absurd rfl (hdata d)
  · rw [hsame, hreceived]

theorem quiet_fold_data {s : Substream} {ev : MarketEvent} {change : ConnectionChange}
    (hhand : s.hand = some (ev, change)) (hdata : ∀ c, ev ≠ .control c)
    (pending : Option (EvictRing MarketEvent)) :
    s.Quiet { s with hand := none, pending := pending } := by
  have hreceived := Substream.received_of_data hhand hdata
  have hsame : ({ s with hand := none, pending := pending } : Substream).received = s.folded :=
    Substream.received_of_hand rfl
  refine ⟨rfl, fun hinv => ⟨?_, fun d change hd => (by cases hd), fun _ => rfl⟩, ?_⟩
  · rw [hsame, ← hreceived]
    exact hinv.phase
  · rw [hsame, hreceived]

/-- A step keeps to one substream and folds nothing, or folds the control in a substream's hand,
or is a failed open. -/
theorem step_cases {w w' : World ι} {a : Action ι} (h : step w a = some w') :
    (∃ i s', w' = w.set i s' ∧ (w.subs i).Quiet s')
    ∨ (∃ i c change s', a = .fold i ∧ (w.subs i).hand = some (.control c, change)
      ∧ s'.connection = (w.subs i).connection ∧ s'.hand = none
      ∧ s'.folded = (w.subs i).folded ++ [c]
      ∧ w' = { w.set i s' with
          acc := w.acc.recordProviderControl c.kind change
          newest := furthest w.newest (broadcasts s'.folded) })
    ∨ ∃ e, a = .openFailed e ∧ w' = { w with acc := w.acc.recordOpenFailure e } := by
  cases a with
  | arrive i ev =>
      simp only [step] at h
      split_ifs at h with hbusy
      obtain ⟨hlive, hidle⟩ := not_or.mp (mt (Bool.or_eq_true _ _).mpr hbusy)
      have hfree := Substream.free_of_not_busy hidle
      split at h
      · rename_i c
        cases h
        exact .inl ⟨i, _, rfl, quiet_arrive_control c hlive hfree⟩
      · rename_i hdata
        cases h
        exact .inl ⟨i, _, rfl, quiet_arrive_data hdata hlive hfree⟩
  | fold i =>
      simp only [step] at h
      split at h
      · cases h
      · rename_i ev change hhand
        split at h
        · rename_i c
          cases h
          exact .inr (.inl ⟨i, c, change,
            { w.subs i with
              hand := none
              pending := (w.subs i).pending.map fun ring => ring.push (.control c)
              folded := (w.subs i).folded ++ [c] }, rfl, hhand, rfl, rfl, rfl, rfl⟩)
        · rename_i hdata
          cases h
          exact .inl ⟨i, _, rfl, quiet_fold_data hhand hdata _⟩
  | beginBackfill i capacity =>
      simp only [step] at h
      split_ifs at h
      cases h
      exact .inl ⟨i, _, rfl, rfl, fun hinv => ⟨hinv.phase, hinv.hand, hinv.gone⟩, List.prefix_rfl⟩
  | endBackfill i =>
      simp only [step] at h
      split_ifs at h
      cases h
      exact .inl ⟨i, _, rfl, rfl, fun hinv => ⟨hinv.phase, hinv.hand, hinv.gone⟩, List.prefix_rfl⟩
  | leave i =>
      simp only [step] at h
      split_ifs at h with hbusy
      cases h
      have hfree := Substream.free_of_not_busy hbusy
      exact .inl ⟨i, _, rfl, rfl, fun hinv =>
        ⟨hinv.phase, hinv.hand, fun _ => hfree⟩, List.prefix_rfl⟩
  | openFailed e =>
      cases h
      exact .inr (.inr ⟨e, rfl, rfl⟩)

/-! ### Phases and reconnects of a run -/

/-- Every substream is sound, and the reconnects are those of the controls folded. -/
structure Inv [Fintype ι] (w : World ι) : Prop where
  subs : ∀ i, (w.subs i).Inv
  reconnects : w.acc.reconnects = ∑ i, downToUp .pending (w.subs i).folded

omit [DecidableEq ι] in
theorem inv_opened [Fintype ι] : Inv (.opened : World ι) where
  subs := fun _ => ⟨rfl, fun _ _ h => (by cases h), fun h => (by cases h)⟩
  reconnects := (Finset.sum_eq_zero fun _ _ => rfl).symm

/-- A sum of which one term grows. -/
theorem sum_of_grown [Fintype ι] {f g : ι → Nat} {i : ι} {n : Nat} (hi : g i = f i + n)
    (hother : ∀ j, j ≠ i → g j = f j) : ∑ j, g j = (∑ j, f j) + n := by
  have hrest : ∑ j ∈ Finset.univ.erase i, g j = ∑ j ∈ Finset.univ.erase i, f j :=
    Finset.sum_congr rfl fun j hj => hother j (Finset.ne_of_mem_erase hj)
  rw [← Finset.add_sum_erase _ g (Finset.mem_univ i), hrest, hi,
    ← Finset.add_sum_erase _ f (Finset.mem_univ i), Nat.add_right_comm]

theorem subs_set_inv {w : World ι} {i : ι} {s : Substream} (h : ∀ j, (w.subs j).Inv) (hs : s.Inv)
    (j : ι) : ((w.set i s).subs j).Inv := by
  by_cases hj : j = i
  · subst hj
    rw [World.set_self]
    exact hs
  · rw [World.set_of_ne w s hj]
    exact h j

theorem inv_step [Fintype ι] {w w' : World ι} {a : Action ι} (hinv : Inv w)
    (h : step w a = some w') : Inv w' := by
  obtain ⟨i, s', rfl, hquiet⟩ | ⟨i, c, change, s', -, hhand, hconn, hnone, hfolded, rfl⟩
    | ⟨e, -, rfl⟩ := step_cases h
  · refine ⟨subs_set_inv hinv.subs (hquiet.inv (hinv.subs i)), ?_⟩
    have hsame : ∀ j, ((w.set i s').subs j).folded = (w.subs j).folded := by
      intro j
      by_cases hj : j = i
      · subst hj
        rw [World.set_self, hquiet.folded]
      · rw [World.set_of_ne w s' hj]
    exact hinv.reconnects.trans (Finset.sum_congr rfl fun j _ => by rw [hsame j])
  -- the control in hand is folded: the reconnects grow by its own transition
  · have hsub := hinv.subs i
    have hreceived : (w.subs i).received = (w.subs i).folded ++ [c] := by
      rw [Substream.received, hhand]
      rfl
    have hchange := hsub.hand c change hhand
    refine ⟨subs_set_inv hinv.subs ⟨?_, fun d change' hd => ?_, fun _ => hnone⟩, ?_⟩
    · rw [hconn, hsub.phase, hreceived, Substream.received, hnone, hfolded]
      simp
    · rw [hnone] at hd
      cases hd
    · show (w.acc.recordProviderControl c.kind change).reconnects = _
      rw [reconnects_recordProviderControl, hinv.reconnects]
      refine (sum_of_grown (i := i) ?_ fun j hj => ?_).symm
      · show downToUp .pending ((w.set i s').subs i).folded = _
        rw [World.set_self, hfolded, downToUp_append, hchange]
        rfl
      · show downToUp .pending ((w.set i s').subs j).folded = _
        rw [World.set_of_ne w s' hj]
  · exact ⟨hinv.subs, (reconnects_recordOpenFailure w.acc e).trans hinv.reconnects⟩

/-! ### The flag of a rejection -/

/-- What folding a control writes to the flag, if anything. -/
def flagWritten (kind : ControlKind) (change : ConnectionChange) : Option Bool :=
  if isRejection kind then some true
  else
    match change with
    | .connected _ => some false
    | _ => none

/-- What a failed open writes to it. -/
def flagOfFailure : Error → Option Bool
  | .unauthenticated _ _ => some true
  | _ => none

theorem authFailed_recordProviderControl (acc : ProviderAccounting) (kind : ControlKind)
    (change : ConnectionChange) :
    (acc.recordProviderControl kind change).authFailed
      = (flagWritten kind change).getD acc.authFailed := by
  cases kind with
  | providerDisconnected _ _ cause => cases cause <;> cases change <;> rfl
  | _ => cases change <;> rfl

theorem authFailed_recordOpenFailure (acc : ProviderAccounting) (e : Error) :
    (acc.recordOpenFailure e).authFailed = (flagOfFailure e).getD acc.authFailed := by
  cases e <;> rfl

/-- Whether connects and disconnects leave a rejection that no connect overrules. -/
def rejected (ks : List ControlKind) : Bool :=
  ks.foldl (fun flag k => if isRejection k then true else if isConnect k then false else flag) false

theorem rejected_append (ks : List ControlKind) (k : ControlKind) :
    rejected (ks ++ [k])
      = if isRejection k then true else if isConnect k then false else rejected ks := by
  rw [rejected, List.foldl_append]
  rfl

theorem getElem?_snoc {α : Type*} (l : List α) (a b : α) (n : Nat) :
    (l ++ [a])[n]? = some b ↔ l[n]? = some b ∨ (n = l.length ∧ b = a) := by
  rcases Nat.lt_trichotomy n l.length with hlt | rfl | hgt
  · rw [List.getElem?_append_left hlt]
    exact ⟨.inl, fun h => h.resolve_right fun hlast => absurd hlast.1 (Nat.ne_of_lt hlt)⟩
  · simp [eq_comm]
  · rw [List.getElem?_eq_none (by simp; omega), List.getElem?_eq_none (by omega)]
    simp [Nat.ne_of_gt hgt]

theorem rejected_iff (ks : List ControlKind) :
    rejected ks = true ↔ ∃ (n : Nat) (k : ControlKind), ks[n]? = some k ∧ isRejection k = true
      ∧ ∀ (m : Nat) k', n < m → ks[m]? = some k' → isConnect k' = false := by
  induction ks using List.reverseRecOn with
  | nil => simp [rejected]
  | append_singleton ks k ih =>
      have hlt : ∀ {n k'}, ks[n]? = some k' → n < ks.length :=
        fun h => (List.getElem?_eq_some_iff.mp h).1
      simp only [getElem?_snoc]
      rw [rejected_append]
      split_ifs with hrej hconn
      -- the last one is a rejection, and nothing comes after it
      · refine iff_of_true rfl ⟨ks.length, k, .inr ⟨rfl, rfl⟩, hrej, fun m k' hm hk' => ?_⟩
        rcases hk' with hk' | ⟨rfl, -⟩
        · exact absurd (hlt hk') (Nat.lt_asymm hm)
        · exact absurd hm (Nat.lt_irrefl _)
      -- the last one is a connect, which overrules every rejection before it
      · refine iff_of_false (by simp) ?_
        rintro ⟨n, k', hn | ⟨-, rfl⟩, hk', hafter⟩
        · cases hconn.symm.trans (hafter ks.length k (hlt hn) (.inr ⟨rfl, rfl⟩))
        · exact hrej hk'
      · rw [ih]
        constructor
        · rintro ⟨n, k', hn, hk', hafter⟩
          refine ⟨n, k', .inl hn, hk', fun m k'' hm hk'' => ?_⟩
          rcases hk'' with hk'' | ⟨-, rfl⟩
          · exact hafter m k'' hm hk''
          · exact eq_false_of_ne_true hconn
        · rintro ⟨n, k', hn | ⟨-, rfl⟩, hk', hafter⟩
          · exact ⟨n, k', hn, hk', fun m k'' hm hk'' => hafter m k'' hm (.inl hk'')⟩
          · exact absurd hk' hrej

theorem broadcasts_append (cs : List Control) (c : Control) :
    broadcasts (cs ++ [c])
      = if isConnection c.kind then broadcasts cs ++ [c.kind] else broadcasts cs := by
  rw [broadcasts, List.map_append, List.filter_append]
  split_ifs with hc
  · exact congrArg _ (List.filter_cons_of_pos hc)
  · exact (congrArg _ (List.filter_cons_of_neg hc)).trans (List.append_nil _)

/-- A substream that is up has received a connect since any rejection. -/
theorem rejected_of_up (cs : List Control) (h : (foldPhase cs).isUp = true) :
    rejected (broadcasts cs) = false := by
  induction cs using List.reverseRecOn with
  | nil => rfl
  | append_singleton cs c ih =>
      rw [foldPhase_append] at h
      rw [broadcasts_append]
      obtain ⟨sourceTs, rxTs, seq, kind⟩ := c
      cases kind with
      | providerConnected provider => exact rejected_append _ _
      | providerDisconnected provider reason cause =>
          cases hslot : foldPhase cs <;> rw [hslot] at h <;> cases h
      | _ => exact ih h

/-- The control a substream folds next leaves the flag as its own history has it. -/
theorem rejected_folded (cs : List Control) (c : Control) :
    rejected (broadcasts (cs ++ [c]))
      = (flagWritten c.kind (recordConnection (foldPhase cs) c).2).getD
          (rejected (broadcasts cs)) := by
  rw [broadcasts_append]
  have hup := rejected_of_up cs
  obtain ⟨sourceTs, rxTs, seq, kind⟩ := c
  cases kind with
  | providerConnected provider =>
      refine (rejected_append _ _).trans ?_
      cases hslot : foldPhase cs with
      -- no transition, so nothing is written, and nothing has to be
      | up since => exact (hup (by rw [hslot]; rfl)).symm
      | _ => rfl
  | providerDisconnected provider reason cause =>
      refine (rejected_append _ _).trans ?_
      cases hslot : foldPhase cs <;> cases cause <;> rfl
  | _ => rfl

/-- No controller writes to the flag against what the connects and disconnects folded furthest
say: one that folds a broadcast another has folded past writes only what still stands, and a
failed open reports a rejection only if one stands. -/
def kept (w : World ι) : Action ι → Bool
  | .fold i =>
      match (w.subs i).hand with
      | some (.control c, change) =>
          decide (w.newest.length < (broadcasts ((w.subs i).folded ++ [c])).length)
            || (flagWritten c.kind change).all (· == rejected w.newest)
      | _ => true
  | .openFailed e => (flagOfFailure e).all (· == rejected w.newest)
  | _ => true

/-- Every substream has received a prefix of one history of connects and disconnects. -/
def Agreed (H : List ControlKind) (w : World ι) : Prop :=
  ∀ i, broadcasts (w.subs i).received <+: H

/-- Of the broadcasts received, a rejection is followed by no connect that any substream
received. -/
def RejectionStands (H : List ControlKind) (w : World ι) : Prop :=
  ∃ (n : Nat) (k : ControlKind) (i : ι), n < (broadcasts (w.subs i).received).length
    ∧ H[n]? = some k ∧ isRejection k = true
    ∧ ∀ (m : Nat) (k' : ControlKind) (j : ι), n < m →
      m < (broadcasts (w.subs j).received).length → H[m]? = some k' → isConnect k' = false

/-- The flag is that of the broadcasts folded furthest. -/
structure Flagged (w : World ι) : Prop where
  behind : ∀ i, broadcasts (w.subs i).folded <+: w.newest
  newest : w.newest = [] ∨ ∃ i, w.newest <+: broadcasts (w.subs i).folded
  flag : w.acc.authFailed = rejected w.newest

theorem broadcasts_mono {cs cs' : List Control} (h : cs <+: cs') :
    broadcasts cs <+: broadcasts cs' :=
  (h.map Control.kind).filter isConnection

omit [DecidableEq ι] in
/-- What is folded furthest is of the one history. -/
theorem Flagged.newest_agreed {H : List ControlKind} {w : World ι} (hf : Flagged w)
    (hagreed : Agreed H w) : w.newest <+: H := by
  rcases hf.newest with hnil | ⟨j, hj⟩
  · rw [hnil]
    exact List.nil_prefix
  · exact (hj.trans (broadcasts_mono (List.prefix_append _ _))).trans (hagreed j)

/-- What is received only grows. -/
theorem received_step {w w' : World ι} {a : Action ι} (h : step w a = some w') (j : ι) :
    (w.subs j).received <+: (w'.subs j).received := by
  obtain ⟨i, s', rfl, hquiet⟩ | ⟨i, c, change, s', -, hhand, -, hnone, hfolded, rfl⟩
    | ⟨e, -, rfl⟩ := step_cases h
  · by_cases hj : j = i
    · subst hj
      rw [World.set_self]
      exact hquiet.received
    · rw [World.set_of_ne w s' hj]
  · show _ <+: ((w.set i s').subs j).received
    by_cases hj : j = i
    · subst hj
      rw [World.set_self, Substream.received_of_hand hnone, hfolded, Substream.received, hhand]
      exact List.prefix_rfl
    · rw [World.set_of_ne w s' hj]
  · exact List.prefix_rfl

theorem agreed_of_step {H : List ControlKind} {w w' : World ι} {a : Action ι}
    (h : step w a = some w') (hagreed : Agreed H w') : Agreed H w :=
  fun i => (broadcasts_mono (received_step h i)).trans (hagreed i)

omit [DecidableEq ι] in
theorem kept_fold {w : World ι} {i : ι} {c : Control} {change : ConnectionChange}
    (h : kept w (.fold i) = true) (hhand : (w.subs i).hand = some (.control c, change)) :
    w.newest.length < (broadcasts ((w.subs i).folded ++ [c])).length
      ∨ (flagWritten c.kind change).getD (rejected w.newest) = rejected w.newest := by
  rw [kept, hhand] at h
  refine ((Bool.or_eq_true _ _).mp h).imp of_decide_eq_true fun hall => ?_
  cases hw : flagWritten c.kind change with
  | none => rfl
  | some flag =>
      rw [hw] at hall
      exact eq_of_beq hall

/-- One substream folds on, and what is folded furthest is as far as any has. -/
theorem flagged_set {w : World ι} {i : ι} {s' : Substream} {acc : ProviderAccounting}
    {newest : List ControlKind}
    (hgrown : broadcasts (w.subs i).folded <+: broadcasts s'.folded)
    (hbehind : ∀ j, broadcasts (w.subs j).folded <+: newest)
    (hmine : broadcasts s'.folded <+: newest)
    (hnewest : newest = [] ∨ newest <+: broadcasts s'.folded
      ∨ ∃ j, newest <+: broadcasts (w.subs j).folded)
    (hflag : acc.authFailed = rejected newest) :
    Flagged { w.set i s' with acc := acc, newest := newest } := by
  have hself : ((w.set i s').subs i).folded = s'.folded := by rw [World.set_self]
  have hother : ∀ j, j ≠ i → ((w.set i s').subs j).folded = (w.subs j).folded := by
    intro j hj
    rw [World.set_of_ne w s' hj]
  refine ⟨fun j => ?_, hnewest.imp_right fun h => ?_, hflag⟩
  · show broadcasts ((w.set i s').subs j).folded <+: _
    by_cases hj : j = i
    · subst hj
      rwa [hself]
    · rw [hother j hj]
      exact hbehind j
  · show ∃ j, _ <+: broadcasts ((w.set i s').subs j).folded
    rcases h with hi | ⟨j, hj⟩
    · exact ⟨i, by rwa [hself]⟩
    · refine ⟨j, ?_⟩
      by_cases hji : j = i
      · subst hji
        rw [hself]
        exact hj.trans hgrown
      · rwa [hother j hji]

theorem flagged_fold {H : List ControlKind} {w : World ι} {i : ι} {c : Control}
    {change : ConnectionChange} {s' : Substream} (hsub : (w.subs i).Inv) (hf : Flagged w)
    (hagreed : Agreed H w) (hhand : (w.subs i).hand = some (.control c, change))
    (hfolded : s'.folded = (w.subs i).folded ++ [c]) (hkept : kept w (.fold i) = true) :
    Flagged { w.set i s' with
      acc := w.acc.recordProviderControl c.kind change
      newest := furthest w.newest (broadcasts s'.folded) } := by
  have hmine : broadcasts s'.folded <+: H := by
    have hi := hagreed i
    rw [Substream.received, hhand] at hi
    rw [hfolded]
    exact hi
  have hgrown : broadcasts (w.subs i).folded <+: broadcasts s'.folded := by
    rw [hfolded]
    exact broadcasts_mono (List.prefix_append _ _)
  have hnewest := hf.newest_agreed hagreed
  have hflag : (w.acc.recordProviderControl c.kind change).authFailed
      = (flagWritten c.kind change).getD (rejected w.newest) := by
    rw [authFailed_recordProviderControl, hf.flag]
  by_cases hlen : w.newest.length < (broadcasts s'.folded).length
  · -- the controller is ahead of every other: what it has folded is the newest
    have hnew : furthest w.newest (broadcasts s'.folded) = broadcasts s'.folded := if_pos hlen
    have hpast : w.newest <+: broadcasts s'.folded :=
      List.prefix_of_prefix_length_le hnewest hmine (Nat.le_of_lt hlen)
    have hsame : broadcasts (w.subs i).folded = w.newest := by
      refine (hf.behind i).eq_of_length_le ?_
      rw [hfolded, broadcasts_append] at hlen
      split_ifs at hlen
      · rw [List.length_append, List.length_singleton] at hlen
        exact Nat.le_of_lt_succ hlen
      · exact Nat.le_of_lt hlen
    rw [hnew]
    refine flagged_set hgrown (fun j => (hf.behind j).trans hpast) List.prefix_rfl
      (.inr (.inl List.prefix_rfl)) ?_
    rw [hflag, hfolded, rejected_folded, hsub.hand c change hhand, hsame]
  · -- another controller has folded past it: the step keeps the flag
    have hnew : furthest w.newest (broadcasts s'.folded) = w.newest := if_neg hlen
    rw [hnew]
    refine flagged_set hgrown hf.behind
      (List.prefix_of_prefix_length_le hmine hnewest (Nat.le_of_not_lt hlen))
      (hf.newest.imp_right .inr) (hflag.trans ?_)
    rcases kept_fold hkept hhand with hlt | hsame
    · exact absurd (hfolded ▸ hlt) hlen
    · exact hsame

theorem flagged_step {H : List ControlKind} {w w' : World ι} {a : Action ι}
    (hsubs : ∀ i, (w.subs i).Inv) (hf : Flagged w) (hagreed : Agreed H w) (hkept : kept w a = true)
    (h : step w a = some w') : Flagged w' := by
  obtain ⟨i, s', rfl, hquiet⟩ | ⟨i, c, change, s', rfl, hhand, -, -, hfolded, rfl⟩
    | ⟨e, rfl, rfl⟩ := step_cases h
  · refine flagged_set ?_ hf.behind ?_ (hf.newest.imp_right .inr) hf.flag
    · rw [hquiet.folded]
    · rw [hquiet.folded]
      exact hf.behind i
  · exact flagged_fold (hsubs i) hf hagreed hhand hfolded hkept
  · refine ⟨hf.behind, hf.newest, (authFailed_recordOpenFailure w.acc e).trans ?_⟩
    rw [hf.flag]
    show (flagOfFailure e).getD (rejected w.newest) = rejected w.newest
    cases hw : flagOfFailure e with
    | none => rfl
    | some flag =>
        rw [kept, hw] at hkept
        exact eq_of_beq hkept

/-- A controller that writes against what stands leaves the flag wrong. -/
theorem flag_of_not_kept {w w' : World ι} {i : ι} (hkept : kept w (.fold i) = false)
    (h : step w (.fold i) = some w') :
    w'.newest = w.newest ∧ w'.acc.authFailed = !rejected w.newest := by
  rw [kept] at hkept
  split at hkept
  · rename_i c change hhand
    obtain ⟨hlen, hflag⟩ := Bool.or_eq_false_iff.mp hkept
    rw [step, hhand] at h
    cases h
    refine ⟨if_neg (of_decide_eq_false hlen), ?_⟩
    show (w.acc.recordProviderControl c.kind change).authFailed = _
    rw [authFailed_recordProviderControl]
    cases hw : flagWritten c.kind change with
    | none =>
        rw [hw] at hflag
        cases hflag
    | some flag =>
        rw [hw] at hflag
        exact Bool.eq_not_of_ne (ne_of_beq_false hflag)
  · cases hkept

/-! ### Any run -/

omit [DecidableEq ι] in
theorem flagged_opened : Flagged (.opened : World ι) :=
  ⟨fun _ => List.nil_prefix, .inl rfl, rfl⟩

theorem inv_run [Fintype ι] {as : List (Action ι)} {w : World ι}
    (h : run step .opened as = some w) : Inv w :=
  invariant inv_step inv_opened h

/-- Of a run that keeps the flag, the flag is that of the broadcasts folded furthest. -/
theorem flagged_run [Fintype ι] {H : List ControlKind} {as : List (Action ι)} {w : World ι}
    (hkept : Meets step (fun w a => kept w a = true) .opened as)
    (h : run step .opened as = some w) (hagreed : Agreed H w) : Flagged w := by
  have hall : Inv w ∧ (Agreed H w → Flagged w) :=
    invariant_of_meets (P := fun w => Inv w ∧ (Agreed H w → Flagged w))
      (fun hP hok ht => ⟨inv_step hP.1 ht, fun hnext =>
        have hbefore := agreed_of_step ht hnext
        flagged_step hP.1.subs (hP.2 hbefore) hbefore hok ht⟩)
      ⟨inv_opened, fun _ => flagged_opened⟩ hkept h
  exact hall.2 hagreed

omit [DecidableEq ι] in
/-- Of one history, the broadcasts folded furthest are those of every substream. -/
theorem rejectionStands_iff {H : List ControlKind} {w : World ι} (hf : Flagged w)
    (hagreed : Agreed H w) (hhand : ∀ i, (w.subs i).hand = none) :
    RejectionStands H w ↔ rejected w.newest = true := by
  have hfolded : ∀ i, (w.subs i).received = (w.subs i).folded :=
    fun i => Substream.received_of_hand (hhand i)
  have hnewest := hf.newest_agreed hagreed
  have hat : ∀ n, n < w.newest.length → w.newest[n]? = H[n]? := fun n hn =>
    (List.getElem?_eq_getElem hn).trans (List.prefix_iff_getElem?.mp hnewest n hn).symm
  have hwithin : ∀ i n, n < (broadcasts (w.subs i).received).length → n < w.newest.length := by
    intro i n hn
    rw [hfolded i] at hn
    exact Nat.lt_of_lt_of_le hn (hf.behind i).length_le
  have hsome : ∀ n, n < w.newest.length →
      ∃ i, n < (broadcasts (w.subs i).received).length := by
    intro n hn
    rcases hf.newest with hnil | ⟨i, hi⟩
    · rw [hnil] at hn
      cases hn
    · refine ⟨i, ?_⟩
      rw [hfolded i]
      exact Nat.lt_of_lt_of_le hn hi.length_le
  rw [rejected_iff]
  constructor
  · rintro ⟨n, k, i, hn, hk, hrej, hafter⟩
    refine ⟨n, k, (hat n (hwithin i n hn)).trans hk, hrej, fun m k' hm hk' => ?_⟩
    have hlt := (List.getElem?_eq_some_iff.mp hk').1
    obtain ⟨j, hj⟩ := hsome m hlt
    exact hafter m k' j hm hj ((hat m hlt).symm.trans hk')
  · rintro ⟨n, k, hk, hrej, hafter⟩
    have hlt := (List.getElem?_eq_some_iff.mp hk).1
    obtain ⟨i, hi⟩ := hsome n hlt
    refine ⟨n, k, i, hi, (hat n hlt).symm.trans hk, hrej, fun m k' j hm hj hk' => ?_⟩
    exact hafter m k' hm ((hat m (hwithin j m hj)).trans hk')

/-- With no substream left, the sticky facts decide. -/
theorem connectionState_nil (acc : ProviderAccounting) :
    acc.connectionState [] = .unauthenticated ↔ acc.authFailed = true := by
  obtain ⟨reconnects, everConnected, authFailed, lastError⟩ := acc
  cases authFailed <;> cases everConnected <;> simp [ProviderAccounting.connectionState]

/-- Whatever the substreams and the order of their controllers, the phases are the folds of their
own controls and the reconnects are the transitions from `Down` to `Up` of all of them. A provider
whose substreams are gone reads as rejected exactly when a rejection stands among the broadcasts
they received, if no controller wrote the flag against what stood. -/
theorem connection_accounting [Fintype ι] {as : List (Action ι)} {w : World ι}
    (h : run step .opened as = some w) :
    (∀ i, (w.subs i).connection = foldPhase (w.subs i).received)
      ∧ ((∀ i, (w.subs i).hand = none) →
        w.acc.reconnects = ∑ i, downToUp .pending (w.subs i).received)
      ∧ ∀ H, Meets step (fun w a => kept w a = true) .opened as → Agreed H w →
        (∀ i, (w.subs i).gone = true) →
        (w.acc.connectionState [] = .unauthenticated ↔ RejectionStands H w) := by
  have hinv := inv_run h
  refine ⟨fun i => (hinv.subs i).phase, fun hhand => ?_, fun H hkept hagreed hgone => ?_⟩
  · refine hinv.reconnects.trans (Finset.sum_congr rfl fun i _ => ?_)
    rw [Substream.received_of_hand (hhand i)]
  · have hf := flagged_run hkept h hagreed
    rw [connectionState_nil, hf.flag,
      rejectionStands_iff hf hagreed fun i => (hinv.subs i).gone (hgone i)]

/-! ### A substream that is behind -/

def rejection : Control :=
  ⟨⟨0⟩, ⟨0⟩, ⟨0⟩, .providerDisconnected "tape" "key revoked" .unauthenticated⟩

def connect : Control := ⟨⟨1⟩, ⟨1⟩, ⟨0⟩, .providerConnected "tape"⟩

/-- One substream receives a rejection and the connect that overrules it, and leaves. -/
def prompt : List (Action Bool) :=
  [.arrive true (.control rejection), .fold true, .arrive true (.control connect), .fold true,
    .leave true]

/-- The other receives the rejection, in a backfill, and leaves too. -/
def late : List (Action Bool) :=
  [.beginBackfill false 1, .arrive false (.control rejection), .fold false, .leave false]

def history : List ControlKind := [rejection.kind, connect.kind]

theorem connection_accounting_orderly :
    ∃ w : World Bool, run step .opened (late ++ prompt) = some w
      ∧ (w.acc.connectionState [] = .unauthenticated ↔ RejectionStands history w) := by
  refine ⟨_, rfl, (@connection_accounting Bool _ _ (late ++ prompt) _ rfl).2.2 history ?_ ?_ ?_⟩
  · decide
  · intro i
    cases i <;> decide
  · intro i
    cases i <;> rfl

/-- Where the connect was received, the rejection before it does not stand. -/
theorem not_stands_of_connect {w : World Bool} {i : Bool}
    (h : 1 < (broadcasts (w.subs i).received).length) : ¬ RejectionStands history w := by
  rintro ⟨n, k, _, -, hk, hrej, hafter⟩
  rcases n with _ | _ | n
  · exact absurd (hafter 1 connect.kind i Nat.zero_lt_one h rfl) (by decide)
  · cases hk
    cases hrej
  · cases hk

/-- The rejection of the slower substream stands against the connect after it. -/
theorem late_not_accounted :
    ∃ w : World Bool, run step .opened (prompt ++ late) = some w ∧ Agreed history w
      ∧ (∀ i, (w.subs i).gone = true) ∧ w.acc.connectionState [] = .unauthenticated
      ∧ ¬ RejectionStands history w := by
  refine ⟨_, rfl, fun i => ?_, fun i => ?_, rfl, not_stands_of_connect (i := true) ?_⟩
  · cases i <;> decide
  · cases i <;> rfl
  · decide

end Connection

end Datamancer
