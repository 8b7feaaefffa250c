import Datamancer.Core.Loss
import Datamancer.Lib.ActionSystem
import Datamancer.Lib.Channel

/-!
# Datamancer.Live.FanOut

The consumer-facing side of an authoritative controller (`struct FanOut`): one
bounded channel per referrer, and per referrer the loss it is owed as a `Gap`.

`fanout` is one pass over the referrers; what it does to one of them is
`Referrer.fanout`, which sees nothing of the others. The receivers drain and close
their channels between the calls, so a run of a fan-out interleaves its own calls
with those of the receivers (`FanOutAction`). A referrer that has left the table
keeps what is queued for it; nothing is sent to it any more.
-/

namespace Datamancer

/-- `default_buffer`: the capacity of the channels. -/
def defaultBuffer : Nat := 1024

/-! ### The loss owed to a referrer -/

/-- Accumulated, undelivered loss for one backed-up referrer. -/
structure PendingGap where
  instrument : Instrument
  provider : String
  /-- First lost `seq`: the start of the hole. -/
  firstSeq : Seq
  span : GapSpan
  deriving DecidableEq, Repr

/-- The coordinates of an event for a per-instrument `Gap` (`gap_coords`). -/
def gapCoords (ev : MarketEvent) : Option LossCoords := ev.lossCoords Instrument.provider

namespace PendingGap

def absorb (p : PendingGap) (span : GapSpan) : PendingGap := { p with span := p.span.absorb span }

def toEvent (p : PendingGap) : MarketEvent :=
  .control ⟨p.span.fromSourceTs, p.span.fromSourceTs, p.firstSeq,
    .gap p.provider p.instrument p.span⟩

@[simp] theorem seq_toEvent (p : PendingGap) : p.toEvent.seq = p.firstSeq := rfl

end PendingGap

/-- Fold a dropped event into a pending gap, starting one if needed (`absorb_drop`). -/
def absorbDrop (pending : Option PendingGap) (ev : MarketEvent) : Option PendingGap :=
  match gapCoords ev with
  | none => pending
  | some c =>
      match pending with
      | some p => some (p.absorb c.span)
      | none => some ⟨c.instrument, c.provider, ev.seq, c.span⟩

/-! ### One referrer -/

/-- A referrer's bounded channel and any loss owed to it. -/
structure Referrer where
  tx : Channel MarketEvent
  pending : Option PendingGap
  deriving DecidableEq

namespace Referrer

/-- Send the event itself; a full channel makes it a loss, a closed one ends the
referrer. -/
def relay (r : Referrer) (ev : MarketEvent) : Option Referrer :=
  match r.tx.trySend ev with
  | .sent tx => some { r with tx }
  | .full => some { r with pending := absorbDrop r.pending ev }
  | .closed => none

/-- One turn of the loop over the referrers in `fanout`: the owed gap goes ahead of the
event, and while it does not fit the event joins it. `none` is a dead referrer. -/
def fanout (r : Referrer) (ev : MarketEvent) : Option Referrer :=
  match r.pending with
  | none => r.relay ev
  | some p =>
      match r.tx.trySend p.toEvent with
      | .sent tx => Referrer.relay ⟨tx, none⟩ ev
      | .full => some { r with pending := absorbDrop r.pending ev }
      | .closed => none

/-- The channel of a referrer is drained or closed by its receiver. -/
def recv (r : Referrer) : Option Referrer := r.tx.recv.map fun tx => { r with tx }

def close (r : Referrer) : Referrer := { r with tx := r.tx.close }

end Referrer

/-! ### The fan-out -/

abbrev SubscriberId := Nat

structure FanOut where
  subscribers : AList fun _ : SubscriberId => Referrer
  /-- The last `SubscriptionChanged { active: true }`, replayed to a joiner. -/
  lastSubscriptionChanged : Option MarketEvent
  /-- Set once the first subscriber is added. -/
  hadSubscriber : Bool

/-- The `SubscriptionChanged { active: true }` that `fanout` caches. -/
def MarketEvent.isActivation : MarketEvent → Bool
  | .control ⟨_, _, _, .subscriptionChanged _ _ _ active⟩ => active
  | _ => false

namespace FanOut

def new : FanOut := ⟨∅, none, false⟩

/-- The channel of a joiner, with the cached subscription state in it. -/
def joined (f : FanOut) (tx : Channel MarketEvent) : Channel MarketEvent :=
  match f.lastSubscriptionChanged with
  | none => tx
  | some ev => tx.offer ev

def add (f : FanOut) (id : SubscriberId) (tx : Channel MarketEvent) : FanOut :=
  { f with hadSubscriber := true, subscribers := f.subscribers.insert id ⟨f.joined tx, none⟩ }

def remove (f : FanOut) (id : SubscriberId) : FanOut :=
  { f with subscribers := f.subscribers.erase id }

/-- Deliver one stamped event to every referrer; those whose channel has closed are
removed. -/
def fanout (f : FanOut) (ev : MarketEvent) : FanOut :=
  { f with
    lastSubscriptionChanged := if ev.isActivation then some ev else f.lastSubscriptionChanged
    subscribers := f.subscribers.filterMap fun _ r => r.fanout ev }

/-- What the receiver of one referrer does to its channel. -/
def onReferrer (f : FanOut) (id : SubscriberId) (act : Referrer → Option Referrer) :
    Option FanOut :=
  (f.subscribers.lookup id).bind fun r =>
    (act r).map fun r' => { f with subscribers := f.subscribers.insert id r' }

end FanOut

/-! ### Runs -/

inductive FanOutAction
  /-- A referrer joins with a fresh channel of this capacity. -/
  | add (id : SubscriberId) (cap : Nat)
  | remove (id : SubscriberId)
  | fanout (ev : MarketEvent)
  /-- The receiver of a referrer takes one event. -/
  | recv (id : SubscriberId)
  /-- The receiver of a referrer is dropped. -/
  | close (id : SubscriberId)

namespace FanOut

def step (f : FanOut) : FanOutAction → Option FanOut
  | .add id cap => some (f.add id (.new cap))
  | .remove id => some (f.remove id)
  | .fanout ev => some (f.fanout ev)
  | .recv id => f.onReferrer id Referrer.recv
  | .close id => f.onReferrer id fun r => some r.close

@[simp] theorem lookup_add (f : FanOut) (id : SubscriberId) (tx : Channel MarketEvent) :
    (f.add id tx).subscribers.lookup id = some ⟨f.joined tx, none⟩ := AList.lookup_insert _

theorem lookup_add_ne (f : FanOut) {id i : SubscriberId} (h : id ≠ i) (tx : Channel MarketEvent) :
    (f.add i tx).subscribers.lookup id = f.subscribers.lookup id := AList.lookup_insert_ne h

@[simp] theorem lookup_remove (f : FanOut) (id : SubscriberId) :
    (f.remove id).subscribers.lookup id = none := AList.lookup_erase id _

theorem lookup_remove_ne (f : FanOut) {id i : SubscriberId} (h : id ≠ i) :
    (f.remove i).subscribers.lookup id = f.subscribers.lookup id := AList.lookup_erase_ne h

@[simp] theorem lookup_fanout (f : FanOut) (ev : MarketEvent) (id : SubscriberId) :
    (f.fanout ev).subscribers.lookup id =
      (f.subscribers.lookup id).bind fun r => r.fanout ev := AList.lookup_filterMap _ _ _

/-- What a receiver does is seen in its own referrer alone. -/
theorem onReferrer_eq_some {f f' : FanOut} {i : SubscriberId} {act : Referrer → Option Referrer}
    (h : f.onReferrer i act = some f') :
    f'.lastSubscriptionChanged = f.lastSubscriptionChanged ∧
    (∃ r r', f.subscribers.lookup i = some r ∧ act r = some r' ∧
      f'.subscribers.lookup i = some r') ∧
    ∀ id, id ≠ i → f'.subscribers.lookup id = f.subscribers.lookup id := by
  obtain ⟨r, hr, hmap⟩ := Option.bind_eq_some_iff.mp h
  obtain ⟨r', hact, rfl⟩ := Option.map_eq_some_iff.mp hmap
  exact ⟨rfl, ⟨r, r', hr, hact, AList.lookup_insert _⟩, fun id hid => AList.lookup_insert_ne hid⟩

end FanOut

/-- The events handed to the fan-out along a run, in order. -/
def sentBy (as : List FanOutAction) : List MarketEvent :=
  as.filterMap fun
    | .fanout ev => some ev
    | _ => none

/-- The actions one referrer can notice. -/
def FanOutAction.concerns (id : SubscriberId) : FanOutAction → Bool
  | .add i _ => i == id
  | .remove i => i == id
  | .fanout _ => true
  | .recv i => i == id
  | .close i => i == id

end Datamancer
