import Datamancer.Client.Sink
import Datamancer.Live.FanOutLoss

/-!
# Datamancer.Client.Controller

The multiplex of one client session (`struct ClientController`) over the substreams of
its subscriptions.

A substream is what the authoritative controller of the pair stamps and fans out to the
client's referrer. The others on that fan-out make no difference to the referrer
(`FanOut.soloStep_of_step`), so a `Feed` keeps the client's part alone. The controller
interleaves its substreams as they come; while a `deliver` of its is under way it does
nothing else. A run is one interleaving of the authoritative controllers, the client
controller and the consumer (`MultiplexAction`).
-/

namespace Datamancer

/-! ### The authoritative side of a substream -/

/-- The authoritative session of a pair, as far as one referrer sees it. -/
structure Feed where
  nextSeq : UInt64
  /-- The cached activation and the client's referrer. -/
  solo : Option MarketEvent × Option Referrer

namespace Feed

def new : Feed := ⟨0, none, none⟩

/-- `forward` on the live path: stamp, then fan out. The counter stops short of
`Seq::SYNTHETIC`; reaching it panics. -/
def forward (f : Feed) (ev : MarketEvent) : Option Feed :=
  if f.nextSeq.toNat + 1 < 2 ^ 64 - 1 then
    (FanOut.soloStep f.solo (.fanout (ev.stampSeq ⟨f.nextSeq⟩))).map fun solo =>
      ⟨f.nextSeq + 1, solo⟩
  else none

theorem forward_eq_some {f f' : Feed} {ev : MarketEvent} (hf : f.forward ev = some f') :
    f.nextSeq.toNat + 1 < 2 ^ 64 - 1 ∧ f'.nextSeq = f.nextSeq + 1 ∧
    f'.solo.1 = (if (ev.stampSeq ⟨f.nextSeq⟩).isActivation then some (ev.stampSeq ⟨f.nextSeq⟩)
      else f.solo.1) ∧
    f'.solo.2 = f.solo.2.bind fun r => r.fanout (ev.stampSeq ⟨f.nextSeq⟩) := by
  unfold forward at hf
  obtain ⟨hroom, hf⟩ := Option.ite_none_right_eq_some.mp hf
  obtain ⟨solo, hsolo, rfl⟩ := Option.map_eq_some_iff.mp hf
  obtain rfl := Option.some.inj hsolo
  exact ⟨hroom, rfl, rfl, rfl⟩

/-- The client joins as a referrer. -/
def join (f : Feed) : Feed :=
  { f with
    solo := (f.solo.1, some ⟨FanOut.joined ⟨∅, f.solo.1, false⟩ (.new defaultBuffer), none⟩) }

/-- The client's referrer is gone. -/
def leave (f : Feed) : Feed := { f with solo := (f.solo.1, none) }

end Feed

/-! ### The client controller -/

/-- Recorded provider connection state. -/
inductive ConnState
  | connected
  | disconnected
  deriving DecidableEq, Repr

structure ClientController where
  /-- The subscriptions, each with the provider id of its guard. -/
  entries : AList fun _ : Pair => String
  seenProviderState : AList fun _ : String => ConnState
  lastProviderError : AList fun _ : String => String
  output : ClientOutput

namespace ClientController

/-- Record a transition of a provider; `true` when it is new. -/
def noteConn (c : ClientController) (provider : String) (new : ConnState) :
    Bool × ClientController :=
  if c.seenProviderState.lookup provider = some new then (false, c)
  else (true, { c with seenProviderState := c.seenProviderState.insert provider new })

/-- `true` when the error exactly repeats the last one for the provider. -/
def duplicateError (c : ClientController) (provider message : String) : Bool × ClientController :=
  if c.lastProviderError.lookup provider = some message then (true, c)
  else (false, { c with lastProviderError := c.lastProviderError.insert provider message })

section

variable (c : ClientController) (provider message : String) (new : ConnState)

@[simp] theorem output_noteConn : (c.noteConn provider new).2.output = c.output := by
  unfold noteConn
  split <;> rfl

@[simp] theorem entries_noteConn : (c.noteConn provider new).2.entries = c.entries := by
  unfold noteConn
  split <;> rfl

@[simp] theorem output_duplicateError :
    (c.duplicateError provider message).2.output = c.output := by
  unfold duplicateError
  split <;> rfl

@[simp] theorem entries_duplicateError :
    (c.duplicateError provider message).2.entries = c.entries := by
  unfold duplicateError
  split <;> rfl

end

/-- Route one event of a substream: what is delivered for it, if anything. -/
def route (c : ClientController) (key : Pair) (ev : MarketEvent) :
    Option (MarketEvent × String) × ClientController :=
  let ringProvider := (c.entries.lookup key).getD key.1.provider
  match ev with
  | .control ⟨_, _, _, .sessionClosing⟩ => (none, c)
  | .control ⟨_, _, _, .providerConnected provider⟩ =>
      let noted := c.noteConn provider .connected
      (if noted.1 then some (ev, ringProvider) else none, noted.2)
  | .control ⟨_, _, _, .providerDisconnected provider _ _⟩ =>
      let noted := c.noteConn provider .disconnected
      (if noted.1 then some (ev, ringProvider) else none, noted.2)
  | .control ⟨_, _, _, .providerError provider message⟩ =>
      let duplicate := c.duplicateError provider message
      (if duplicate.1 then none else some (ev, ringProvider), duplicate.2)
  | _ => (some (ev, ringProvider), c)

@[simp] theorem output_route (c : ClientController) (key : Pair) (ev : MarketEvent) :
    (c.route key ev).2.output = c.output := by
  unfold route
  split <;> simp

@[simp] theorem entries_route (c : ClientController) (key : Pair) (ev : MarketEvent) :
    (c.route key ev).2.entries = c.entries := by
  unfold route
  split <;> simp

/-- An event goes on as it is, or not at all. -/
theorem route_event {c : ClientController} {key : Pair} {ev : MarketEvent}
    {x : MarketEvent × String} (h : (c.route key ev).1 = some x) : x.1 = ev := by
  unfold route at h
  split at h
  · cases h
  · obtain ⟨-, h⟩ := Option.ite_none_right_eq_some.mp h
    rw [← Option.some.inj h]
  · obtain ⟨-, h⟩ := Option.ite_none_right_eq_some.mp h
    rw [← Option.some.inj h]
  · obtain ⟨-, h⟩ := Option.ite_none_left_eq_some.mp h
    rw [← Option.some.inj h]
  · rw [← Option.some.inj h]

end ClientController

/-- `subscription_changed`: a client-local control, read off the wall clock at `now`. -/
def subscriptionChanged (key : Pair) (provider : String) (active : Bool) (now : Timestamp) :
    MarketEvent :=
  .control ⟨now, now, Seq.synthetic, .subscriptionChanged provider key.1 key.2 active⟩

/-- `emit_session_closing`. -/
def clientClosing (now : Timestamp) : MarketEvent :=
  .control ⟨now, now, Seq.synthetic, .sessionClosing⟩

end Datamancer
