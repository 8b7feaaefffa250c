import Datamancer.Core.Error
import Datamancer.Core.Loss
import Datamancer.Lib.ActionSystem
import Datamancer.Lib.Channel
import Datamancer.Lib.EvictRing

/-!
# Datamancer.Client.Sink

The delivery side of a client controller: an attached consumer channel, or a detached
resume ring that buffers until the next take (`ClientRing`, `ClientSink`, `deliver`,
`prepare_attach`, `flush_ring`).

`deliver` awaits room in the consumer's channel and `flush_ring` is a loop of delivers,
so the consumer may drain or drop its stream in between. What such a call has still to
hand to the sink is `replay`; while it is not empty the controller does nothing else. A
run interleaves the calls with the moves of the consumer (`SinkAction`).
-/

namespace Datamancer

/-! ### The resume ring -/

/-- One instrument's eviction accounting. -/
structure DroppedSpan where
  span : GapSpan
  firstSeq : Seq
  provider : String
  deriving DecidableEq, Repr

/-- One affected instrument's eviction record on flush. -/
structure InstrumentGap where
  firstSeq : Seq
  instrument : Instrument
  span : GapSpan
  provider : String
  deriving DecidableEq, Repr

/-- The `Gap` that `flush_ring` delivers for a record. -/
def InstrumentGap.toEvent (g : InstrumentGap) : MarketEvent :=
  .control ⟨g.span.fromSourceTs, g.span.fromSourceTs, g.firstSeq,
    .gap g.provider g.instrument g.span⟩

/-- A bounded buffer of events, each with its provider id, with per-instrument loss
accounting. -/
structure ClientRing where
  ring : EvictRing (MarketEvent × String)
  dropped : AList fun _ : Instrument => DroppedSpan

/-- Extend the dropped span of the evicted event's instrument (`note_drop`). -/
def noteDrop (dropped : AList fun _ : Instrument => DroppedSpan) (x : MarketEvent × String) :
    AList fun _ : Instrument => DroppedSpan :=
  match x.1.lossCoords (fun _ => x.2) with
  | none => dropped
  | some c =>
      match dropped.lookup c.instrument with
      | some d => dropped.insert c.instrument { d with span := d.span.absorb c.span }
      | none => dropped.insert c.instrument ⟨c.span, x.1.seq, c.provider⟩

namespace ClientRing

def new (capacity : Nat) : ClientRing := ⟨.new capacity, ∅⟩

/-- Push one event; the boolean tells an overflow. -/
def push (r : ClientRing) (x : MarketEvent × String) : ClientRing × Bool :=
  (⟨r.ring.push x, r.ring.evicted.elim r.dropped (noteDrop r.dropped)⟩, r.ring.evicted.isSome)

/-- The accounting of each affected instrument, in the order of the map. -/
def gaps (r : ClientRing) : List InstrumentGap :=
  r.dropped.entries.map fun e => ⟨e.2.firstSeq, e.1, e.2.span, e.2.provider⟩

/-- `into_parts` may list the gaps so: in the order of their first evicted `seq`, equal
ones in any order, as the map is iterated. -/
def IsGapOrder (r : ClientRing) (gaps : List InstrumentGap) : Prop :=
  gaps.Perm r.gaps ∧ gaps.Pairwise fun g h => g.firstSeq ≤ h.firstSeq

instance (r : ClientRing) (gaps : List InstrumentGap) : Decidable (r.IsGapOrder gaps) :=
  inferInstanceAs (Decidable (_ ∧ _))

end ClientRing

/-! ### The sink -/

inductive ClientSink
  | attached (tx : Channel MarketEvent)
  | detached (ring : ClientRing)

/-- The resume-buffer part of `ClientStats`. -/
structure ResumeStats where
  occupancy : Nat
  droppedEvents : Nat
  deriving DecidableEq

structure ClientOutput where
  sink : ClientSink
  ringCapacity : Nat
  /-- `default_buffer`, the capacity of a consumer channel. -/
  buffer : Nat
  stats : ResumeStats
  /-- What the call under way has still to hand to the sink. -/
  replay : List (MarketEvent × String)
  /-- The streams of earlier takes. -/
  former : List (Channel MarketEvent)

namespace ClientOutput

/-- A client before its first take. -/
def init (ringCapacity buffer : Nat) : ClientOutput :=
  ⟨.detached (.new ringCapacity), ringCapacity, buffer, ⟨0, 0⟩, [], []⟩

/-- Push into the ring of a detached sink. -/
def pushRing (o : ClientOutput) (ring : ClientRing) (x : MarketEvent × String) : ClientOutput :=
  { o with
    sink := .detached (ring.push x).1
    stats := ⟨(ring.push x).1.ring.buf.length,
      o.stats.droppedEvents + if (ring.push x).2 then 1 else 0⟩ }

/-- `deliver` of one event, as far as it need not wait: `none` is a `send` awaiting
room. -/
def deliver (o : ClientOutput) (x : MarketEvent × String) : Option ClientOutput :=
  match o.sink with
  | .attached tx =>
      match tx.trySend x.1 with
      | .sent tx => some { o with sink := .attached tx }
      | .full => none
      | .closed => some ({ o with former := o.former ++ [tx] }.pushRing (.new o.ringCapacity) x)
  | .detached ring => some (o.pushRing ring x)

/-- A fresh channel takes the place of the sink; the ring it replaces, if any, is to be
flushed. -/
def prepareAttach (o : ClientOutput) : Except Error (ClientOutput × Option ClientRing) :=
  let attached := { o with
    sink := .attached (.new o.buffer), stats := ⟨0, o.stats.droppedEvents⟩ }
  match o.sink with
  | .attached tx =>
      if tx.isOpen then .error .eventsAlreadyTaken
      else .ok ({ attached with former := o.former ++ [tx] }, none)
  | .detached ring => .ok (attached, some ring)

/-- What `flush_ring` delivers: the gaps, then the survivors. -/
def flushRing (o : ClientOutput) (ring : ClientRing) (gaps : List InstrumentGap) : ClientOutput :=
  { o with replay := (gaps.map fun g => (g.toEvent, g.provider)) ++ ring.ring.buf }

/-- The `Take` command; `gaps` is the order in which a ring lists its gaps. -/
def take (o : ClientOutput) (gaps : List InstrumentGap) : Option ClientOutput :=
  match o.prepareAttach with
  | .error _ => some o
  | .ok (o, none) => some o
  | .ok (o, some ring) => if ring.IsGapOrder gaps then some (o.flushRing ring gaps) else none

/-- The consumer takes one event, or drops its stream. -/
def consume (o : ClientOutput) : Option ClientOutput :=
  match o.sink with
  | .attached tx => tx.recv.map fun tx => { o with sink := .attached tx }
  | .detached _ => none

def dropStream (o : ClientOutput) : Option ClientOutput :=
  match o.sink with
  | .attached tx => if tx.isOpen then some { o with sink := .attached tx.close } else none
  | .detached _ => none

/-- The streams handed out, in order. -/
def streams (o : ClientOutput) : List (Channel MarketEvent) :=
  match o.sink with
  | .attached tx => o.former ++ [tx]
  | .detached _ => o.former

/-- Everything consumer channels have accepted, over all takes. -/
def accepted (o : ClientOutput) : List MarketEvent := o.streams.flatMap Channel.accepted

/-- What the consumer has received, over all its streams. -/
def received (o : ClientOutput) : List MarketEvent := o.streams.flatMap Channel.taken

/-- The resume ring, while detached. -/
def ring (o : ClientOutput) : Option ClientRing :=
  match o.sink with
  | .attached _ => none
  | .detached ring => some ring

/-- The events in the ring. -/
def buffered (o : ClientOutput) : List (MarketEvent × String) := o.ring.elim [] fun r => r.ring.buf

end ClientOutput

/-- The consumer has received everything sent to it. -/
structure ClientOutput.Drained (o : ClientOutput) : Prop where
  streams : ∀ tx ∈ o.streams, tx.queue = []
  buffered : o.buffered = []
  replay : o.replay = []

theorem ClientOutput.Drained.received {o : ClientOutput} (h : o.Drained) :
    o.received = o.accepted := by
  unfold ClientOutput.received ClientOutput.accepted
  refine List.flatMap_congr ?_
  intro tx htx
  rw [Channel.accepted, h.streams tx htx, List.append_nil]

/-! ### Runs -/

inductive SinkAction
  /-- A call of `deliver` begins. -/
  | deliver (x : MarketEvent × String)
  /-- The call under way hands its next event to the sink. -/
  | proceed
  | take (gaps : List InstrumentGap)
  /-- The consumer takes one event. -/
  | consume
  | dropStream

namespace ClientOutput

def step (o : ClientOutput) : SinkAction → Option ClientOutput
  | .deliver x => if o.replay = [] then some { o with replay := [x] } else none
  | .proceed =>
      match o.replay with
      | [] => none
      | x :: replay => { o with replay }.deliver x
  | .take gaps => if o.replay = [] then o.take gaps else none
  | .consume => o.consume
  | .dropStream => o.dropStream

/-- What each action can do, with what it needs. -/
inductive Step (o : ClientOutput) : SinkAction → ClientOutput → Prop
  | deliver {x} (hidle : o.replay = []) : Step o (.deliver x) { o with replay := [x] }
  | send {x replay tx tx'} (hreplay : o.replay = x :: replay) (hsink : o.sink = .attached tx)
      (hsend : tx.trySend x.1 = .sent tx') :
      Step o .proceed { o with replay, sink := .attached tx' }
  | detach {x replay tx} (hreplay : o.replay = x :: replay) (hsink : o.sink = .attached tx)
      (hsend : tx.trySend x.1 = .closed) :
      Step o .proceed
        ({ o with replay, former := o.former ++ [tx] }.pushRing (.new o.ringCapacity) x)
  | push {x replay ring} (hreplay : o.replay = x :: replay) (hsink : o.sink = .detached ring) :
      Step o .proceed ({ o with replay }.pushRing ring x)
  | taken {gaps tx} (hidle : o.replay = []) (hsink : o.sink = .attached tx)
      (hopen : tx.isOpen = true) : Step o (.take gaps) o
  | attach {gaps tx} (hidle : o.replay = []) (hsink : o.sink = .attached tx)
      (hclosed : tx.isOpen = false) :
      Step o (.take gaps) { o with
        sink := .attached (.new o.buffer), stats := ⟨0, o.stats.droppedEvents⟩,
        former := o.former ++ [tx] }
  | flush {gaps ring} (hidle : o.replay = []) (hsink : o.sink = .detached ring)
      (hgaps : ring.IsGapOrder gaps) :
      Step o (.take gaps) { o with
        sink := .attached (.new o.buffer), stats := ⟨0, o.stats.droppedEvents⟩,
        replay := (gaps.map fun g => (g.toEvent, g.provider)) ++ ring.ring.buf }
  | consume {tx tx'} (hsink : o.sink = .attached tx) (hrecv : tx.recv = some tx') :
      Step o .consume { o with sink := .attached tx' }
  | dropStream {tx} (hsink : o.sink = .attached tx) (hopen : tx.isOpen = true) :
      Step o .dropStream { o with sink := .attached tx.close }

theorem step_cases {o o' : ClientOutput} {a : SinkAction} (h : o.step a = some o') :
    Step o a o' := by
  cases a with
  | deliver x =>
      obtain ⟨hidle, h⟩ := Option.ite_none_right_eq_some.mp h
      obtain rfl := Option.some.inj h
      exact .deliver hidle
  | proceed =>
      simp only [step] at h
      split at h
      · cases h
      · next x replay hreplay =>
        unfold ClientOutput.deliver at h
        split at h
        · next tx hsink =>
          split at h
          · next hsend =>
            obtain rfl := Option.some.inj h
            exact .send hreplay hsink hsend
          · cases h
          · next hsend =>
            obtain rfl := Option.some.inj h
            exact .detach hreplay hsink hsend
        · next ring hsink =>
          obtain rfl := Option.some.inj h
          exact .push hreplay hsink
  | take gaps =>
      obtain ⟨hidle, h⟩ := Option.ite_none_right_eq_some.mp h
      unfold ClientOutput.take prepareAttach at h
      cases hsink : o.sink with
      | attached tx =>
          cases hopen : tx.isOpen with
          | true =>
              simp only [hsink, hopen, if_true] at h
              obtain rfl := Option.some.inj h
              exact .taken hidle hsink hopen
          | false =>
              simp only [hsink, hopen] at h
              obtain rfl := Option.some.inj h
              exact .attach hidle hsink hopen
      | detached ring =>
          simp only [hsink] at h
          obtain ⟨hgaps, h⟩ := Option.ite_none_right_eq_some.mp h
          obtain rfl := Option.some.inj h
          exact .flush hidle hsink hgaps
  | consume =>
      change o.consume = some o' at h
      unfold ClientOutput.consume at h
      split at h
      · next tx hsink =>
        obtain ⟨tx', hrecv, rfl⟩ := Option.map_eq_some_iff.mp h
        exact .consume hsink hrecv
      · cases h
  | dropStream =>
      change o.dropStream = some o' at h
      unfold ClientOutput.dropStream at h
      split at h
      · next tx hsink =>
        obtain ⟨hopen, h⟩ := Option.ite_none_right_eq_some.mp h
        obtain rfl := Option.some.inj h
        exact .dropStream hsink hopen
      · cases h

end ClientOutput

/-- The events handed to `deliver` along a run, in order. -/
def handedIn (as : List SinkAction) : List (MarketEvent × String) :=
  as.filterMap fun
    | .deliver x => some x
    | _ => none

theorem handedIn_append (as bs : List SinkAction) :
    handedIn (as ++ bs) = handedIn as ++ handedIn bs := List.filterMap_append

end Datamancer
