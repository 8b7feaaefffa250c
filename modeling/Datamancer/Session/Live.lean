import Datamancer.Core.Loss
import Datamancer.Lib.EvictRing
import Datamancer.Session.Uninterrupted

/-!
# Datamancer.Session.Live

The controller of an authoritative live session: the creation-time backfill of a
stitched one (`run_backfill`), the pending ring and its flush at the seam, and the
loop of `run_live`.

The backfill streams its segments as a historical session does, and pushes what
arrives live meanwhile into the ring, unstamped (`LiveSide.pending` has the pushes). The
loop after it takes its branches in the order of an explicit schedule too; a run whose
schedule ends is one stopped there.
-/

namespace Datamancer

/-! ### The pending ring -/

/-- What an evicted event adds to the dropped span: the instant of a data event, the
span of a `Gap`, nothing for another control. -/
def MarketEvent.lossSpan : MarketEvent → Option GapSpan
  | .control ⟨_, _, _, .gap _ _ span⟩ => some span
  | ev => ev.dataSourceTs.map fun ts => ⟨ts, ts.saturatingSucc⟩

theorem MarketEvent.lossSpan_isSome (ev : MarketEvent) :
    ev.lossSpan.isSome = (ev.isData || ev.isGap) := by
  cases ev with
  | control c =>
      obtain ⟨_, _, _, kind⟩ := c
      cases kind <;> rfl
  | _ => rfl

/-- A bounded buffer of events with loss accounting. -/
structure EventRing where
  ring : EvictRing MarketEvent
  dropped : Option GapSpan
  /-- The `seq` of the first event evicted; read on the resume path only. -/
  droppedFirstSeq : Option Seq

namespace EventRing

def new (capacity : Nat) : EventRing := ⟨.new capacity, none, none⟩

/-- Extend the dropped span over an evicted event. -/
def noteDrop (r : EventRing) (ev : MarketEvent) : EventRing :=
  { r with
    droppedFirstSeq := some (r.droppedFirstSeq.getD ev.seq)
    dropped := match ev.lossSpan with
      | none => r.dropped
      | some span => some (r.dropped.elim span fun g => g.absorb span) }

def push (r : EventRing) (ev : MarketEvent) : EventRing :=
  { r.ring.evicted.elim r r.noteDrop with ring := r.ring.push ev }

def pushAll (r : EventRing) (evs : List MarketEvent) : EventRing := evs.foldl push r

/-- The ring's contents are those of the plain ring. -/
theorem ring_pushAll (r : EventRing) (evs : List MarketEvent) :
    (r.pushAll evs).ring = r.ring.pushAll evs := by
  induction evs generalizing r with
  | nil => rfl
  | cons ev evs ih => exact ih (r.push ev)

theorem dropped_noteDrop (r : EventRing) (ev : MarketEvent) (spans : List GapSpan)
    (h : r.dropped = GapSpan.hull spans) :
    (r.noteDrop ev).dropped = GapSpan.hull (spans ++ ev.lossSpan.toList) := by
  cases hs : ev.lossSpan with
  | none => simpa [noteDrop, hs] using h
  | some span =>
      rw [Option.toList_some, GapSpan.hull_append_singleton]
      simp [noteDrop, hs, h]

/-- The dropped span is the hull of what the evicted events cost. -/
theorem dropped_pushAll (r : EventRing) (evs : List MarketEvent) (spans : List GapSpan)
    (h : r.dropped = GapSpan.hull spans) :
    (r.pushAll evs).dropped
      = GapSpan.hull (spans ++ (r.ring.evictions evs).filterMap MarketEvent.lossSpan) := by
  induction evs generalizing r spans with
  | nil => simpa [pushAll, EvictRing.evictions] using h
  | cons ev evs ih =>
      show ((r.push ev).pushAll evs).dropped = _
      rw [EvictRing.evictions, List.filterMap_append, ← List.append_assoc]
      refine ih (r.push ev) _ ?_
      cases hev : r.ring.evicted with
      | none => simpa [push, hev] using h
      | some out =>
          have hdrop := r.dropped_noteDrop out spans h
          cases hs : out.lossSpan <;> simpa [push, hev, hs] using hdrop

end EventRing

namespace Controller

variable {σ : Type}

/-- `flush_backfill_pending`: one gap for what the ring evicted, then what it holds. -/
def flushBackfillPending (c : Controller σ) (ring : EventRing) : Option (Controller σ) := do
  let c ← match ring.dropped with
    | some span => c.emitGap span.fromSourceTs span.fromSourceTs span.toSourceTs
    | none => some c
  ring.ring.buf.foldlM forward c

end Controller

/-! ### The backfill -/

/-- What a backfill came to: how its segments ended, what each of them came to, what
arrived live meanwhile, and whether the live channel is still open. -/
structure Backfill where
  outcome : SegmentOutcome
  reports : List (Segment × SegmentReport)
  arrivals : List MarketEvent
  polled : Bool

/-- A session without a backfill, or one that has nothing to fetch. -/
def Backfill.none : Backfill := ⟨.done, [], [], true⟩

section Backfill

variable {σ : Type} [HistoricalCache σ] (provider : Provider) (ringCapacity : Nat)

/-- The plan of a backfill of `[f, edge)`. -/
def backfillGaps (f edge : Timestamp) (c : Controller σ) : List GapSpan :=
  match c.cache with
  | some cache =>
      if c.persistence.readCache then gapsOrWhole cache (c.cacheKey f edge) else wholeRange f edge
  | none => wholeRange f edge

/-- `run_backfill`: the segments of `[f, now)`, then the seam, unless the controller must
exit. -/
def runBackfill (arms : Nat → List Arm) (f : Timestamp) (c : Controller σ) :
    Option (Controller σ × Backfill) :=
  let edge := c.clock c.clockReads
  let c := { c with clockReads := c.clockReads + 1 }
  if edge ≤ f then some (c, .none)
  else do
    let (outcome, st, reports) ← streamSegments provider c.persistence arms
      (tile f edge (backfillGaps f edge c)) ⟨c, some ⟨edge, true, []⟩⟩
    let arrivals := st.live.elim [] LiveSide.pending
    let backfill := ⟨outcome, reports, arrivals, st.live.elim false LiveSide.polled⟩
    match outcome with
    | .closed => return (st.ctl, backfill)
    | .done => do
        let c ← st.ctl.flushBackfillPending ((EventRing.new ringCapacity).pushAll arrivals)
        return (c, backfill)

end Backfill

/-! ### The live loop -/

/-- The branch the live loop takes next. A removal carries whether it leaves the fan-out
empty; `none` is the end of a channel. -/
inductive LiveArm
  | cmd (cmd : Option SessionCommand)
  | removal (teardown : Bool)
  | arrival (ev : Option MarketEvent)
  | seed (res : Option MarketEvent)
  deriving DecidableEq, Repr

/-- The branches that do not make the controller exit by a command. -/
def LiveArm.Open : LiveArm → Prop
  | .cmd c => c ≠ none ∧ c ≠ some .close
  | _ => True

/-- The live loop: its controller, whether the provider's channel is open, whether a
latest-value seed is awaited, and the events it has forwarded. -/
structure LiveState (σ : Type) where
  ctl : Controller σ
  polled : Bool
  seeding : Bool
  later : List MarketEvent

section LiveLoop

variable {σ : Type}

/-- Forward one event in the loop. -/
def LiveState.forward (st : LiveState σ) (ev : MarketEvent) : Option (LiveState σ) := do
  let ctl ← st.ctl.forward ev
  return { st with ctl, later := st.later ++ [ev] }

/-- The loop of `run_live`, until it breaks or the schedule ends. The seed is taken once,
and discarded when data has been forwarded before. -/
def liveLoop : List LiveArm → LiveState σ → Option (LiveState σ)
  | [], st => some st
  | .cmd cmd :: arms, st => do
      let (go, ctl) ← st.ctl.handleCommand cmd
      if go then liveLoop arms { st with ctl } else return { st with ctl }
  | .removal teardown :: arms, st => if teardown then some st else liveLoop arms st
  | .arrival ev :: arms, st =>
      match ev, st.polled with
      | some ev, true => do liveLoop arms (← st.forward ev)
      | _, _ => some st
  | .seed res :: arms, st =>
      match res, st.seeding && !st.ctl.dataForwarded with
      | some ev, true => do liveLoop arms (← { st with seeding := false }.forward ev)
      | _, _ => liveLoop arms { st with seeding := false }

end LiveLoop

/-! ### Whole live sessions -/

/-- How a live session is scheduled. Its commands come from `AuthoritativeSession`, which
sends none that closes, on a channel its controller keeps open. -/
structure LiveEnv where
  backfill : Nat → List Arm
  live : List LiveArm
  backfill_open : ∀ i, ∀ arm ∈ backfill i, arm.Open
  live_open : ∀ arm ∈ live, arm.Open

/-- What a live session has done. -/
structure LiveRun (σ : Type) where
  ctl : Controller σ
  backfill : Backfill
  /-- The events the live loop has forwarded. -/
  later : List MarketEvent

section Runs

variable {σ : Type} [HistoricalCache σ] (provider : Provider) (ringCapacity : Nat) (env : LiveEnv)

/-- `run_live`; the teardown of the upstream changes nothing modelled here. -/
def runLive (backfillFrom : Option Timestamp) (seeding : Bool) (c : Controller σ) :
    Option (LiveRun σ) := do
  let (c, backfill) ← match backfillFrom with
    | some f => runBackfill provider ringCapacity env.backfill f c
    | none => some (c, .none)
  match backfill.outcome with
  | .closed => return ⟨c, backfill, []⟩
  | .done => do
      let st ← liveLoop env.live ⟨c, backfill.polled, seeding, []⟩
      return ⟨st.ctl, backfill, st.later⟩

/-- The controller `create_authoritative` spawns: only a session without a backfill is
seeded with the latest value. -/
def spawnLive (c : Controller σ) : Option (LiveRun σ) :=
  match c.inner.scope with
  | .live backfillFrom => runLive provider ringCapacity env backfillFrom backfillFrom.isNone c
  | .historical _ _ => none

end Runs

end Datamancer
