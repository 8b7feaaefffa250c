import Datamancer.Session.Controller
import Datamancer.Session.Tile

/-!
# Datamancer.Session.Segments

The historical read-through path: `stream_segments` over a planned segment
sequence, and the two runs of a `Scope::Historical` session built on the same
pieces, `run_historical_cached` and the single-fetch `run_historical`.

A `select!` loop polls commands, subscriber removals, live arrivals and the
segment's own stream in an order the scheduler chooses. That order is an explicit
list of `Arm`s; when it runs out the stream is drained. Next to its outcome a run
reports, per visited segment, what the cache or the provider answered.
-/

namespace Datamancer

/-! ### What a loop polls -/

/-- The branch a `select!` takes next. A removal carries whether it triggers the
teardown of a backfill. -/
inductive Arm
  | cmd (cmd : Option SessionCommand)
  | removal (teardown : Bool)
  | live (ev : Option MarketEvent)
  | next
  deriving DecidableEq, Repr

/-- Live-side plumbing of a backfill (`BackfillSide`): the live edge, whether the
live channel is still polled, and the arrivals pushed to the pending ring. -/
structure LiveSide where
  edge : Timestamp
  polled : Bool
  pending : List MarketEvent

/-- `buffer_live_arrival`; a closed live side is parked. -/
def LiveSide.bufferLiveArrival (l : LiveSide) : Option MarketEvent → LiveSide
  | some ev => if l.polled then { l with pending := l.pending ++ [ev] } else l
  | none => { l with polled := false }

/-- A controller streaming segments, with its live side during a backfill. -/
structure StreamState (σ : Type) where
  ctl : Controller σ
  live : Option LiveSide

def StreamState.edge {σ : Type} (st : StreamState σ) : Option Timestamp :=
  st.live.map LiveSide.edge

/-- How a `select!` loop ends: its stream is exhausted, or the controller exits. -/
inductive LoopEnd
  | exhausted
  | closed
  deriving DecidableEq, Repr

/-- What a visited segment came to. -/
inductive SegmentReport
  /-- A covered segment without a cache, gapped. -/
  | vanished
  /-- A covered segment whose replay did not open, gapped. -/
  | openFailed (e : Error)
  | replayed (evs : List MarketEvent)
  /-- A fetch that was joined, and the key and batch stored for it, if any. -/
  | fetched (run : FetchRun) (stored : Option (CacheKey × List MarketEvent))
  /-- The controller exited while streaming the segment. -/
  | interrupted

/-- How the loop over the segments goes on after one of them. -/
inductive SegmentEnd
  | next
  | abandon
  | closed
  deriving DecidableEq, Repr

/-- Outcome of streaming a planned segment sequence. -/
inductive SegmentOutcome
  | done
  | closed
  deriving DecidableEq, Repr

/-- What a fetch has brought so far: the largest data `source_ts`, and the batch
kept for the cache write. -/
structure FetchProgress where
  maxDataTs : Option Timestamp
  batch : List MarketEvent

/-- Account for one received event; the batch is kept only when it will be stored. -/
def FetchProgress.receive (store : Bool) (p : FetchProgress) (ev : MarketEvent) : FetchProgress :=
  ⟨p.maxDataTs.merge max ev.dataSourceTs, if store then p.batch ++ [ev] else p.batch⟩

/-- The message of a failed fetch; `none` when it succeeded or was cancelled. -/
def FetchJoin.fetchError : FetchJoin → Option String
  | .ok => none
  | .err e => some e.providerErrorMessage
  | .cancelled => none
  | .panicked message => some ("fetch task panicked: " ++ message)

/-! ### The loops -/

section Loops

variable {σ β : Type}

/-- Drain a stream: send every item, and account for it. -/
def drain (send : Controller σ → MarketEvent → Option (Controller σ))
    (account : β → MarketEvent → β) :
    List MarketEvent → Controller σ → β → Option (Controller σ × β)
  | [], c, b => some (c, b)
  | ev :: evs, c, b => do
      let c ← send c ev
      drain send account evs c (account b ev)

/-- One `select!` loop over a stream, in the order given by the arms. -/
def selectLoop (send : Controller σ → MarketEvent → Option (Controller σ))
    (account : β → MarketEvent → β) :
    List Arm → List MarketEvent → StreamState σ → β → Option (LoopEnd × StreamState σ × β)
  | [], evs, st, b => do
      let (ctl, b) ← drain send account evs st.ctl b
      return (.exhausted, { st with ctl }, b)
  | .cmd cmd :: arms, evs, st, b => do
      let (go, ctl) ← st.ctl.handleCommand cmd
      if go then selectLoop send account arms evs { st with ctl } b
      else return (.closed, { st with ctl }, b)
  | .removal teardown :: arms, evs, st, b =>
      if teardown && st.live.isSome then do
        let ctl ← st.ctl.shutdown
        return (.closed, { st with ctl }, b)
      else selectLoop send account arms evs st b
  | .live ev :: arms, evs, st, b =>
      selectLoop send account arms evs
        { st with live := st.live.map fun l => l.bufferLiveArrival ev } b
  | .next :: _, [], st, b => some (.exhausted, st, b)
  | .next :: arms, ev :: evs, st, b => do
      let ctl ← send st.ctl ev
      selectLoop send account arms evs { st with ctl } (account b ev)

end Loops

/-! ### One segment -/

section Segments

variable {σ : Type} [HistoricalCache σ] (provider : Provider) (options : PersistenceOptions)

/-- The cache write of a fetched segment; an error is only logged. -/
def Controller.storeClaim (c : Controller σ) (f claimTo : Timestamp) (batch : List MarketEvent) :
    Controller σ :=
  if options.writeCache then
    { c with cache := c.cache.map fun cache =>
        (HistoricalCache.store cache (c.cacheKey f claimTo) batch).2 }
  else c

/-- The key and batch of that write, if it is made. -/
def Controller.claimed (c : Controller σ) (f claimTo : Timestamp) (batch : List MarketEvent) :
    Option (CacheKey × List MarketEvent) :=
  if options.writeCache && c.cache.isSome then some (c.cacheKey f claimTo, batch) else none

/-- A covered segment: replayed from the cache, or gapped when that fails. -/
def streamCovered (arms : List Arm) (f t : Timestamp) (st : StreamState σ) :
    Option (SegmentEnd × StreamState σ × SegmentReport) :=
  match st.ctl.cache with
  | none => do
      let ctl ← st.ctl.emitGap f f t
      return (.next, { st with ctl }, .vanished)
  | some cache =>
      match HistoricalCache.open cache (st.ctl.cacheKey f t)
        ⟨[st.ctl.inner.instrument], [st.ctl.inner.kind], f, t⟩ with
      | .error e => do
          let ctl ← st.ctl.emitGap f f t
          return (.next, { st with ctl }, .openFailed e)
      | .ok evs => do
          match ← selectLoop Controller.emit (fun () _ => ()) arms evs st () with
          | (.closed, st, _) => return (.closed, st, .interrupted)
          | (.exhausted, st, _) => return (.next, st, .replayed evs)

/-- The fetch a controller makes for a range. -/
def Controller.fetch (c : Controller σ) (f t : Timestamp) : FetchRun :=
  provider.fetchHistory c.historyFetches (c.historyRequest f t)

/-- The gap of what a failed fetch left unconfirmed, if anything. -/
def Controller.emitRemainder (c : Controller σ) (confirmedTo gapTo : Timestamp) :
    Option (Controller σ) :=
  if confirmedTo < gapTo then c.emitGap confirmedTo confirmedTo gapTo else some c

/-- The end of a gap segment, once its fetch is joined: what is confirmed is stored,
and a failed fetch gaps the remainder, through to the live edge when there is one. -/
def settleGap (f t : Timestamp) (run : FetchRun) (p : FetchProgress) (st : StreamState σ) :
    Option (SegmentEnd × StreamState σ × SegmentReport) :=
  match run.joined.fetchError with
  | none =>
      -- A segment ending at the live edge is claimed only as far as received.
      let claimTo := if st.edge = some t then confirmedPrefixEnd p.maxDataTs f t else t
      some (.next, { st with ctl := st.ctl.storeClaim options f claimTo p.batch },
        .fetched run (st.ctl.claimed options f claimTo p.batch))
  | some message => do
      let confirmedTo := confirmedPrefixEnd p.maxDataTs f t
      let gapTo := st.edge.getD t
      let ctl := st.ctl.storeClaim options f confirmedTo p.batch
      let ctl ← ctl.emitRemainder confirmedTo gapTo
      let ctl ← ctl.emitProviderError confirmedTo message
      return (.abandon, { st with ctl },
        .fetched run (st.ctl.claimed options f confirmedTo p.batch))

/-- A gap segment: fetched, delivered, and stored as far as it is confirmed. -/
def streamGap (arms : List Arm) (f t : Timestamp) (st : StreamState σ) :
    Option (SegmentEnd × StreamState σ × SegmentReport) := do
  let run := st.ctl.fetch provider f t
  let store := options.writeCache && st.ctl.cache.isSome
  let st := { st with ctl := { st.ctl with historyFetches := st.ctl.historyFetches + 1 } }
  match ← selectLoop Controller.emit (FetchProgress.receive store) arms run.sent st ⟨none, []⟩ with
  | (.closed, st, _) => return (.closed, st, .interrupted)
  | (.exhausted, st, p) => settleGap options f t run p st

def streamSegment (arms : List Arm) (seg : Segment) (st : StreamState σ) :
    Option (SegmentEnd × StreamState σ × SegmentReport) :=
  match seg with
  | .covered f t => streamCovered arms f t st
  | .gap f t => streamGap provider options arms f t st

/-- `stream_segments`: the segments in order, until one fails or the controller
exits. `arms i` schedules the `i`-th of them. -/
def streamSegments (arms : Nat → List Arm) : List Segment → StreamState σ →
    Option (SegmentOutcome × StreamState σ × List (Segment × SegmentReport))
  | [], st => some (.done, st, [])
  | seg :: segs, st => do
      let (e, st, report) ← streamSegment provider options (arms 0) seg st
      match e with
      | .next => do
          let (outcome, st, reports) ← streamSegments (fun i => arms (i + 1)) segs st
          return (outcome, st, (seg, report) :: reports)
      | .abandon => return (.done, st, [(seg, report)])
      | .closed => return (.closed, st, [(seg, report)])

end Segments

/-! ### What a loop does -/

section LoopSpecs

open Controller (Emits Trail)

variable {σ β : Type} {send : Controller σ → MarketEvent → Option (Controller σ)}
  {account : β → MarketEvent → β}

theorem drain_emits (hsend : ∀ {c ev c'}, send c ev = some c' → Emits c c' [ev])
    {evs : List MarketEvent} {c c' : Controller σ} {b b' : β}
    (h : drain send account evs c b = some (c', b')) :
    Emits c c' evs ∧ b' = evs.foldl account b := by
  induction evs generalizing c b with
  | nil =>
      obtain ⟨rfl, rfl⟩ := Prod.mk.inj (Option.some.inj h)
      exact ⟨.refl c, rfl⟩
  | cons ev evs ih =>
      obtain ⟨c₁, hc₁, hrest⟩ := Option.bind_eq_some_iff.mp h
      obtain ⟨hemit, hb⟩ := ih hrest
      exact ⟨(hsend hc₁).trans hemit, hb⟩

/-- Whatever is polled in between, a loop that exhausts its stream has sent exactly
its items, and no loop touches the cache, the fetch count or the live edge. -/
theorem selectLoop_emits (hsend : ∀ {c ev c'}, send c ev = some c' → Emits c c' [ev])
    {arms : List Arm} {evs : List MarketEvent} {st st' : StreamState σ} {b b' : β} {e : LoopEnd}
    (h : selectLoop send account arms evs st b = some (e, st', b')) :
    ∃ out, Emits st.ctl st'.ctl out ∧ st'.edge = st.edge
      ∧ (e = .exhausted → out = evs ∧ b' = evs.foldl account b) := by
  induction arms generalizing evs st b with
  | nil =>
      obtain ⟨⟨c, b₁⟩, hdrain, hrest⟩ := Option.bind_eq_some_iff.mp h
      obtain ⟨hemit, rfl⟩ := drain_emits hsend hdrain
      cases Option.some.inj hrest
      exact ⟨evs, hemit, rfl, fun _ => ⟨rfl, rfl⟩⟩
  | cons arm arms ih =>
      cases arm with
      | cmd cmd =>
          obtain ⟨⟨go, c⟩, hcmd, hrest⟩ := Option.bind_eq_some_iff.mp h
          obtain ⟨out, hout, -, hgo⟩ := Controller.emits_handleCommand hcmd
          cases go with
          | true =>
              obtain ⟨out', hout', hedge, hex⟩ := ih hrest
              obtain rfl := hgo rfl
              exact ⟨out', hout.trans hout', hedge, hex⟩
          | false =>
              cases Option.some.inj hrest
              exact ⟨out, hout, rfl, fun hne => absurd hne (by decide)⟩
      | removal teardown =>
          rw [selectLoop] at h
          split_ifs at h with htear
          · obtain ⟨c, hshut, hrest⟩ := Option.bind_eq_some_iff.mp h
            cases Option.some.inj hrest
            exact ⟨_, Controller.emits_shutdown hshut, rfl, fun hne => absurd hne (by decide)⟩
          · exact ih h
      -- an arrival is buffered aside: it is no item of the stream, and moves no edge
      | live ev =>
          obtain ⟨out, hout, hedge, hex⟩ := ih h
          refine ⟨out, hout, hedge.trans ?_, hex⟩
          cases hlive : st.live with
          | none => simp [StreamState.edge, hlive]
          | some l =>
              cases ev with
              | none => simp [StreamState.edge, hlive, LiveSide.bufferLiveArrival]
              | some ev =>
                  simp only [StreamState.edge, hlive, Option.map_some, LiveSide.bufferLiveArrival]
                  split_ifs <;> rfl
      | next =>
          cases evs with
          | nil =>
              cases Option.some.inj h
              exact ⟨[], .refl _, rfl, fun _ => ⟨rfl, rfl⟩⟩
          | cons ev evs =>
              obtain ⟨c, hc, hrest⟩ := Option.bind_eq_some_iff.mp h
              obtain ⟨out, hout, hedge, hex⟩ := ih hrest
              refine ⟨ev :: out, (hsend hc).trans hout, hedge, fun he => ?_⟩
              obtain ⟨rfl, rfl⟩ := hex he
              exact ⟨rfl, rfl⟩

/-- The largest data `source_ts` among the events of a fetch. -/
def maxDataTs (evs : List MarketEvent) : Option Timestamp :=
  evs.foldl (fun m ev => m.merge max ev.dataSourceTs) none

theorem foldl_receive (store : Bool) (evs : List MarketEvent) (p : FetchProgress) :
    evs.foldl (FetchProgress.receive store) p
      = ⟨evs.foldl (fun m ev => m.merge max ev.dataSourceTs) p.maxDataTs,
        if store then p.batch ++ evs else p.batch⟩ := by
  induction evs generalizing p with
  | nil => cases store <;> simp
  | cons ev evs ih =>
      rw [List.foldl_cons, ih]
      cases store <;> simp [FetchProgress.receive]

end LoopSpecs

/-! ### What a segment does

One constructor per way a segment can end, with everything the rest of the session
can see of it: what was emitted, what became of the cache, and what is reported. -/

section SegmentSpecs

open Controller (Emits Trail)

variable {σ : Type} [HistoricalCache σ] {provider : Provider} {options : PersistenceOptions}

/-- The end of the range a fetch claims: all of the segment when it succeeded away
from the live edge, the confirmed prefix otherwise. -/
def claimEnd (edge : Option Timestamp) (run : FetchRun) (f t : Timestamp) : Timestamp :=
  if run.joined.fetchError.isNone ∧ edge ≠ some t then t
  else confirmedPrefixEnd (maxDataTs run.sent) f t

/-- Both ends of a gap segment that was joined: the events sent were emitted, followed
by `controls`, and the claimed range was stored. -/
structure FetchStep (provider : Provider) (options : PersistenceOptions) (st st' : StreamState σ)
    (f t : Timestamp) (controls : List MarketEvent) : Prop where
  trail : Trail st.ctl st'.ctl ((st.ctl.fetch provider f t).sent ++ controls)
  cache : st'.ctl.cache = (st.ctl.storeClaim options f
    (claimEnd st.edge (st.ctl.fetch provider f t) f t) (st.ctl.fetch provider f t).sent).cache
  fetches : st'.ctl.historyFetches = st.ctl.historyFetches + 1

/-- What is reported of that store. -/
def Controller.claim (c : Controller σ) (provider : Provider) (options : PersistenceOptions)
    (edge : Option Timestamp) (f t : Timestamp) : Option (CacheKey × List MarketEvent) :=
  c.claimed options f (claimEnd edge (c.fetch provider f t) f t) (c.fetch provider f t).sent

/-- The controls of a failed fetch: the gap of what it left unconfirmed, and the
provider error. -/
def Controller.failureControls (c : Controller σ) (confirmedTo gapTo : Timestamp)
    (message : String) : List MarketEvent :=
  (if confirmedTo < gapTo then [c.gapControl confirmedTo confirmedTo gapTo] else [])
    ++ [c.providerErrorControl confirmedTo message]

inductive SegmentStep (provider : Provider) (options : PersistenceOptions)
    (st st' : StreamState σ) : Segment → SegmentEnd → SegmentReport → Prop
  | vanished {f t : Timestamp} (hcache : st.ctl.cache = none)
      (hemit : Emits st.ctl st'.ctl [st.ctl.gapControl f f t]) :
      SegmentStep provider options st st' (.covered f t) .next .vanished
  | openFailed {f t : Timestamp} {cache : σ} {e : Error} (hcache : st.ctl.cache = some cache)
      (hopen : HistoricalCache.open cache (st.ctl.cacheKey f t)
        ⟨[st.ctl.inner.instrument], [st.ctl.inner.kind], f, t⟩ = .error e)
      (hemit : Emits st.ctl st'.ctl [st.ctl.gapControl f f t]) :
      SegmentStep provider options st st' (.covered f t) .next (.openFailed e)
  | replayed {f t : Timestamp} {cache : σ} {evs : List MarketEvent}
      (hcache : st.ctl.cache = some cache)
      (hopen : HistoricalCache.open cache (st.ctl.cacheKey f t)
        ⟨[st.ctl.inner.instrument], [st.ctl.inner.kind], f, t⟩ = .ok evs)
      (hemit : Emits st.ctl st'.ctl evs) :
      SegmentStep provider options st st' (.covered f t) .next (.replayed evs)
  | fetched {f t : Timestamp} (hok : (st.ctl.fetch provider f t).joined.fetchError = none)
      (hstep : FetchStep provider options st st' f t []) :
      SegmentStep provider options st st' (.gap f t) .next
        (.fetched (st.ctl.fetch provider f t) (st.ctl.claim provider options st.edge f t))
  | failed {f t : Timestamp} {message : String}
      (herr : (st.ctl.fetch provider f t).joined.fetchError = some message)
      (hstep : FetchStep provider options st st' f t (st.ctl.failureControls
        (claimEnd st.edge (st.ctl.fetch provider f t) f t) (st.edge.getD t) message)) :
      SegmentStep provider options st st' (.gap f t) .abandon
        (.fetched (st.ctl.fetch provider f t) (st.ctl.claim provider options st.edge f t))
  | interrupted {seg : Segment} {out : List MarketEvent} (htrail : Trail st.ctl st'.ctl out)
      (hcache : st'.ctl.cache = st.ctl.cache) :
      SegmentStep provider options st st' seg .closed .interrupted

theorem streamCovered_step {arms : List Arm} {f t : Timestamp} {st st' : StreamState σ}
    {e : SegmentEnd} {report : SegmentReport}
    (h : streamCovered arms f t st = some (e, st', report)) :
    SegmentStep provider options st st' (.covered f t) e report ∧ st'.edge = st.edge := by
  unfold streamCovered at h
  cases hcache : st.ctl.cache with
  -- the cache has gone since the plan was made
  | none =>
      rw [hcache] at h
      obtain ⟨c, hc, hrest⟩ := Option.bind_eq_some_iff.mp h
      cases Option.some.inj hrest
      exact ⟨.vanished hcache (Controller.emits_emitGap hc), rfl⟩
  | some cache =>
      rw [hcache] at h
      dsimp only at h
      cases hopen : HistoricalCache.open cache (st.ctl.cacheKey f t)
          ⟨[st.ctl.inner.instrument], [st.ctl.inner.kind], f, t⟩ with
      | error e =>
          rw [hopen] at h
          obtain ⟨c, hc, hrest⟩ := Option.bind_eq_some_iff.mp h
          cases Option.some.inj hrest
          exact ⟨.openFailed hcache hopen (Controller.emits_emitGap hc), rfl⟩
      | ok evs =>
          rw [hopen] at h
          obtain ⟨⟨le, st₁, b⟩, hloop, hrest⟩ := Option.bind_eq_some_iff.mp h
          obtain ⟨out, hemit, hedge, hex⟩ := selectLoop_emits Controller.emits_emit hloop
          cases le with
          | closed =>
              cases Option.some.inj hrest
              exact ⟨.interrupted hemit.toTrail hemit.cache, hedge⟩
          | exhausted =>
              cases Option.some.inj hrest
              obtain ⟨rfl, -⟩ := hex rfl
              exact ⟨.replayed hcache hopen hemit, hedge⟩

/-- The write sees the cache, and the whole batch, as they were at the fetch. -/
theorem storeClaim_cache {c c' : Controller σ} (hinner : c'.inner = c.inner)
    (hcache : c'.cache = c.cache) (f u : Timestamp) (evs : List MarketEvent) :
    (c'.storeClaim options f u
      (if options.writeCache && c.cache.isSome then evs else [])).cache
      = (c.storeClaim options f u evs).cache := by
  simp only [Controller.storeClaim, Controller.cacheKey]
  split_ifs with hw hs
  · simp only [hcache, hinner]
  · have hnone : c.cache = none := by simpa [hw] using hs
    simp [hcache, hnone]
  · exact hcache

omit [HistoricalCache σ] in
theorem claimed_eq {c c' : Controller σ} (hinner : c'.inner = c.inner)
    (hcache : c'.cache = c.cache) (f u : Timestamp) (evs : List MarketEvent) :
    c'.claimed options f u (if options.writeCache && c.cache.isSome then evs else [])
      = c.claimed options f u evs := by
  simp only [Controller.claimed, Controller.cacheKey, hcache, hinner]
  split_ifs <;> rfl

theorem trail_storeClaim (options : PersistenceOptions) (c : Controller σ) (f u : Timestamp)
    (evs : List MarketEvent) :
    Trail c (c.storeClaim options f u evs) []
      ∧ (c.storeClaim options f u evs).historyFetches = c.historyFetches := by
  unfold Controller.storeClaim
  split_ifs
  · exact ⟨⟨rfl, rfl, rfl, by simp, by simp [Controller.stampAll]⟩, rfl⟩
  · exact ⟨.refl c, rfl⟩

/-- After a fetch that sent `evs`, the write of its batch: nothing more is emitted, and
the cache and what is reported are those of a write of all of `evs`. -/
theorem fetch_stored (options : PersistenceOptions) {c c' : Controller σ} {evs : List MarketEvent}
    (h : Emits { c with historyFetches := c.historyFetches + 1 } c' evs) (f u : Timestamp) :
    Trail c (c'.storeClaim options f u
        (if options.writeCache && c.cache.isSome then evs else [])) evs
      ∧ (c'.storeClaim options f u
        (if options.writeCache && c.cache.isSome then evs else [])).cache
        = (c.storeClaim options f u evs).cache
      ∧ (c'.storeClaim options f u
        (if options.writeCache && c.cache.isSome then evs else [])).historyFetches
        = c.historyFetches + 1
      ∧ c'.claimed options f u (if options.writeCache && c.cache.isSome then evs else [])
        = c.claimed options f u evs := by
  have htrail : Trail c c' evs :=
    ⟨h.inner, h.providerId, h.hasTapLog, h.nextSeq, h.delivered⟩
  obtain ⟨hstore, hfetches⟩ := trail_storeClaim options c' f u
    (if options.writeCache && c.cache.isSome then evs else [])
  refine ⟨by simpa using htrail.trans hstore, ?_, hfetches.trans h.historyFetches, ?_⟩
  · exact storeClaim_cache (c := c) h.inner h.cache f u evs
  · exact claimed_eq (c := c) h.inner h.cache f u evs

/-- The claimed end when the fetch succeeded. -/
theorem claimEnd_of_ok {run : FetchRun} (h : run.joined.fetchError = none)
    (edge : Option Timestamp) (f t : Timestamp) :
    (if edge = some t then confirmedPrefixEnd (maxDataTs run.sent) f t else t)
      = claimEnd edge run f t := by
  rw [claimEnd, h]
  by_cases ht : edge = some t <;> simp [ht]

/-- The claimed end when the fetch failed. -/
theorem claimEnd_of_error {run : FetchRun} {message : String}
    (h : run.joined.fetchError = some message) (edge : Option Timestamp) (f t : Timestamp) :
    confirmedPrefixEnd (maxDataTs run.sent) f t = claimEnd edge run f t := by
  rw [claimEnd, h]
  simp

omit [HistoricalCache σ] in
/-- The two controls of a failed fetch. -/
theorem emits_failure {c c₁ c₂ : Controller σ} {confirmedTo gapTo : Timestamp} {message : String}
    (hgap : c.emitRemainder confirmedTo gapTo = some c₁)
    (herror : c₁.emitProviderError confirmedTo message = some c₂) :
    Emits c c₂ (c.failureControls confirmedTo gapTo message) := by
  have herr := Controller.emits_emitProviderError herror
  unfold Controller.emitRemainder at hgap
  unfold Controller.failureControls
  split_ifs at hgap ⊢ with hlt
  · have hemit := Controller.emits_emitGap hgap
    have hpid : c₁.providerErrorControl confirmedTo message
        = c.providerErrorControl confirmedTo message := by
      rw [Controller.providerErrorControl, hemit.providerId, Controller.providerErrorControl]
    exact hpid ▸ hemit.trans herr
  · obtain rfl := Option.some.inj hgap
    exact herr

omit [HistoricalCache σ] in
/-- The controls of a failure depend on the controller's identity only. -/
theorem failureControls_congr {c c' : Controller σ} {evs : List MarketEvent} (h : Trail c c' evs)
    (confirmedTo gapTo : Timestamp) (message : String) :
    c'.failureControls confirmedTo gapTo message = c.failureControls confirmedTo gapTo message := by
  simp only [Controller.failureControls, Controller.gapControl, Controller.providerErrorControl,
    h.inner, h.providerId]

theorem settleGap_step {f t : Timestamp} {st st₁ st' : StreamState σ} {e : SegmentEnd}
    {report : SegmentReport}
    (hemit : Emits { st.ctl with historyFetches := st.ctl.historyFetches + 1 } st₁.ctl
      (st.ctl.fetch provider f t).sent)
    (hedge : st₁.edge = st.edge)
    (h : settleGap options f t (st.ctl.fetch provider f t)
      ⟨maxDataTs (st.ctl.fetch provider f t).sent, if options.writeCache && st.ctl.cache.isSome
        then (st.ctl.fetch provider f t).sent else []⟩ st₁ = some (e, st', report)) :
    SegmentStep provider options st st' (.gap f t) e report ∧ st'.edge = st.edge := by
  obtain ⟨htrail, hcache, hfetches, hclaim⟩ := fetch_stored options hemit f
    (claimEnd st.edge (st.ctl.fetch provider f t) f t)
  unfold settleGap at h
  cases hjoin : (st.ctl.fetch provider f t).joined.fetchError with
  | none =>
      simp only [hjoin, hedge, claimEnd_of_ok hjoin, hclaim] at h
      cases Option.some.inj h
      exact ⟨.fetched hjoin ⟨by simpa using htrail, hcache, hfetches⟩, hedge⟩
  | some message =>
      simp only [hjoin, hedge, claimEnd_of_error hjoin st.edge, hclaim] at h
      obtain ⟨c, hgap, hrest⟩ := Option.bind_eq_some_iff.mp h
      obtain ⟨c', herror, hrest⟩ := Option.bind_eq_some_iff.mp hrest
      cases Option.some.inj hrest
      have hfail := emits_failure hgap herror
      rw [failureControls_congr htrail] at hfail
      exact ⟨.failed hjoin ⟨htrail.trans hfail.toTrail, hfail.cache.trans hcache,
        hfail.historyFetches.trans hfetches⟩, hedge⟩

theorem streamGap_step {arms : List Arm} {f t : Timestamp} {st st' : StreamState σ}
    {e : SegmentEnd} {report : SegmentReport}
    (h : streamGap provider options arms f t st = some (e, st', report)) :
    SegmentStep provider options st st' (.gap f t) e report ∧ st'.edge = st.edge := by
  obtain ⟨⟨le, st₁, p⟩, hloop, hrest⟩ := Option.bind_eq_some_iff.mp h
  obtain ⟨out, hemit, hedge, hex⟩ := selectLoop_emits Controller.emits_emit hloop
  cases le with
  | closed =>
      cases Option.some.inj hrest
      have htrail : Trail st.ctl st'.ctl out :=
        ⟨hemit.inner, hemit.providerId, hemit.hasTapLog, hemit.nextSeq, hemit.delivered⟩
      exact ⟨.interrupted htrail hemit.cache, hedge⟩
  | exhausted =>
      obtain ⟨rfl, hp⟩ := hex rfl
      rw [foldl_receive] at hp
      subst hp
      exact settleGap_step hemit hedge hrest

theorem streamSegment_step {arms : List Arm} {seg : Segment} {st st' : StreamState σ}
    {e : SegmentEnd} {report : SegmentReport}
    (h : streamSegment provider options arms seg st = some (e, st', report)) :
    SegmentStep provider options st st' seg e report ∧ st'.edge = st.edge := by
  cases seg with
  | covered f t => exact streamCovered_step h
  | gap f t => exact streamGap_step h

theorem SegmentStep.inner {st st' : StreamState σ} {seg : Segment} {e : SegmentEnd}
    {report : SegmentReport} (h : SegmentStep provider options st st' seg e report) :
    st'.ctl.inner = st.ctl.inner := by
  cases h with
  | vanished hcache hemit => exact hemit.inner
  | openFailed hcache hfail hemit => exact hemit.inner
  | replayed hcache hok hemit => exact hemit.inner
  | fetched hok hstep => exact hstep.trail.inner
  | failed herr hstep => exact hstep.trail.inner
  | interrupted htrail hcache => exact htrail.inner

theorem FetchStep.isSome_cache {st st' : StreamState σ} {f t : Timestamp}
    {controls : List MarketEvent} (h : FetchStep provider options st st' f t controls) :
    st'.ctl.cache.isSome = st.ctl.cache.isSome := by
  rw [h.cache, Controller.storeClaim]
  split_ifs
  · exact Option.isSome_map
  · rfl

theorem SegmentStep.isSome_cache {st st' : StreamState σ} {seg : Segment} {e : SegmentEnd}
    {report : SegmentReport} (h : SegmentStep provider options st st' seg e report) :
    st'.ctl.cache.isSome = st.ctl.cache.isSome := by
  cases h with
  | vanished hcache hemit => rw [hemit.cache]
  | openFailed hcache hfail hemit => rw [hemit.cache]
  | replayed hcache hok hemit => rw [hemit.cache]
  | fetched hok hstep => exact hstep.isSome_cache
  | failed herr hstep => exact hstep.isSome_cache
  | interrupted htrail hcache => rw [hcache]

/-- What a step reports of a joined fetch: an answer of the provider for the segment, and
its claim under the session's own key. -/
theorem SegmentStep.of_fetched {st st' : StreamState σ} {f t : Timestamp} {e : SegmentEnd}
    {run : FetchRun} {stored : Option (CacheKey × List MarketEvent)}
    (h : SegmentStep provider options st st' (.gap f t) e (.fetched run stored)) :
    run = st.ctl.fetch provider f t
      ∧ stored = st.ctl.claimed options f (claimEnd st.edge run f t) run.sent := by
  cases h with
  | fetched hok hstep => exact ⟨rfl, rfl⟩
  | failed herr hstep => exact ⟨rfl, rfl⟩

/-- A run over a planned segment sequence, one step per visited segment. -/
inductive SegmentRun (provider : Provider) (options : PersistenceOptions) :
    StreamState σ → List Segment → SegmentOutcome → StreamState σ →
      List (Segment × SegmentReport) → Prop
  | done (st : StreamState σ) : SegmentRun provider options st [] .done st []
  | next {st st₁ st' : StreamState σ} {seg : Segment} {segs : List Segment}
      {outcome : SegmentOutcome} {report : SegmentReport} {reports : List (Segment × SegmentReport)}
      (hstep : SegmentStep provider options st st₁ seg .next report) (hedge : st₁.edge = st.edge)
      (hrest : SegmentRun provider options st₁ segs outcome st' reports) :
      SegmentRun provider options st (seg :: segs) outcome st' ((seg, report) :: reports)
  | abandon {st st' : StreamState σ} {seg : Segment} {segs : List Segment}
      {report : SegmentReport} (hstep : SegmentStep provider options st st' seg .abandon report)
      (hedge : st'.edge = st.edge) :
      SegmentRun provider options st (seg :: segs) .done st' [(seg, report)]
  | closed {st st' : StreamState σ} {seg : Segment} {segs : List Segment}
      {report : SegmentReport} (hstep : SegmentStep provider options st st' seg .closed report)
      (hedge : st'.edge = st.edge) :
      SegmentRun provider options st (seg :: segs) .closed st' [(seg, report)]

theorem streamSegments_run {arms : Nat → List Arm} {segs : List Segment} {st st' : StreamState σ}
    {outcome : SegmentOutcome} {reports : List (Segment × SegmentReport)}
    (h : streamSegments provider options arms segs st = some (outcome, st', reports)) :
    SegmentRun provider options st segs outcome st' reports := by
  induction segs generalizing arms st outcome st' reports with
  | nil =>
      cases Option.some.inj h
      exact .done st
  | cons seg segs ih =>
      obtain ⟨⟨e, st₁, report⟩, hseg, hrest⟩ := Option.bind_eq_some_iff.mp h
      obtain ⟨hstep, hedge⟩ := streamSegment_step hseg
      cases e with
      | next =>
          obtain ⟨⟨o, st₂, reports₁⟩, hrun, hrest⟩ := Option.bind_eq_some_iff.mp hrest
          cases Option.some.inj hrest
          exact .next hstep hedge (ih hrun)
      | abandon =>
          cases Option.some.inj hrest
          exact .abandon hstep hedge
      | closed =>
          cases Option.some.inj hrest
          exact .closed hstep hedge

/-- A run keeps the session's identity, its live edge and whether it has a cache, so
each claim of it is made as if from the start. -/
theorem SegmentRun.of_fetched {st st' : StreamState σ} {segs : List Segment}
    {outcome : SegmentOutcome} {reports : List (Segment × SegmentReport)}
    (h : SegmentRun provider options st segs outcome st' reports) {f t : Timestamp}
    {run : FetchRun} {stored : Option (CacheKey × List MarketEvent)}
    (hmem : (.gap f t, .fetched run stored) ∈ reports) :
    (∃ n, run = provider.fetchHistory n (st.ctl.historyRequest f t))
      ∧ stored = st.ctl.claimed options f (claimEnd st.edge run f t) run.sent := by
  have hfirst : ∀ {st st' : StreamState σ} {e : SegmentEnd},
      SegmentStep provider options st st' (.gap f t) e (.fetched run stored) →
      (∃ n, run = provider.fetchHistory n (st.ctl.historyRequest f t))
        ∧ stored = st.ctl.claimed options f (claimEnd st.edge run f t) run.sent := by
    intro st st' e hstep
    obtain ⟨hrun, hstored⟩ := hstep.of_fetched
    exact ⟨⟨_, hrun⟩, hstored⟩
  induction h with
  | done st => exact absurd hmem List.not_mem_nil
  | @next st st₁ st' seg segs outcome report reports hstep hedge hrest ih =>
      rcases List.mem_cons.mp hmem with heq | hmem
      · cases heq
        exact hfirst hstep
      · obtain ⟨⟨n, hrun⟩, hstored⟩ := ih hmem
        refine ⟨⟨n, ?_⟩, ?_⟩
        · rw [hrun, Controller.historyRequest, hstep.inner]
          rfl
        · rw [hstored, hedge, Controller.claimed, Controller.cacheKey, hstep.inner,
            hstep.isSome_cache]
          rfl
  | abandon hstep hedge =>
      cases List.mem_singleton.mp hmem
      exact hfirst hstep
  | closed hstep hedge =>
      cases List.mem_singleton.mp hmem
      exact hfirst hstep

end SegmentSpecs

/-! ### Whole historical sessions -/

/-- The environment of one historical session. -/
structure HistoricalEnv (σ : Type) where
  arms : Nat → List Arm
  /-- What other sessions do to the cache while this one waits for the fetch slot. -/
  whileWaiting : σ → σ
  /-- Whether the consumer has taken the stream, and dropped it, at the end. -/
  streamTaken : Bool
  consumerGone : Bool
  /-- Commands that arrive before the consumer drops its stream. -/
  lastCommands : List (Option SessionCommand)

section Runs

variable {σ : Type}

/-- The wait for the consumer to drop its stream. -/
def awaitDrop : List (Option SessionCommand) → Controller σ → Option (Controller σ)
  | [], c => c.shutdown
  | cmd :: cmds, c => do
      let (go, c) ← c.handleCommand cmd
      if go then awaitDrop cmds c else return c

/-- `finish_historical`: the shared handshake at the end of a historical session. -/
def finishHistorical (env : HistoricalEnv σ) (c : Controller σ) : Option (Controller σ) :=
  if !env.streamTaken then c.shutdown
  else do
    let c ← c.emitClosing
    if env.consumerGone then c.shutdown else awaitDrop env.lastCommands c

variable [HistoricalCache σ] (provider : Provider) (env : HistoricalEnv σ)

def wholeRange (f t : Timestamp) : List GapSpan := [⟨f, t⟩]

/-- `gaps()`, the whole range when it fails. -/
def gapsOrWhole (cache : σ) (key : CacheKey) : List GapSpan :=
  match HistoricalCache.gaps cache key with
  | .ok gaps => gaps
  | .error _ => wholeRange key.fromTs key.toTs

/-- The gaps a cached run plans with, and the cache once it has them. Anything to
fetch takes the fetch slot first and is re-read then, as others may have filled it. -/
def planGaps (options : PersistenceOptions) (cache : σ) (key : CacheKey) : List GapSpan × σ :=
  if options.readCache then
    let initial := gapsOrWhole cache key
    if initial = [] then (initial, cache)
    else (gapsOrWhole (env.whileWaiting cache) key, env.whileWaiting cache)
  else (wholeRange key.fromTs key.toTs, cache)

def runHistoricalCached (f t : Timestamp) (options : PersistenceOptions) (cache : σ)
    (c : Controller σ) : Option (Controller σ) := do
  let (gaps, cache) := planGaps env options cache (c.cacheKey f t)
  let st : StreamState σ := ⟨{ c with cache := some cache }, none⟩
  let (outcome, st, _) ← streamSegments provider options env.arms (tile f t gaps) st
  match outcome with
  | .closed => return st.ctl
  | .done => finishHistorical env st.ctl

/-- The single-fetch path: nothing is read from or written to the cache. -/
def runEphemeral (f t : Timestamp) (c : Controller σ) : Option (Controller σ) := do
  let run := c.fetch provider f t
  let st : StreamState σ := ⟨{ c with historyFetches := c.historyFetches + 1 }, none⟩
  match ← selectLoop Controller.forward (fun m ev => Option.merge max m ev.dataSourceTs)
      (env.arms 0) run.sent st none with
  | (.closed, st, _) => return st.ctl
  | (.exhausted, st, maxDataTs) => do
      let ctl ← match run.joined.fetchError with
        | none => some st.ctl
        | some message => st.ctl.emitProviderError (maxDataTs.getD f) message
      finishHistorical env ctl

/-- `run_historical`: the options are read once, when the session starts. -/
def runHistorical (f t : Timestamp) (c : Controller σ) : Option (Controller σ) :=
  match c.persistence.usesCache, c.cache with
  | true, some cache => runHistoricalCached provider env f t c.persistence cache c
  | _, _ => runEphemeral provider env f t c

end Runs

end Datamancer
