import Datamancer.Session.ReadThrough

/-!
# Datamancer.Session.Transparency

Read-through is invisible: over a provider that serves one history exactly, a
session run through any reachable cache delivers the data events of a session
without one, field by field (`readThrough_transparent`).

Reachable caches (`Reachable`) are those earlier sessions leave behind, whatever
their ranges, options and commands, one after the other or side by side. All of them
are faithful to the history (`Reachable.faithful`): every write claims a range no
further than the range it fetched.
-/

namespace Datamancer

open HalfOpen TursoCache
open Controller (Emits Trail)

/-- A provider's history of one stream: its events, no two at one instant. -/
structure History (s : CacheStream) where
  events : List MarketEvent
  routed : ∀ ev ∈ events, ev.routeKey = some (s.instrument, s.kind)
  strict : events.Pairwise fun a b => a.sourceTs < b.sourceTs

/-- The provider answers every request for the stream with the events of its range. -/
def ServesHistory (provider : Provider) {s : CacheStream} (H : History s) : Prop :=
  ∀ n f t, provider.fetchHistory n (s.request f t) = ⟨slice MarketEvent.sourceTs f t H.events, .ok⟩

/-- The caches earlier sessions of the stream leave behind. -/
inductive Reachable (provider : Provider) (s : CacheStream) : TursoCache → Prop
  | empty : Reachable provider s .empty
  /-- A whole session, from any reachable cache. -/
  | session {cache cache' : TursoCache} {c c' : Controller TursoCache}
      {env : HistoricalEnv TursoCache} {f t : Timestamp} (hcache : Reachable provider s cache)
      (hwait : Reachable provider s (env.whileWaiting cache)) (hc : c.cache = some cache)
      (hstream : c.inner.stream = s) (hrun : runHistorical provider env f t c = some c')
      (hc' : c'.cache = some cache') : Reachable provider s cache'
  /-- One write of a session that runs, or backfills, next to others. -/
  | write {cache : TursoCache} {st st' : StreamState TursoCache} {options : PersistenceOptions}
      {arms : Nat → List Arm} {segs : List Segment} {outcome : SegmentOutcome}
      {reports : List (Segment × SegmentReport)} {f t : Timestamp} {run : FetchRun}
      {key : CacheKey} {batch : List MarketEvent} (hcache : Reachable provider s cache)
      (hstream : st.ctl.inner.stream = s)
      (hrun : streamSegments provider options arms segs st = some (outcome, st', reports))
      (hmem : (.gap f t, .fetched run (some (key, batch))) ∈ reports) :
      Reachable provider s (cache.store key batch).2

variable {s : CacheStream} {H : History s} {provider : Provider}

theorem History.sorted (H : History s) : H.events.Pairwise fun a b => a.sourceTs ≤ b.sourceTs :=
  H.strict.imp le_of_lt

theorem ServesHistory.serves (h : ServesHistory provider H) :
    Serves .unstamped provider s H.events halfOpen where
  sent n f t := by
    rw [h n f t]
    rfl
  routed n f t ev hev := by
    rw [h n f t] at hev
    exact H.routed ev ((mem_slice _).mp hev).1
  succeeds n f t := by
    rw [h n f t]
    rfl
  contains f t ev hf ht := by simp [halfOpen, hf, ht]

/-- No two events of the history are at one instant. -/
theorem History.length_eventsOf (H : History s) (x : Timestamp) :
    (eventsOf H.events x).length ≤ 1 := length_eventsOf_of_strict H.strict x

/-! ### What earlier sessions leave behind -/

/-- A claim never goes past the end of its segment. -/
theorem lt_of_lt_claimEnd {edge : Option Timestamp} {run : FetchRun} {f t x : Timestamp}
    (hf : f ≤ x) (hx : x < claimEnd edge run f t) : x < t := by
  unfold claimEnd at hx
  split_ifs at hx
  · exact hx
  · exact (mem_confirmedPrefix.mp ⟨hf, hx⟩).1.2

/-- Whatever a session claims of what it fetched, the cache stays faithful. -/
theorem Faithful.store_claim {c : TursoCache} (h : Faithful .unstamped s H.events c)
    (hserves : ServesHistory provider H) (n : Nat) (edge : Option Timestamp) (f t : Timestamp) :
    Faithful .unstamped s H.events (c.store
      (s.key f (claimEnd edge (provider.fetchHistory n (s.request f t)) f t))
      (provider.fetchHistory n (s.request f t)).sent).2 := by
  generalize hu : claimEnd edge (provider.fetchHistory n (s.request f t)) f t = u
  have hroute := hserves.serves.routed n f t
  obtain ⟨hsep, hcov⟩ := @covered_store (s.key f u) _ hroute c h.separated
  refine ⟨hsep, h.agrees.store hroute (hserves.serves.sent n f t) ?_ fun x hx => ?_⟩
  · intro d _ hf hd
    exact hserves.serves.contains f t d hf (lt_of_lt_claimEnd hf (hu ▸ hd))
  · rcases (show x ∈ Set.Ico f u ∪ (c.coverageOf (s.key 0 0)).covered from hcov ▸ hx) with hin | hin
    · exact .inr ⟨hin, H.length_eventsOf x⟩
    · exact .inl hin

theorem SegmentStep.faithful {st st' : StreamState TursoCache} {options : PersistenceOptions}
    {seg : Segment} {e : SegmentEnd} {report : SegmentReport}
    (h : SegmentStep provider options st st' seg e report) (hserves : ServesHistory provider H)
    (hstream : st.ctl.inner.stream = s)
    (hfaithful : ∀ c, st.ctl.cache = some c → Faithful .unstamped s H.events c) :
    ∀ c, st'.ctl.cache = some c → Faithful .unstamped s H.events c := by
  have hfetch : ∀ {f t : Timestamp} {controls : List MarketEvent},
      FetchStep provider options st st' f t controls →
      ∀ c, st'.ctl.cache = some c → Faithful .unstamped s H.events c := by
    intro f t controls hstep c hc
    obtain ⟨rfl⟩ := hstream
    rw [hstep.cache, Controller.storeClaim] at hc
    split_ifs at hc with hwrite
    · obtain ⟨c₀, hc₀, rfl⟩ := Option.map_eq_some_iff.mp hc
      exact (hfaithful c₀ hc₀).store_claim hserves st.ctl.historyFetches st.edge f t
    · exact hfaithful c hc
  cases h with
  | vanished hcache hemit => exact fun c hc => hfaithful c (hemit.cache ▸ hc)
  | openFailed hcache hfail hemit => exact fun c hc => hfaithful c (hemit.cache ▸ hc)
  | replayed hcache hok hemit => exact fun c hc => hfaithful c (hemit.cache ▸ hc)
  | fetched hok hstep => exact hfetch hstep
  | failed herr hstep => exact hfetch hstep
  | interrupted htrail hcache => exact fun c hc => hfaithful c (hcache ▸ hc)

theorem SegmentRun.faithful {st st' : StreamState TursoCache} {options : PersistenceOptions}
    {segs : List Segment} {outcome : SegmentOutcome} {reports : List (Segment × SegmentReport)}
    (h : SegmentRun provider options st segs outcome st' reports)
    (hserves : ServesHistory provider H) (hstream : st.ctl.inner.stream = s)
    (hfaithful : ∀ c, st.ctl.cache = some c → Faithful .unstamped s H.events c) :
    ∀ c, st'.ctl.cache = some c → Faithful .unstamped s H.events c := by
  induction h with
  | done st => exact hfaithful
  | next hstep hedge hrest ih =>
      exact ih (hstep.inner ▸ hstream) (hstep.faithful hserves hstream hfaithful)
  | abandon hstep hedge => exact hstep.faithful hserves hstream hfaithful
  | closed hstep hedge => exact hstep.faithful hserves hstream hfaithful

/-- A whole session, closed or not, leaves a faithful cache behind. -/
theorem faithful_runHistorical {c c' : Controller TursoCache} {env : HistoricalEnv TursoCache}
    {f t : Timestamp} {cache : TursoCache} (hserves : ServesHistory provider H)
    (hstream : c.inner.stream = s) (hc : c.cache = some cache)
    (hcache : Faithful .unstamped s H.events cache)
    (hwait : Faithful .unstamped s H.events (env.whileWaiting cache))
    (hrun : runHistorical provider env f t c = some c') :
    ∀ cache', c'.cache = some cache' → Faithful .unstamped s H.events cache' := by
  have hfinish : ∀ {c₁ c₂ : Controller TursoCache}, finishHistorical env c₁ = some c₂ →
      c₂.cache = c₁.cache := by
    intro c₁ c₂ h
    obtain ⟨evs, hemit, -⟩ := emits_finishHistorical h
    exact hemit.cache
  unfold runHistorical at hrun
  cases huses : c.persistence.usesCache with
  | true =>
      rw [huses, hc] at hrun
      obtain ⟨⟨outcome, st, reports⟩, hstream', hrest⟩ := Option.bind_eq_some_iff.mp hrun
      have hkey : c.cacheKey f t = s.key f t := by
        rw [← hstream]
        rfl
      have hplan : Faithful .unstamped s H.events
          (planGaps env c.persistence cache (c.cacheKey f t)).2 :=
        hkey ▸ (plan_planGaps _ hcache hwait f t).1
      have hst : ∀ cache', st.ctl.cache = some cache' → Faithful .unstamped s H.events cache' := by
        refine (streamSegments_run hstream').faithful hserves hstream fun cache' h => ?_
        cases Option.some.inj h
        exact hplan
      intro cache' hcache'
      cases outcome with
      | closed =>
          cases Option.some.inj hrest
          exact hst cache' hcache'
      | done => exact hst cache' (hfinish hrest ▸ hcache')
  | false =>
      rw [huses, hc] at hrun
      -- the single-fetch path stores nothing
      obtain ⟨evs, hemit⟩ := emits_runEphemeral hrun
      intro cache' hcache'
      rw [hemit.cache, hc] at hcache'
      cases hcache'
      exact hcache

/-- Every reachable cache is faithful to the history. -/
theorem Reachable.faithful {cache : TursoCache} (h : Reachable provider s cache)
    (hserves : ServesHistory provider H) : Faithful .unstamped s H.events cache := by
  induction h with
  | empty => exact faithful_empty _ _ _
  | session hcache hwait hc hstream hrun hc' ihcache ihwait =>
      exact faithful_runHistorical hserves hstream hc ihcache ihwait hrun _ hc'
  | @write cache st st' options arms segs outcome reports f t run key batch hcache hstream hrun hmem
      ih =>
      obtain ⟨⟨n, hrun⟩, hstored⟩ := (streamSegments_run hrun).of_fetched hmem
      rw [Controller.claimed] at hstored
      split_ifs at hstored with hwrite
      cases Option.some.inj hstored
      obtain ⟨rfl⟩ := hstream
      rw [hrun]
      exact ih.store_claim hserves n st.edge f t

/-! ### The two paths -/

/-- The single-fetch path nobody interrupts completes, unless the counter runs out, and
delivers the history of its range. -/
theorem runEphemeral_delivers (env : HistoricalEnv TursoCache) (f t : Timestamp)
    {c : Controller TursoCache} (hserves : ServesHistory provider H) (hstream : c.inner.stream = s)
    (hroom : c.Room 0) (hopen : ∀ arm ∈ env.arms 0, arm.Open) :
    ((runEphemeral provider env f t c).isSome = true
        ↔ Completes env c (slice MarketEvent.sourceTs f t H.events).length)
      ∧ ∀ c', runEphemeral provider env f t c = some c' → c'.dataDelivered
        = c.dataDelivered
          ++ Controller.stampAll c.nextSeq (slice MarketEvent.sourceTs f t H.events) := by
  have hfetch : c.fetch provider f t = ⟨slice MarketEvent.sourceTs f t H.events, .ok⟩ := by
    obtain ⟨rfl⟩ := hstream
    exact hserves _ f t
  have hroute : ∀ ev ∈ slice MarketEvent.sourceTs f t H.events,
      ev.routeKey = some (s.instrument, s.kind) := fun ev hev =>
    H.routed ev ((mem_slice _).mp hev).1
  unfold runEphemeral
  rw [hfetch]
  -- from here on only the route of the events matters
  generalize slice MarketEvent.sourceTs f t H.events = evs at hroute ⊢
  dsimp only
  obtain ⟨hsome, hend⟩ := selectLoop_open Controller.emits_forward Controller.isSome_forward hopen
    (fun m ev => Option.merge max m ev.dataSourceTs) evs
    ⟨{ c with historyFetches := c.historyFetches + 1 }, none⟩ none hroom rfl
  cases hloop : selectLoop Controller.forward (fun m ev => Option.merge max m ev.dataSourceTs)
      (env.arms 0) evs ⟨{ c with historyFetches := c.historyFetches + 1 }, none⟩ none with
  | none =>
      rw [hloop] at hsome
      refine ⟨⟨fun hno => absurd hno (by simp), fun hc => ?_⟩, fun c' hno => absurd hno (by simp)⟩
      exact absurd (hsome.mpr hc.1) (by simp)
  | some r =>
      obtain ⟨le, st, m⟩ := r
      obtain ⟨rfl, -⟩ := hend hloop
      obtain ⟨out, hemit, -, hex⟩ := selectLoop_emits Controller.emits_forward hloop
      obtain ⟨rfl, -⟩ := hex rfl
      have htrail : Trail c st.ctl out :=
        ⟨hemit.inner, hemit.providerId, hemit.hasTapLog, hemit.nextSeq, hemit.delivered⟩
      exact finish_after env htrail hroute (hsome.mp (by rw [hloop]; rfl))

/-- A session sees the same data events with a cache as without. -/
theorem readThrough_transparent (hserves : ServesHistory provider H) {cache : TursoCache}
    (hcache : Reachable provider s cache) {env : HistoricalEnv TursoCache}
    {arms : Nat → List Arm} (hwait : Reachable provider s (env.whileWaiting cache))
    (hopen : ∀ i, ∀ arm ∈ env.arms i, arm.Open) (hopen' : ∀ i, ∀ arm ∈ arms i, arm.Open)
    {c : Controller TursoCache} (hstream : c.inner.stream = s) (hseq : c.nextSeq = 0)
    {options : PersistenceOptions}
    (hoptions : options = .cached ∨ options = .readOnly ∨ options = .refresh) (f t : Timestamp) :
    ((runHistorical provider env f t
        { c with persistence := options, cache := some cache }).map Controller.dataDelivered
      = (runHistorical provider { env with arms } f t
        { c with persistence := .none }).map Controller.dataDelivered)
    ∧ (H.events.length + 2 < 2 ^ 64 - 1 → (runHistorical provider env f t
        { c with persistence := options, cache := some cache }).isSome = true) := by
  have huses : options.usesCache = true := by
    rcases hoptions with rfl | rfl | rfl <;> rfl
  have hroom : c.Room 0 := by
    unfold Controller.Room
    rw [hseq]
    decide
  have hcached : runHistorical provider env f t
      { c with persistence := options, cache := some cache }
      = runHistoricalCached provider env f t options cache
        { c with persistence := options, cache := some cache } := by
    unfold runHistorical
    rw [huses]
  have hephemeral : runHistorical provider { env with arms } f t { c with persistence := .none }
      = runEphemeral provider { env with arms } f t { c with persistence := .none } := by
    unfold runHistorical
    cases c.cache <;> rfl
  obtain ⟨hsome, hdata⟩ := runHistoricalCached_planned options f t
    (c := { c with persistence := options, cache := some cache }) hserves.serves H.sorted hopen
    (hcache.faithful hserves) (hwait.faithful hserves) hstream hroom
  obtain ⟨hsome', hdata'⟩ := runEphemeral_delivers { env with arms } f t
    (c := { c with persistence := .none }) hserves hstream hroom (hopen' 0)
  rw [(plan_planGaps options (hcache.faithful hserves) (hwait.faithful hserves) f
    t).2.flatMap_planned H.sorted] at hsome hdata
  rw [hcached, hephemeral]
  constructor
  · -- Both paths stamp from `0`, and both end in the same handshake.
    have hboth : Completes env { c with persistence := options, cache := some cache }
        (slice MarketEvent.sourceTs f t H.events).length
        ↔ Completes { env with arms } { c with persistence := .none }
          (slice MarketEvent.sourceTs f t H.events).length := by
      unfold Completes
      refine and_congr Iff.rfl (Eq.to_iff (congrArg (· = true) ?_))
      exact isSome_finishHistorical_congr env rfl
    cases hrun : runHistoricalCached provider env f t options cache
        { c with persistence := options, cache := some cache } with
    | none =>
        rw [hrun] at hsome
        have hno : (runEphemeral provider { env with arms } f t
            { c with persistence := .none }).isSome ≠ true := fun h =>
          absurd (hsome.mpr (hboth.mpr (hsome'.mp h))) (by simp)
        rw [Option.not_isSome_iff_eq_none.mp hno]
    | some c₁ =>
        rw [hrun] at hsome
        obtain ⟨c₂, hc₂⟩ := Option.isSome_iff_exists.mp (hsome'.mpr (hboth.mp (hsome.mp rfl)))
        obtain ⟨evs, hsame, hdata₁⟩ := hdata c₁ hrun
        rw [hc₂, Option.map_some, Option.map_some, hdata₁, hdata' c₂ hc₂, stampAll_congr hsame]
        rfl
  · intro hlen
    refine hsome.mpr (completes_of_room ?_)
    have hslice := (slice_sublist MarketEvent.sourceTs f t H.events).length_le
    unfold Controller.Room
    rw [show ({ c with persistence := options, cache := some cache } :
      Controller TursoCache).nextSeq = 0 from hseq]
    rw [UInt64.toNat_zero]
    omega

/-- Two trades of one stream. -/
def twoTrades : History ⟨⟨"alpaca", .equity, "AAPL"⟩, .trade, .raw⟩ where
  events := [.trade ⟨⟨"alpaca", .equity, "AAPL"⟩, 5, 7, ⟨0⟩, ⟨1⟩, ⟨1⟩⟩,
    .trade ⟨⟨"alpaca", .equity, "AAPL"⟩, 6, 8, ⟨0⟩, ⟨2⟩, ⟨1⟩⟩]
  routed := by decide
  strict := by decide

/-- A provider of that history, whole. -/
def exactProvider : Provider :=
  ⟨"alpaca", fun _ r => ⟨slice MarketEvent.sourceTs r.fromTs r.toTs twoTrades.events, .ok⟩⟩

/-- A session of the stream over an empty cache, before its first event. -/
def freshSession : Controller TursoCache where
  inner := ⟨⟨"alpaca", .equity, "AAPL"⟩, .trade, .historical 0 10, .raw⟩
  providerId := "alpaca"
  persistence := .cached
  cache := some .empty
  hasTapLog := false
  nextSeq := 0
  dataForwarded := false
  historyFetches := 0
  clock := fun _ => 0
  clockReads := 0
  delivered := []
  teed := []
  acks := []

/-- Nothing but the session's own stream is polled, and nobody takes it. -/
def undisturbed : HistoricalEnv TursoCache where
  arms := fun _ => []
  whileWaiting := id
  streamTaken := false
  consumerGone := false
  lastCommands := []

/-- A cached session of `[0, 10)` after one of `[0, 6)`. -/
theorem readThrough_transparent_after_session :
    ∃ cache, Reachable exactProvider ⟨⟨"alpaca", .equity, "AAPL"⟩, .trade, .raw⟩ cache
      ∧ (cache.held (freshSession.cacheKey 0 10) 5).isSome = true
      ∧ (runHistorical exactProvider undisturbed 0 10
          { freshSession with persistence := .cached, cache := some cache }).map
            Controller.dataDelivered
        = (runHistorical exactProvider { undisturbed with arms := fun _ => [] } 0 10
          { freshSession with persistence := .none }).map Controller.dataDelivered := by
  obtain ⟨c', cache, hrun, hcache, hheld⟩ : ∃ c' cache,
      runHistorical exactProvider undisturbed 0 6 freshSession = some c' ∧ c'.cache = some cache
        ∧ (cache.held (freshSession.cacheKey 0 10) 5).isSome = true := ⟨_, _, rfl, rfl, rfl⟩
  have hreach : Reachable exactProvider ⟨⟨"alpaca", .equity, "AAPL"⟩, .trade, .raw⟩ cache :=
    .session .empty .empty rfl rfl hrun hcache
  have hserves : ServesHistory exactProvider twoTrades := fun _ _ _ => rfl
  exact ⟨cache, hreach, hheld, (readThrough_transparent hserves hreach hreach
    (by simp [undisturbed]) (by simp) rfl rfl (.inl rfl) 0 10).1⟩

end Datamancer
