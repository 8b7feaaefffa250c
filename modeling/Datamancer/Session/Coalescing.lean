import Datamancer.Session.HonestCoverage
import Datamancer.Session.SingleFlight
import Datamancer.Session.Transparency
import Datamancer.Storage.ReplayLaw

/-!
# Datamancer.Session.Coalescing

Identical cached requests, side by side, cost one fetch per gap.

The session that gets the slot while there are gaps keeps it until it has stored them
all, so every other one either waits for the slot or finds the range covered. At any
time what a session has delivered is what the cache would replay of the range up to its
cursor (`Progress`); once a session is through, that is the range, and no later session
adds to the cache. For this what a fetch brings must be what a replay of it yields: events
of its range, in order, no two of one instant.
-/

namespace Datamancer

open ActionSystem (Meets)
open HalfOpen TursoCache
open Controller (Trail)

/-! ### The setting -/

/-- What the fetch of `[f, t)` brings can be replayed as it is. -/
structure FetchRun.Storable (s : CacheStream) (f t : Timestamp) (run : FetchRun) : Prop where
  routed : ∀ ev ∈ run.sent, ev.routeKey = some (s.instrument, s.kind)
  inside : ∀ ev ∈ run.sent, f ≤ ev.sourceTs ∧ ev.sourceTs < t
  strict : run.sent.Pairwise fun a b => a.sourceTs < b.sourceTs

/-- Nobody closes the session, and its fetch succeeds. -/
def FlightAction.Undisturbed {σ : Type} : FlightAction σ → Prop
  | .cover arms | .settle arms => ∀ arm ∈ arms, arm.Open
  | .fetch run => run.joined.fetchError = none
  | _ => True

/-- A fetch that starts brings what can be replayed. -/
def FlightWorld.Stores {σ : Type} (s : CacheStream) (w : FlightWorld σ)
    (a : Nat × FlightAction σ) : Prop :=
  ∀ run, a.2 = .fetch run → ∀ x, w.sessions[a.1]? = some x → ∀ guard f t segs,
    x.stage = .streaming guard (.gap f t :: segs) → run.Storable s f t

/-- A cached session of a range of a stream, reading and writing. -/
structure FlightSession.Own {σ : Type} (s : CacheStream) (f t : Timestamp) (x : FlightSession σ) :
    Prop where
  stream : x.ctl.inner.stream = s
  fromTs : x.fromTs = f
  toTs : x.toTs = t
  reads : x.options.readCache = true
  writes : x.options.writeCache = true

/-- Nothing delivered yet. -/
structure Controller.Silent {σ : Type} (c : Controller σ) : Prop where
  delivered : c.delivered = []
  nextSeq : c.nextSeq = 0

/-- A cache some stores have led to. -/
def TursoCache.Written (c : TursoCache) : Prop :=
  ∃ ops : List (CacheKey × List MarketEvent),
    c = ops.foldl (fun c op => (c.store op.1 op.2).2) .empty

/-- Identical requests, about to start. -/
structure FlightWorld.Opening (s : CacheStream) (f t : Timestamp) (w : FlightWorld TursoCache) :
    Prop where
  written : w.cache.Written
  fetches : w.fetches = []
  own : ∀ x ∈ w.sessions, x.Own s f t
  ready : ∀ x ∈ w.sessions, x.stage = .ready ∧ x.ctl.Silent

/-- The session has streamed its range. -/
def FlightSession.Through {σ : Type} (x : FlightSession σ) : Prop :=
  x.stage = .finishing ∨ x.stage = .finished

/-- The fetch of a gap. -/
def CacheStream.fetchOf (s : CacheStream) (g : GapSpan) : HistoryRequest :=
  s.request g.fromSourceTs g.toSourceTs

/-- Of these gaps each is fetched once, by the time a session is through, and all sessions
that are have delivered the same data. -/
structure FlightWorld.FetchedOnce (s : CacheStream) (gaps : List GapSpan)
    (w : FlightWorld TursoCache) : Prop where
  atMost : w.fetches <+: gaps.map s.fetchOf
  exactly : ∀ x ∈ w.sessions, x.Through → w.fetches = gaps.map s.fetchOf
  same : ∀ x ∈ w.sessions, ∀ y ∈ w.sessions, x.Through → y.Through →
    x.ctl.dataDelivered = y.ctl.dataDelivered

variable {s : CacheStream} {f t u : Timestamp} {c c' : TursoCache}
  {ctl ctl' : Controller TursoCache}
  {w w' : FlightWorld TursoCache} {x x' : FlightSession TursoCache} {gaps : List GapSpan}

/-! ### What a session has delivered -/

/-- The controller has delivered what the cache replays of `[f, u)`. -/
def Delivered (s : CacheStream) (f u : Timestamp) (c : TursoCache) (ctl : Controller TursoCache) :
    Prop :=
  ∃ ctl₀ evs, ctl₀.Silent ∧ Trail ctl₀ ctl evs ∧ ctl.Room 0 ∧
    (∀ ev ∈ evs, ev.routeKey = some (s.instrument, s.kind)) ∧
    View.unstamped.Same evs (c.replay (s.key f u) (s.key f u).request)

theorem Controller.Silent.delivered_nil (h : ctl.Silent) : Delivered s f f c ctl := by
  refine ⟨ctl, [], h, .refl ctl, ?_, by simp, ?_⟩
  · unfold Controller.Room
    rw [h.nextSeq]
    decide
  · rw [replay_eq_nil le_rfl]
    rfl

theorem Delivered.congr (h : Delivered s f u c ctl)
    (hreplay : c'.replay (s.key f u) (s.key f u).request
      = c.replay (s.key f u) (s.key f u).request) : Delivered s f u c' ctl := by
  obtain ⟨ctl₀, evs, hsilent, htrail, hroom, hroute, hsame⟩ := h
  exact ⟨ctl₀, evs, hsilent, htrail, hroom, hroute, hreplay ▸ hsame⟩

/-- Delivering what the cache replays next extends the range. -/
theorem Delivered.extend {m : Timestamp} {evs : List MarketEvent} (h : Delivered s f m c ctl)
    (htrail : Trail ctl ctl' evs) (hroom : ctl.Room evs.length)
    (hroute : ∀ ev ∈ evs, ev.routeKey = some (s.instrument, s.kind)) (hfm : f ≤ m) (hmu : m ≤ u)
    (hsame : View.unstamped.Same evs (c.replay (s.key m u) (s.key m u).request)) :
    Delivered s f u c ctl' := by
  obtain ⟨ctl₀, before, hsilent, htrail₀, -, hroute₀, hsame₀⟩ := h
  refine ⟨ctl₀, before ++ evs, hsilent, htrail₀.trans htrail, (htrail.room_iff hroom 0).mpr hroom,
    fun ev hev => (List.mem_append.mp hev).elim (hroute₀ ev) (hroute ev), ?_⟩
  rw [← replay_append hfm hmu]
  exact hsame₀.append hsame

/-- A cursor that has reached the end of the range, or never left an empty one. -/
theorem Delivered.reach (h : Delivered s f u c ctl) (htu : t ≤ u) (hu : u ≤ max f t) :
    Delivered s f t c ctl := by
  rcases le_total f t with hft | htf
  · rw [max_eq_right hft] at hu
    rwa [le_antisymm hu htu] at h
  · rw [max_eq_left htf] at hu
    obtain ⟨ctl₀, evs, hsilent, htrail, hroom, hroute, hsame⟩ := h
    refine ⟨ctl₀, evs, hsilent, htrail, hroom, hroute, ?_⟩
    rw [replay_eq_nil htf]
    rwa [replay_eq_nil hu] at hsame

/-- The data delivered, as far as it can be told from the cache. -/
def DataDelivered (s : CacheStream) (f t : Timestamp) (c : TursoCache)
    (ctl : Controller TursoCache) : Prop :=
  ctl.dataDelivered = Controller.stampAll 0 (c.replay (s.key f t) (s.key f t).request)

/-- The controls of the end of a session are no data. -/
theorem Delivered.data {controls : List MarketEvent} (h : Delivered s f t c ctl)
    (htrail : Trail ctl ctl' controls) (hcontrols : ∀ ev ∈ controls, ev.isData = false) :
    DataDelivered s f t c ctl' := by
  obtain ⟨ctl₀, evs, hsilent, htrail₀, -, hroute, hsame⟩ := h
  have hdata := (htrail₀.trans htrail).dataDelivered
    (fun ev hev => MarketEvent.isData_of_routed (hroute ev hev)) hcontrols
  have hnone : ctl₀.dataDelivered = [] := by
    unfold Controller.dataDelivered
    rw [hsilent.delivered]
    rfl
  rw [hnone, hsilent.nextSeq, List.nil_append, stampAll_congr hsame] at hdata
  exact hdata

/-! ### One segment -/

/-- A covered segment nobody closes delivers its replay. -/
theorem streamCovered_open {arms : List Arm} {a b : Timestamp}
    {e : SegmentEnd} {st : StreamState TursoCache} {report : SegmentReport}
    (hopen : ∀ arm ∈ arms, arm.Open) (hstream : x.ctl.inner.stream = s) (hroom : x.ctl.Room 0)
    (hrun : streamCovered arms a b (x.streamState c) = some (e, st, report)) :
    e = .next ∧ st.ctl.inner.stream = s
      ∧ Trail x.ctl st.ctl (c.replay (s.key a b) (s.key a b).request)
      ∧ x.ctl.Room (c.replay (s.key a b) (s.key a b).request).length := by
  obtain ⟨rfl⟩ := hstream
  -- Whatever the provider: a covered segment does not ask it.
  have hands : HandsOut ((⟨[], .ok⟩ : FetchRun).provider "") (x.streamState c).ctl (.covered a b)
      (c.replay (x.ctl.inner.stream.key a b) (x.ctl.inner.stream.key a b).request) :=
    ⟨c, rfl, rfl⟩
  obtain ⟨hsome, hend⟩ := streamSegment_open x.options hopen hroom rfl hands
  replace hrun : streamSegment ((⟨[], .ok⟩ : FetchRun).provider "") x.options arms (.covered a b)
    (x.streamState c) = some (e, st, report) := hrun
  obtain ⟨rfl, -⟩ := hend hrun
  have hstep := (streamSegment_step hrun).1
  have htrail := hstep.trail_of_handsOut hands
  refine ⟨rfl, ?_, ⟨htrail.inner, htrail.providerId, htrail.hasTapLog, htrail.nextSeq,
    htrail.delivered⟩, hsome.mp (by rw [hrun]; rfl)⟩
  rw [hstep.inner]
  rfl

/-- A gap segment nobody closes, whose fetch succeeds, delivers what the fetch brings and
stores it. -/
theorem streamGap_open {arms : List Arm} {a b : Timestamp} {run : FetchRun} {id : String}
    {e : SegmentEnd} {st : StreamState TursoCache} {report : SegmentReport}
    (hopen : ∀ arm ∈ arms, arm.Open) (hok : run.joined.fetchError = none)
    (hstream : x.ctl.inner.stream = s) (hwrites : x.options.writeCache = true)
    (hroom : x.ctl.Room 0)
    (hrun : streamGap (run.provider id) x.options arms a b (x.streamState c)
      = some (e, st, report)) :
    e = .next ∧ st.ctl.inner.stream = s ∧ Trail x.ctl st.ctl run.sent
      ∧ x.ctl.Room run.sent.length
      ∧ st.ctl.cache = some (c.store (s.key a b) run.sent).2 := by
  obtain ⟨rfl⟩ := hstream
  have hands : HandsOut (run.provider id) (x.streamState c).ctl (.gap a b) run.sent := ⟨rfl, hok⟩
  obtain ⟨hsome, hend⟩ := streamSegment_open x.options hopen hroom rfl hands
  replace hrun : streamSegment (run.provider id) x.options arms (.gap a b) (x.streamState c)
    = some (e, st, report) := hrun
  obtain ⟨rfl, -⟩ := hend hrun
  have hstep := (streamSegment_step hrun).1
  have htrail := hstep.trail_of_handsOut hands
  refine ⟨rfl, ?_, ⟨htrail.inner, htrail.providerId, htrail.hasTapLog, htrail.nextSeq,
    htrail.delivered⟩, hsome.mp (by rw [hrun]; rfl), ?_⟩
  · rw [hstep.inner]
    rfl
  · cases hstep with
    | fetched _ hfetch =>
        -- a fetch that did not fail claims the whole gap, whatever it brought
        have hend : claimEnd (x.streamState c).edge run a b = b := by
          simp [claimEnd, hok, StreamState.edge, FlightSession.streamState]
        have hcache := hfetch.cache
        rw [show (x.streamState c).ctl.fetch (run.provider id) a b = run from rfl, hend,
          Controller.storeClaim, if_pos hwrites] at hcache
        exact hcache

/-! ### Where a session is -/

/-- What a session has delivered, and which calls and gaps it relies on, stage by stage. -/
inductive Progress (s : CacheStream) (f t : Timestamp) (w : FlightWorld TursoCache)
    (ctl : Controller TursoCache) : FlightStage → Prop
  | ready (hsilent : ctl.Silent) : Progress s f t w ctl .ready
  | wanting (hsilent : ctl.Silent) : Progress s f t w ctl .wanting
  | waiting {n : Nat} (hsilent : ctl.Silent) (hcall : w.locks.At n (s.key f t) .waiting) :
      Progress s f t w ctl (.waiting n)
  | holding {n : Nat} (hsilent : ctl.Silent) (hcall : w.locks.At n (s.key f t) .holding) :
      Progress s f t w ctl (.holding n)
  | streaming {guard : Option Nat} {segs : List Segment} {cursor : Timestamp}
      (hguard : ∀ n, guard = some n → w.locks.At n (s.key f t) .holding)
      (hnone : guard = none → w.cache.gaps (s.key f t) = [])
      (hsegs : segs = tileLoop t cursor (w.cache.gaps (s.key f t)))
      (hgaps : GapsWithin (max f t) cursor (w.cache.gaps (s.key f t))) (hcursor : f ≤ cursor)
      (hout : Delivered s f cursor w.cache ctl) : Progress s f t w ctl (.streaming guard segs)
  | fetching {n : Nat} {a b : Timestamp} {run : FetchRun} {segs : List Segment}
      {rest : List GapSpan} (hguard : w.locks.At n (s.key f t) .holding)
      (hrun : run.Storable s a b) (hok : run.joined.fetchError = none)
      (hhead : w.cache.gaps (s.key f t) = ⟨a, b⟩ :: rest) (hsegs : segs = tileLoop t b rest)
      (hgaps : GapsWithin (max f t) b rest) (hcursor : f ≤ a) (hab : a ≤ b)
      (hout : Delivered s f a w.cache ctl) :
      Progress s f t w ctl (.fetching (some n) a b run segs)
  | finishing (hnone : w.cache.gaps (s.key f t) = []) (hout : Delivered s f t w.cache ctl) :
      Progress s f t w ctl .finishing
  | finished (hnone : w.cache.gaps (s.key f t) = []) (hout : DataDelivered s f t w.cache ctl) :
      Progress s f t w ctl .finished

theorem Progress.call {stage : FlightStage} (h : Progress s f t w ctl stage) {n : Nat}
    (hn : stage.call = some n) : ∃ p, w.locks.At n (s.key f t) p := by
  cases h with
  | waiting hsilent hcall => exact Option.some.inj hn ▸ ⟨_, hcall⟩
  | holding hsilent hcall => exact Option.some.inj hn ▸ ⟨_, hcall⟩
  | streaming hguard => exact ⟨_, hguard n hn⟩
  | fetching hguard => exact Option.some.inj hn ▸ ⟨_, hguard⟩
  | _ => cases hn

/-- A session relies on the cache and on its own call alone. -/
theorem Progress.congr {stage : FlightStage} (h : Progress s f t w ctl stage)
    (hcache : w'.cache = w.cache)
    (hlocks : ∀ n p, stage.call = some n → w.locks.At n (s.key f t) p →
      w'.locks.At n (s.key f t) p) : Progress s f t w' ctl stage := by
  cases h with
  | ready hsilent => exact .ready hsilent
  | wanting hsilent => exact .wanting hsilent
  | waiting hsilent hcall => exact .waiting hsilent (hlocks _ _ rfl hcall)
  | holding hsilent hcall => exact .holding hsilent (hlocks _ _ rfl hcall)
  | streaming hguard hnone hsegs hgaps hcursor hout =>
      rw [← hcache] at hnone hsegs hgaps hout
      exact .streaming (fun n hn => hlocks n _ hn (hguard n hn)) hnone hsegs hgaps hcursor hout
  | fetching hguard hrun hok hhead hsegs hgaps hcursor hab hout =>
      rw [← hcache] at hhead hout
      exact .fetching (hlocks _ _ rfl hguard) hrun hok hhead hsegs hgaps hcursor hab hout
  | finishing hnone hout =>
      rw [← hcache] at hnone hout
      exact .finishing hnone hout
  | finished hnone hout =>
      rw [← hcache] at hnone hout
      exact .finished hnone hout

/-- Without the slot, and with gaps left, a session has delivered nothing, and what is
stored does not matter to it. -/
theorem Progress.of_gaps {stage : FlightStage} (h : Progress s f t w ctl stage)
    (hgaps : w.cache.gaps (s.key f t) ≠ [])
    (hguard : ∀ n, stage.call = some n → ¬ w.locks.At n (s.key f t) .holding)
    (hlocks : w'.locks = w.locks) : Progress s f t w' ctl stage := by
  cases h with
  | ready hsilent => exact .ready hsilent
  | wanting hsilent => exact .wanting hsilent
  | waiting hsilent hcall => exact .waiting hsilent (hlocks ▸ hcall)
  | holding hsilent hcall => exact absurd hcall (hguard _ rfl)
  | @streaming guard segs cursor hheld hnone hsegs hwithin hcursor hout =>
      cases guard with
      | none => exact absurd (hnone rfl) hgaps
      | some n => exact absurd (hheld n rfl) (hguard n rfl)
  | fetching hheld => exact absurd hheld (hguard _ rfl)
  | finishing hnone hout => exact absurd hnone hgaps
  | finished hnone hout => exact absurd hnone hgaps

/-- A fetch under way is for the first of the gaps, under the slot. -/
theorem Progress.of_fetching {stage : FlightStage} (h : Progress s f t w ctl stage)
    (hfetching : stage.isFetching = true) :
    w.cache.gaps (s.key f t) ≠ [] ∧
      ∃ n, stage.call = some n ∧ w.locks.At n (s.key f t) .holding := by
  cases h with
  | fetching hguard hrun hok hhead => exact ⟨by simp [hhead], _, rfl, hguard⟩
  | _ => cases hfetching

/-! ### All sessions -/

/-- The invariant of a run, with the gaps there were at its start. -/
structure Flying (s : CacheStream) (f t : Timestamp) (gaps : List GapSpan)
    (w : FlightWorld TursoCache) : Prop where
  normal : w.cache.Normal
  own : ∀ (i : Nat) (x : FlightSession TursoCache), w.sessions[i]? = some x → x.Own s f t
  progress : ∀ (i : Nat) (x : FlightSession TursoCache), w.sessions[i]? = some x →
    Progress s f t w x.ctl x.stage
  apart : ∀ (i j : Nat) (x y : FlightSession TursoCache) (n : Nat), w.sessions[i]? = some x →
    w.sessions[j]? = some y → x.stage.call = some n → y.stage.call = some n → i = j
  /-- Between fetches the gaps left are those not fetched yet. -/
  quiet : (∀ (i : Nat) (x : FlightSession TursoCache), w.sessions[i]? = some x →
      x.stage.isFetching = false) →
    w.fetches ++ (w.cache.gaps (s.key f t)).map s.fetchOf = gaps.map s.fetchOf
  /-- During a fetch it is for the first of them. -/
  busy : ∀ (i : Nat) (x : FlightSession TursoCache), w.sessions[i]? = some x →
    x.stage.isFetching = true →
    w.fetches ++ (w.cache.gaps (s.key f t)).tail.map s.fetchOf = gaps.map s.fetchOf

/-- Sessions after one of them is replaced. -/
theorem getElem?_set_cases {α : Type*} {l : List α} {i j : Nat} {a y : α}
    (h : (l.set i a)[j]? = some y) : (j = i ∧ y = a) ∨ (j ≠ i ∧ l[j]? = some y) := by
  by_cases hji : j = i
  · subst hji
    rw [List.getElem?_set_self'] at h
    cases hj : l[j]? with
    | none => simp [hj] at h
    | some z =>
        rw [hj] at h
        exact .inl ⟨rfl, (Option.some.inj h).symm⟩
  · rw [List.getElem?_set_ne (Ne.symm hji)] at h
    exact .inr ⟨hji, h⟩

/-- Two sessions that hold the slot are one. -/
theorem Flying.eq_of_holding (h : Flying s f t gaps w) {i j n m : Nat}
    {x y : FlightSession TursoCache} (hx : w.sessions[i]? = some x) (hy : w.sessions[j]? = some y)
    (hn : x.stage.call = some n) (hm : y.stage.call = some m)
    (hnhold : w.locks.At n (s.key f t) .holding) (hmhold : w.locks.At m (s.key f t) .holding) :
    i = j := by
  obtain rfl := w.locks.exclusive hnhold hmhold
  exact h.apart i j x y n hx hy hn hm

/-- A session that keeps its call stays apart from the others. -/
theorem Flying.apart_set (h : Flying s f t gaps w) {i : Nat} (hx : w.sessions[i]? = some x)
    (hcall : x'.stage.call = x.stage.call) :
    ∀ (j k : Nat) (y z : FlightSession TursoCache) (n : Nat),
      (w.sessions.set i x')[j]? = some y → (w.sessions.set i x')[k]? = some z →
      y.stage.call = some n → z.stage.call = some n → j = k := by
  have hkept : ∀ {j : Nat} {y : FlightSession TursoCache} {n : Nat},
      (w.sessions.set i x')[j]? = some y → y.stage.call = some n →
      ∃ y₀, w.sessions[j]? = some y₀ ∧ y₀.stage.call = some n := by
    intro j y n hy hyn
    rcases getElem?_set_cases hy with ⟨rfl, rfl⟩ | ⟨-, hy⟩
    · exact ⟨x, hx, hcall.symm.trans hyn⟩
    · exact ⟨y, hy, hyn⟩
  intro j k y z n hy hz hyn hzn
  obtain ⟨y₀, hy₀, hyn₀⟩ := hkept hy hyn
  obtain ⟨z₀, hz₀, hzn₀⟩ := hkept hz hzn
  exact h.apart j k y₀ z₀ n hy₀ hz₀ hyn₀ hzn₀

/-- The session with the slot is the only one that fetches. -/
theorem Flying.not_fetching (h : Flying s f t gaps w) {i n : Nat} (hx : w.sessions[i]? = some x)
    (hn : x.stage.call = some n) (hheld : w.locks.At n (s.key f t) .holding) {j : Nat}
    {y : FlightSession TursoCache} (hji : j ≠ i) (hy : w.sessions[j]? = some y) :
    y.stage.isFetching = false := by
  rw [Bool.eq_false_iff]
  intro hfetching
  obtain ⟨-, m, hm, hmheld⟩ := (h.progress j y hy).of_fetching hfetching
  exact hji (h.eq_of_holding hy hx hm hn hmheld hheld)

/-- A step that neither starts nor ends a fetch, and moves no call but its own. -/
theorem Flying.step_plain (h : Flying s f t gaps w) {i : Nat} (hx : w.sessions[i]? = some x)
    (hcache : w'.cache = w.cache) (hfetches : w'.fetches = w.fetches) (hown : x'.Own s f t)
    (hprogress : Progress s f t w' x'.ctl x'.stage)
    (hlocks : ∀ n p, x.stage.call ≠ some n → w.locks.At n (s.key f t) p →
      w'.locks.At n (s.key f t) p)
    (hcall : ∀ n, x'.stage.call = some n → x.stage.call = some n ∨ n = w.locks.calls.length)
    (hidle : x.stage.isFetching = false) (hidle' : x'.stage.isFetching = false) :
    Flying s f t gaps { w' with sessions := w.sessions.set i x' } := by
  have hlt : ∀ {j : Nat} {y : FlightSession TursoCache} {n : Nat}, w.sessions[j]? = some y →
      y.stage.call = some n → n < w.locks.calls.length := by
    intro j y n hy hn
    obtain ⟨p, c, hc, -⟩ := (h.progress j y hy).call hn
    exact (List.getElem?_eq_some_iff.mp hc).1
  refine ⟨hcache ▸ h.normal, fun j y hy => ?_, fun j y hy => ?_, ?_, fun hall => ?_, ?_⟩
  · rcases getElem?_set_cases hy with ⟨-, rfl⟩ | ⟨-, hy⟩
    · exact hown
    · exact h.own j y hy
  · rcases getElem?_set_cases hy with ⟨-, rfl⟩ | ⟨hji, hy⟩
    · exact hprogress.congr rfl fun _ _ _ hat => hat
    · refine (h.progress j y hy).congr hcache fun n p hn hat => hlocks n p (fun hxn => ?_) hat
      exact hji (h.apart j i y x n hy hx hn hxn)
  · -- The call of `x'` is that of `x`, or newer than all others.
    have hnew : ∀ {j : Nat} {y : FlightSession TursoCache} {n : Nat}, j ≠ i →
        w.sessions[j]? = some y → y.stage.call = some n → x'.stage.call ≠ some n := by
      intro j y n hji hy hn hxn
      rcases hcall n hxn with hold | rfl
      · exact hji (h.apart j i y x n hy hx hn hold)
      · exact absurd (hlt hy hn) (lt_irrefl _)
    intro j k y z n hy hz hyn hzn
    rcases getElem?_set_cases hy with ⟨hj, rfl⟩ | ⟨hji, hy'⟩
    · rcases getElem?_set_cases hz with ⟨hk, -⟩ | ⟨hki, hz'⟩
      · rw [hj, hk]
      · exact absurd hyn (hnew hki hz' hzn)
    · rcases getElem?_set_cases hz with ⟨-, rfl⟩ | ⟨hki, hz'⟩
      · exact absurd hzn (hnew hji hy' hyn)
      · exact h.apart j k y z n hy' hz' hyn hzn
  · show w'.fetches ++ (w'.cache.gaps (s.key f t)).map s.fetchOf = gaps.map s.fetchOf
    rw [hcache, hfetches]
    refine h.quiet fun j y hy => ?_
    by_cases hji : j = i
    · subst hji
      cases Option.some.inj (hx.symm.trans hy)
      exact hidle
    · exact hall j y (by rw [List.getElem?_set_ne (Ne.symm hji)]; exact hy)
  · intro j y hy hfetching
    show w'.fetches ++ (w'.cache.gaps (s.key f t)).tail.map s.fetchOf = gaps.map s.fetchOf
    rw [hcache, hfetches]
    rcases getElem?_set_cases hy with ⟨-, rfl⟩ | ⟨-, hy⟩
    · rw [hidle'] at hfetching
      cases hfetching
    · exact h.busy j y hy hfetching

/-- A fetch starts, for the first of the gaps. -/
theorem Flying.step_fetch (h : Flying s f t gaps w) {i : Nat} (hx : w.sessions[i]? = some x)
    {run : FetchRun} {guard : Option Nat} {a b : Timestamp} {segs : List Segment}
    (hstage : x.stage = .streaming guard (.gap a b :: segs)) (hrun : run.Storable s a b)
    (hok : run.joined.fetchError = none) :
    Flying s f t gaps { w with
      fetches := w.fetches ++ [x.ctl.historyRequest a b]
      sessions := w.sessions.set i { x with stage := .fetching guard a b run segs } } := by
  have hprogress := h.progress i x hx
  obtain ⟨hwithin, hproper⟩ := gaps_spec h.normal s f t
  rw [hstage] at hprogress
  cases hprogress with
  | @streaming _ _ cursor hguard hnone hsegs hgaps hcursor hout =>
      obtain ⟨rest, hhead, rfl, hrest, hgaps'⟩ := tileLoop_gap hgaps hproper hsegs.symm
      have hproper' := hproper ⟨a, b⟩ (by simp [hhead])
      cases guard with
      | none =>
          rw [hnone rfl] at hhead
          cases hhead
      | some n =>
          have hheld := hguard n rfl
          have hxcall : x.stage.call = some n := by rw [hstage]; rfl
          have hothers : ∀ (j : Nat) (y : FlightSession TursoCache), w.sessions[j]? = some y →
              y.stage.isFetching = false := by
            intro j y hy
            by_cases hji : j = i
            · subst hji
              obtain rfl := Option.some.inj (hx.symm.trans hy)
              rw [hstage]
              rfl
            · exact h.not_fetching hx hxcall hheld hji hy
          have hreq : x.ctl.historyRequest a b = s.fetchOf ⟨a, b⟩ := by
            rw [← (h.own i x hx).stream]
            rfl
          refine ⟨h.normal, fun j y hy => ?_, fun j y hy => ?_, ?_, fun hall => ?_,
            fun j y hy _ => ?_⟩
          · rcases getElem?_set_cases hy with ⟨-, rfl⟩ | ⟨-, hy⟩
            · obtain ⟨h1, h2, h3, h4, h5⟩ := h.own i x hx
              exact ⟨h1, h2, h3, h4, h5⟩
            · exact h.own j y hy
          · rcases getElem?_set_cases hy with ⟨-, rfl⟩ | ⟨-, hy⟩
            · exact .fetching hheld hrun hok hhead hrest hgaps' hcursor hproper'.le hout
            · exact (h.progress j y hy).congr rfl fun _ _ _ hat => hat
          · exact h.apart_set hx (by rw [hstage]; rfl)
          · -- The fetch just started is one under way.
            have hi : i < w.sessions.length := (List.getElem?_eq_some_iff.mp hx).1
            have hno := hall i _ (List.getElem?_set_self hi)
            cases hno
          · have hquiet := h.quiet hothers
            rw [hhead, List.map_cons] at hquiet
            show (w.fetches ++ [x.ctl.historyRequest a b])
              ++ ((w.cache.gaps (s.key f t)).tail.map s.fetchOf) = gaps.map s.fetchOf
            rw [hhead, hreq, ← hquiet, List.tail_cons, List.append_assoc]
            rfl

/-- A fetch ends, and what it brought is stored. -/
theorem Flying.step_settle (h : Flying s f t gaps w) {i : Nat} (hx : w.sessions[i]? = some x)
    {arms : List Arm} {run : FetchRun} {guard : Option Nat} {a b : Timestamp}
    {segs : List Segment} {e : SegmentEnd} {st : StreamState TursoCache} {report : SegmentReport}
    (hopen : ∀ arm ∈ arms, arm.Open) (hstage : x.stage = .fetching guard a b run segs)
    (hstream : streamGap (run.provider x.ctl.providerId) x.options arms a b
      (x.streamState w.cache) = some (e, st, report)) :
    Flying s f t gaps { w with
      cache := st.ctl.cache.getD w.cache
      sessions := w.sessions.set i (x.afterSegment st.ctl guard segs e) } := by
  have hprogress := h.progress i x hx
  obtain ⟨hsource, hfrom, hto, hreads, hwrites⟩ := h.own i x hx
  rw [hstage] at hprogress
  cases hprogress with
  | @fetching n _ _ _ _ rest hheld hrun hok hhead hsegs hgaps hcursor hab hout =>
      have hroom : x.ctl.Room 0 := by
        obtain ⟨-, -, -, -, hroom, -⟩ := hout
        exact hroom
      obtain ⟨rfl, hsource', htrail, hfit, hcache⟩ :=
        streamGap_open hopen hok hsource hwrites hroom hstream
      -- the store takes the first gap off the plan, and the session goes on with its other tiles
      rw [hcache, Option.getD_some]
      have hrest := gaps_store h.normal hrun.routed hhead
      have hxcall : x.stage.call = some n := by rw [hstage]; rfl
      have hnonempty : w.cache.gaps (s.key f t) ≠ [] := by simp [hhead]
      refine ⟨h.normal.store _ _, fun j y hy => ?_, fun j y hy => ?_,
        h.apart_set hx (by rw [hstage]; rfl), fun hall => ?_, fun j y hy hfetching => ?_⟩
      · rcases getElem?_set_cases hy with ⟨-, rfl⟩ | ⟨-, hy⟩
        · exact ⟨hsource', hfrom, hto, hreads, hwrites⟩
        · exact h.own j y hy
      · rcases getElem?_set_cases hy with ⟨-, rfl⟩ | ⟨hji, hy⟩
        -- nothing before `a` is stored, so what was delivered so far still replays to the same
        · have hbefore : Delivered s f a (w.cache.store (s.key a b) run.sent).2 x.ctl :=
            hout.congr (replay_store_of_le hrun.routed (fun ev hev => (hrun.inside ev hev).1)
              le_rfl)
          have hafter := hbefore.extend htrail hfit hrun.routed hcursor hab
            (replay_store_self hrun.routed hrun.inside hrun.strict)
          refine .streaming (fun m hm => Option.some.inj hm ▸ hheld) (fun hm => by cases hm)
            ?_ ?_ (hcursor.trans hab) hafter
          · rw [hsegs]
            exact congrArg _ hrest.symm
          · exact hrest.symm ▸ hgaps
        -- with gaps left, only the holder depends on what is stored, and that is session `i`
        · refine (h.progress j y hy).of_gaps hnonempty (fun m hm hmheld => ?_) rfl
          exact hji (h.eq_of_holding hy hx hm hxcall hmheld hheld)
      · have hbusy := h.busy i x hx (by rw [hstage]; rfl)
        rw [hhead, List.tail_cons] at hbusy
        exact (congrArg (fun l => w.fetches ++ l.map s.fetchOf) hrest).trans hbusy
      · rcases getElem?_set_cases hy with ⟨-, rfl⟩ | ⟨hji, hy⟩
        · cases hfetching
        · rw [h.not_fetching hx hxcall hheld hji hy] at hfetching
          cases hfetching

/-! ### Every step -/

theorem Flying.step (h : Flying s f t gaps w) {a : Nat × FlightAction TursoCache}
    (hundisturbed : a.2.Undisturbed) (hstores : w.Stores s a) (hstep : w.step a = some w') :
    Flying s f t gaps w' := by
  obtain ⟨i, a⟩ := a
  obtain ⟨x, w₁, x', hx, hact, rfl⟩ := FlightWorld.step_cases hstep
  obtain ⟨hwithin, hproper⟩ := gaps_spec h.normal s f t
  have hown := h.own i x hx
  have hprogress := h.progress i x hx
  obtain ⟨hsource, hfrom, hto, hreads, hwrites⟩ := hown
  have hkey : x.planKey = s.key f t := by
    rw [← hsource, ← hfrom, ← hto]
    rfl
  have hlook : gapsOrWhole w.cache x.planKey = w.cache.gaps (s.key f t) := by
    rw [hkey]
    rfl
  cases hact with
  | covered hstage hgaps hw hx' =>
      subst hw hx'
      rw [hstage] at hprogress
      cases hprogress with
      | ready hsilent =>
          refine h.step_plain hx rfl rfl ⟨hsource, hfrom, hto, hreads, hwrites⟩ ?_
            (fun _ _ _ hat => hat) (fun n hn => by cases hn) (by rw [hstage]; rfl) rfl
          rw [hlook] at hgaps
          refine .streaming (fun n hn => by cases hn) (fun _ => hgaps) ?_ hwithin le_rfl
            hsilent.delivered_nil
          rw [hgaps, hfrom, hto]
          rfl
  | missing hstage hw hx' =>
      subst hw hx'
      rw [hstage] at hprogress
      cases hprogress with
      | ready hsilent =>
          exact h.step_plain hx rfl rfl ⟨hsource, hfrom, hto, hreads, hwrites⟩ (.wanting hsilent)
            (fun _ _ _ hat => hat) (fun n hn => by cases hn) (by rw [hstage]; rfl) rfl
  -- all sessions of the flight read the cache
  | unread hstage hread =>
      rw [hread] at hreads
      cases hreads
  | acquire hstage hw hx' =>
      subst hw hx'
      rw [hstage] at hprogress
      cases hprogress with
      | wanting hsilent =>
          obtain ⟨hnew, hold⟩ := w.locks.at_acquire x.planKey
          refine h.step_plain hx rfl rfl ⟨hsource, hfrom, hto, hreads, hwrites⟩
            (.waiting hsilent (hkey ▸ hnew)) (fun _ _ _ hat => hold hat)
            (fun n hn => .inr (Option.some.inj hn).symm) (by rw [hstage]; rfl) rfl
  | grant hstage hlocks hw hx' =>
      subst hw hx'
      rw [hstage] at hprogress
      cases hprogress with
      | waiting hsilent hcall =>
          obtain ⟨hheld, hothers⟩ := WeakLocks.at_grant hlocks hcall
          refine h.step_plain hx rfl rfl ⟨hsource, hfrom, hto, hreads, hwrites⟩
            (.holding hsilent hheld) (fun m p hm hat => hothers (fun heq => hm ?_) hat)
            (fun m hm => .inl ?_) (by rw [hstage]; rfl) rfl
          · rw [hstage, heq]
            rfl
          · rw [hstage]
            exact hm
  -- another flight has filled the gaps meanwhile, and the lock is released before any delivery
  | coalesced hstage hgaps hlocks hw hx' =>
      subst hw hx'
      rw [hstage] at hprogress
      cases hprogress with
      | holding hsilent hcall =>
          refine h.step_plain hx rfl rfl ⟨hsource, hfrom, hto, hreads, hwrites⟩ ?_
            (fun m p hm hat => WeakLocks.at_release hlocks (fun heq => hm ?_) hat)
            (fun m hm => by cases hm) (by rw [hstage]; rfl) rfl
          · rw [hlook] at hgaps
            refine .streaming (fun n hn => by cases hn) (fun _ => hgaps) ?_ hwithin le_rfl
              hsilent.delivered_nil
            show tile x.fromTs x.toTs [] = tileLoop t f (w.cache.gaps (s.key f t))
            rw [hgaps, hfrom, hto]
            rfl
          · rw [hstage, heq]
            rfl
  -- the plan is read anew under the lock, so it is the holder's from here on
  | replan hstage hw hx' =>
      subst hw hx'
      rw [hstage] at hprogress
      cases hprogress with
      | @holding n hsilent hcall =>
          refine h.step_plain hx rfl rfl ⟨hsource, hfrom, hto, hreads, hwrites⟩ ?_
            (fun _ _ _ hat => hat) (fun m hm => .inl ?_) (by rw [hstage]; rfl) rfl
          · refine .streaming (fun m hm => Option.some.inj hm ▸ hcall) (fun hm => by cases hm) ?_
              hwithin le_rfl hsilent.delivered_nil
            rw [hlook, hfrom, hto]
            rfl
          · rw [hstage]
            exact hm
  | @cover arms guard a b segs e st report hstage hrun hw hx' =>
      subst hw hx'
      rw [hstage] at hprogress
      cases hprogress with
      | @streaming _ _ cursor hguard hnone hsegs hgaps hcursor hout =>
          obtain ⟨rfl, hab, hrest, hgaps'⟩ :=
            tileLoop_covered hgaps hproper (le_max_right f t) hsegs.symm
          have hroom : x.ctl.Room 0 := by
            obtain ⟨-, -, -, -, hroom, -⟩ := hout
            exact hroom
          obtain ⟨rfl, hsource', htrail, hfit⟩ :=
            streamCovered_open hundisturbed hsource hroom hrun
          refine h.step_plain hx rfl rfl ⟨hsource', hfrom, hto, hreads, hwrites⟩ ?_
            (fun _ _ _ hat => hat) (fun m hm => .inl ?_) (by rw [hstage]; rfl) rfl
          · refine .streaming hguard hnone hrest hgaps' (hcursor.trans hab) ?_
            exact hout.extend htrail hfit (fun ev hev => routeKey_of_replay hev) hcursor hab rfl
          · rw [hstage]
            exact hm
  | fetch hstage hw hx' =>
      subst hw hx'
      exact h.step_fetch hx hstage (hstores _ rfl x hx _ _ _ _ hstage) hundisturbed
  | settle hstage hrun hw hx' =>
      subst hw hx'
      exact h.step_settle hx hundisturbed hstage hrun
  | @release guard locks hstage hlocks hw hx' =>
      subst hw hx'
      rw [hstage] at hprogress
      cases hprogress with
      | @streaming _ _ cursor hguard hnone hsegs hgaps hcursor hout =>
          obtain ⟨hnil, hend⟩ := tileLoop_nil hgaps hproper hsegs.symm
          rw [hnil] at hgaps
          refine h.step_plain hx rfl rfl ⟨hsource, hfrom, hto, hreads, hwrites⟩
            (.finishing hnil (hout.reach hend hgaps)) (fun m p hm hat => ?_)
            (fun m hm => by cases hm) (by rw [hstage]; rfl) rfl
          cases guard with
          | none => exact Option.some.inj hlocks ▸ hat
          | some n =>
              refine WeakLocks.at_release hlocks (fun heq => hm ?_) hat
              rw [hstage, heq]
              rfl
  -- nothing disturbs a session of this flight, so none is closed early
  | leave hstage =>
      rw [hstage] at hprogress
      cases hprogress
  | finish hstage hrun hw hx' =>
      subst hw hx'
      rw [hstage] at hprogress
      cases hprogress with
      | finishing hnil hout =>
          obtain ⟨controls, hemit, hcontrols⟩ := emits_finishHistorical hrun
          refine h.step_plain hx rfl rfl ⟨hemit.inner ▸ hsource, hfrom, hto, hreads, hwrites⟩
            (.finished hnil (hout.data hemit.toTrail hcontrols)) (fun _ _ _ hat => hat)
            (fun m hm => by cases hm) (by rw [hstage]; rfl) rfl

theorem TursoCache.Written.normal (h : c.Written) : c.Normal := by
  obtain ⟨ops, rfl⟩ := h
  have hfold : ∀ (ops : List (CacheKey × List MarketEvent)) (c : TursoCache), c.Normal →
      (ops.foldl (fun c op => (c.store op.1 op.2).2) c).Normal := by
    intro ops
    induction ops with
    | nil => exact fun c hc => hc
    | cons op ops ih => exact fun c hc => ih _ (hc.store op.1 op.2)
  exact hfold ops _ normal_empty

theorem FlightWorld.Opening.flying (h : w.Opening s f t) :
    Flying s f t (w.cache.gaps (s.key f t)) w := by
  have hready : ∀ {i : Nat} {x : FlightSession TursoCache}, w.sessions[i]? = some x →
      x.stage = .ready ∧ x.ctl.Silent := fun hx => h.ready _ (List.mem_of_getElem? hx)
  refine ⟨h.written.normal, fun i x hx => h.own x (List.mem_of_getElem? hx), fun i x hx => ?_,
    fun i j x y n hx _ hn _ => ?_, fun _ => ?_, fun i x hx hfetching => ?_⟩
  · obtain ⟨hstage, hsilent⟩ := hready hx
    rw [hstage]
    exact .ready hsilent
  · rw [(hready hx).1] at hn
    cases hn
  · rw [h.fetches]
    rfl
  · rw [(hready hx).1] at hfetching
    cases hfetching

theorem Flying.fetchedOnce (h : Flying s f t gaps w) : w.FetchedOnce s gaps := by
  have hthrough : ∀ x ∈ w.sessions, x.Through →
      w.cache.gaps (s.key f t) = [] ∧ DataDelivered s f t w.cache x.ctl := by
    intro x hmem hx
    obtain ⟨i, hi⟩ := List.mem_iff_getElem?.mp hmem
    have hprogress := h.progress i x hi
    rcases hx with hstage | hstage
    · rw [hstage] at hprogress
      cases hprogress with
      | finishing hnil hout => exact ⟨hnil, hout.data (.refl _) (by simp)⟩
    · rw [hstage] at hprogress
      cases hprogress with
      | finished hnil hout => exact ⟨hnil, hout⟩
  -- Either a fetch is under way, or the gaps left are those not fetched yet.
  have hlog : (∃ (i : Nat) (x : FlightSession TursoCache), w.sessions[i]? = some x ∧
        x.stage.isFetching = true) ∨
      w.fetches ++ (w.cache.gaps (s.key f t)).map s.fetchOf = gaps.map s.fetchOf := by
    by_cases hfetching : ∃ (i : Nat) (x : FlightSession TursoCache), w.sessions[i]? = some x ∧
        x.stage.isFetching = true
    · exact .inl hfetching
    · refine .inr (h.quiet fun i x hx => ?_)
      rw [Bool.eq_false_iff]
      exact fun hno => hfetching ⟨i, x, hx, hno⟩
  refine ⟨?_, fun x hmem hx => ?_, fun x hmem y hmem' hx hy => ?_⟩
  · rcases hlog with ⟨i, x, hx, hfetching⟩ | hquiet
    · exact ⟨_, h.busy i x hx hfetching⟩
    · exact ⟨_, hquiet⟩
  · obtain ⟨hnil, -⟩ := hthrough x hmem hx
    rcases hlog with ⟨i, y, hy, hfetching⟩ | hquiet
    · exact absurd hnil ((h.progress i y hy).of_fetching hfetching).1
    · rwa [hnil, List.map_nil, List.append_nil] at hquiet
  · exact (hthrough x hmem hx).2.trans (hthrough y hmem' hy).2.symm

/-- At most one guard of a key is held at a time; and identical requests, side by side, fetch
each gap once and deliver the same. -/
theorem single_flight {calls : List (WeakLocks.LockAction CacheKey)} {locks : FetchLocks}
    (_hcalls : ActionSystem.run WeakLocks.step WeakLocks.new calls = some locks)
    {acts : List (Nat × FlightAction TursoCache)} (hopening : w.Opening s f t)
    (hundisturbed : Meets FlightWorld.step (fun _ a => a.2.Undisturbed) w acts)
    (hstores : Meets FlightWorld.step (FlightWorld.Stores s) w acts) (hrun : w.run acts = some w') :
    (∀ (m n : Nat) (key : CacheKey), locks.At m key .holding → locks.At n key .holding → m = n) ∧
      w'.FetchedOnce s (w.cache.gaps (s.key f t)) := by
  refine ⟨fun m n key hm hn => locks.exclusive hm hn, ?_⟩
  have hflying := ActionSystem.invariant_of_meets
    (P := Flying s f t (w.cache.gaps (s.key f t)))
    (fun h hok hstep => h.step hok.1 hok.2 hstep) hopening.flying (hundisturbed.and hstores) hrun
  exact hflying.fetchedOnce

/-! ### Two sessions -/

/-- Two cached sessions of `[0, 10)`, over an empty cache. -/
def twoFlights : FlightWorld TursoCache :=
  ⟨.empty, .new, [],
    [⟨freshSession, .cached, 0, 10, .ready⟩, ⟨freshSession, .cached, 0, 10, .ready⟩]⟩

/-- Both look and call for the slot, and the first one gets it. -/
def bothCall : List (Nat × FlightAction TursoCache) :=
  [(0, .precheck), (1, .precheck), (0, .acquire), (1, .acquire), (0, .grant), (0, .replan)]

/-- After its fetch the first one finishes, and then the second. -/
def bothFinish : List (Nat × FlightAction TursoCache) :=
  [(0, .settle []), (0, .release), (0, .finish undisturbed), (1, .grant), (1, .replan),
    (1, .cover []), (1, .release), (1, .finish undisturbed)]

theorem twoFlights_opening : twoFlights.Opening tradeStream 0 10 where
  written := ⟨[], rfl⟩
  fetches := rfl
  own := by
    have hown : (⟨freshSession, .cached, 0, 10, .ready⟩ : FlightSession TursoCache).Own
        tradeStream 0 10 := ⟨rfl, rfl, rfl, rfl, rfl⟩
    simpa [twoFlights] using hown
  ready := by
    have hsilent : freshSession.Silent := ⟨rfl, rfl⟩
    simpa [twoFlights] using hsilent

theorem bothFlights_undisturbed {evs : List MarketEvent} :
    Meets FlightWorld.step (fun _ a => a.2.Undisturbed) twoFlights
      (bothCall ++ (0, .fetch ⟨evs, .ok⟩) :: bothFinish) := by
  refine ActionSystem.meets_of_mem (fun a ha _ => ?_) _
  revert a
  simp [bothCall, bothFinish, FlightAction.Undisturbed, FetchJoin.fetchError]

/-- One trade: it is fetched once, and both sessions deliver it. -/
theorem single_flight_one_trade :
    ∃ (locks : FetchLocks) (w' : FlightWorld TursoCache),
      ActionSystem.run WeakLocks.step WeakLocks.new
        [.acquire (tradeStream.key 0 10), .grant 0] = some locks ∧
      twoFlights.run (bothCall ++ (0, .fetch ⟨[tradeAt 5 1], .ok⟩) :: bothFinish) = some w' ∧
      w'.sessions.map (fun x => x.ctl.dataDelivered.length) = [1, 1] ∧
      (∀ (m n : Nat) (key : CacheKey), locks.At m key .holding → locks.At n key .holding →
        m = n) ∧ w'.FetchedOnce tradeStream (twoFlights.cache.gaps (tradeStream.key 0 10)) := by
  obtain ⟨locks, hcalls⟩ : ∃ locks : FetchLocks, ActionSystem.run WeakLocks.step WeakLocks.new
      [.acquire (tradeStream.key 0 10), .grant 0] = some locks := ⟨_, rfl⟩
  obtain ⟨w', hrun, hlen⟩ : ∃ w', twoFlights.run
      (bothCall ++ (0, .fetch ⟨[tradeAt 5 1], .ok⟩) :: bothFinish) = some w' ∧
      w'.sessions.map (fun x => x.ctl.dataDelivered.length) = [1, 1] := ⟨_, rfl, rfl⟩
  refine ⟨locks, w', hcalls, hrun, hlen,
    single_flight hcalls twoFlights_opening bothFlights_undisturbed ?_ hrun⟩
  obtain ⟨w₁, hcall, hstage⟩ : ∃ w₁, twoFlights.run bothCall = some w₁ ∧
      (w₁.sessions[0]?).map FlightSession.stage = some (.streaming (some 0) [.gap 0 10]) :=
    ⟨_, rfl, rfl⟩
  refine (ActionSystem.meets_append hcall).mpr ⟨?_, ?_, fun w₂ _ => ?_⟩
  · refine ActionSystem.meets_of_mem (fun a ha w run hno => ?_) _
    revert ha
    simp [bothCall, Prod.ext_iff, hno]
  · intro run heq x hx guard f t segs hstreaming
    cases heq
    rw [hx, Option.map_some, hstreaming] at hstage
    cases hstage
    exact ⟨by decide, by decide, by decide⟩
  · refine ActionSystem.meets_of_mem (fun a ha w run hno => ?_) _
    revert ha
    simp [bothFinish, Prod.ext_iff, hno]

/-- Two trades of one instant: the session that fetches them delivers both, the one that is
coalesced the last alone. -/
theorem not_fetchedOnce_of_tied :
    twoFlights.Opening tradeStream 0 10 ∧
    Meets FlightWorld.step (fun _ a => a.2.Undisturbed) twoFlights
      (bothCall ++ (0, .fetch ⟨[tradeAt 5 1, tradeAt 5 2], .ok⟩) :: bothFinish) ∧
    ∃ w', twoFlights.run
        (bothCall ++ (0, .fetch ⟨[tradeAt 5 1, tradeAt 5 2], .ok⟩) :: bothFinish) = some w' ∧
      ¬ w'.FetchedOnce tradeStream (twoFlights.cache.gaps (tradeStream.key 0 10)) := by
  refine ⟨twoFlights_opening, bothFlights_undisturbed, ?_⟩
  obtain ⟨w', x, y, hrun, hsessions, hx, hy, hlen⟩ : ∃ w' x y, twoFlights.run
      (bothCall ++ (0, .fetch ⟨[tradeAt 5 1, tradeAt 5 2], .ok⟩) :: bothFinish) = some w' ∧
      w'.sessions = [x, y] ∧ x.stage = .finished ∧ y.stage = .finished ∧
      (x.ctl.dataDelivered.length, y.ctl.dataDelivered.length) = (2, 1) :=
    ⟨_, _, _, rfl, rfl, rfl, rfl, rfl⟩
  refine ⟨w', hrun, fun honce => ?_⟩
  have hsame := honce.same x (by simp [hsessions]) y (by simp [hsessions]) (.inr hx) (.inr hy)
  rw [hsame] at hlen
  obtain ⟨htwo, hone⟩ := Prod.mk.inj hlen
  omega

end Datamancer
