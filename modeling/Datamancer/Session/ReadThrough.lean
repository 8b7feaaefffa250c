import Datamancer.Session.Uninterrupted
import Datamancer.Storage.Agreement

/-!
# Datamancer.Session.ReadThrough

A cached historical session over a provider that serves one list of events, window
by window (`Serves`), and a cache that agrees with the list on what it is planned to
replay.

Each segment hands out what the plan says (`planned`): a covered one the slice of
the list, a gap the window its fetch serves. Both keep the agreement, so the whole
session delivers the planned events in order (`runHistoricalCached_data`). What that
makes of the list depends on the window alone.
-/

namespace Datamancer

open HalfOpen TursoCache
open Controller (Emits Trail)

/-- The stream of a session. -/
def SessionInner.stream (inner : SessionInner) : CacheStream :=
  ⟨inner.instrument, inner.kind, inner.adjustment⟩

/-- The history request of a range of a stream. -/
def CacheStream.request (s : CacheStream) (f t : Timestamp) : HistoryRequest :=
  ⟨s.instrument, s.kind, f, t, s.adjustment⟩

/-- The provider never fails and serves, for each requested range, the window of the
list; at least the events inside the range. -/
structure Serves (v : View) (provider : Provider) (s : CacheStream) (D : List MarketEvent)
    (window : Timestamp → Timestamp → MarketEvent → Bool) : Prop where
  sent : ∀ n f t, v.Same (provider.fetchHistory n (s.request f t)).sent (D.filter (window f t))
  routed : ∀ n f t, ∀ ev ∈ (provider.fetchHistory n (s.request f t)).sent,
    ev.routeKey = some (s.instrument, s.kind)
  succeeds : ∀ n f t, (provider.fetchHistory n (s.request f t)).joined.fetchError = none
  contains : ∀ f t ev, f ≤ ev.sourceTs → ev.sourceTs < t → window f t ev = true

/-- The events a segment of a plan stands for. -/
def planned (D : List MarketEvent) (window : Timestamp → Timestamp → MarketEvent → Bool) :
    Segment → List MarketEvent
  | .covered f t => slice MarketEvent.sourceTs f t D
  | .gap f t => D.filter (window f t)

/-- The half-open window of a range. -/
def halfOpen (f t : Timestamp) (ev : MarketEvent) : Bool := f ≤ ev.sourceTs ∧ ev.sourceTs < t

variable {v : View} {provider : Provider} {s : CacheStream} {D : List MarketEvent}
  {window : Timestamp → Timestamp → MarketEvent → Bool} {S : Set Timestamp}
  {options : PersistenceOptions}

/-- A state of the session from which the plan can go on. -/
structure Ready (v : View) (s : CacheStream) (D : List MarketEvent) (S : Set Timestamp)
    (st : StreamState TursoCache) : Prop where
  stream : st.ctl.inner.stream = s
  live : st.live = none
  room : st.ctl.Room 0
  cache : ∃ c, st.ctl.cache = some c ∧ Agrees v s D S c

/-- The segment replays only what the cache agrees on. -/
def Segment.Within (S : Set Timestamp) : Segment → Prop
  | .covered f t => Set.Ico f t ⊆ S
  | .gap _ _ => True

/-- Stamping forgets exactly what the view of all fields but `seq` leaves out. -/
theorem stampAll_congr {evs evs' : List MarketEvent} (h : View.unstamped.Same evs evs')
    (n : UInt64) : Controller.stampAll n evs = Controller.stampAll n evs' := by
  have hmap : evs.map (MarketEvent.stampSeq ⟨0⟩) = evs'.map (MarketEvent.stampSeq ⟨0⟩) := h
  rw [← Controller.stampAll_map_stampSeq ⟨0⟩, hmap, Controller.stampAll_map_stampSeq]

/-! ### One segment -/

theorem routeKey_of_replay {c : TursoCache} {key : CacheKey} {ev : MarketEvent}
    (h : ev ∈ c.replay key key.request) : ev.routeKey = some key.route := by
  obtain ⟨x, -, -, hheld⟩ := mem_replay.mp h
  exact (of_held hheld).2

/-- In a ready state a segment hands out what it is planned to. -/
theorem Ready.handsOut {st : StreamState TursoCache} (h : Ready v s D S st)
    (hserves : Serves v provider s D window) (hD : D.Pairwise fun a b => a.sourceTs ≤ b.sourceTs)
    {seg : Segment} (hseg : seg.Within S) :
    ∃ evs, HandsOut provider st.ctl seg evs ∧ v.Same evs (planned D window seg)
      ∧ ∀ ev ∈ evs, ev.routeKey = some (s.instrument, s.kind) := by
  obtain ⟨c, hc, hagrees⟩ := h.cache
  obtain ⟨rfl⟩ := h.stream
  cases seg with
  | covered f t =>
      refine ⟨_, ⟨c, hc, rfl⟩, hagrees.replay hD hseg, fun ev hev => ?_⟩
      exact @routeKey_of_replay c (st.ctl.inner.stream.key f t) ev hev
  | gap f t =>
      exact ⟨_, ⟨rfl, hserves.succeeds _ f t⟩, hserves.sent _ f t, hserves.routed _ f t⟩

/-- A segment that goes on leaves a ready state. -/
theorem Ready.step {st st' : StreamState TursoCache} (h : Ready v s D S st)
    (hserves : Serves v provider s D window) {seg : Segment} {report : SegmentReport}
    {evs : List MarketEvent} (hands : HandsOut provider st.ctl seg evs)
    (hstep : SegmentStep provider options st st' seg .next report) (hlive : st'.live = none)
    (hroom : st.ctl.Room evs.length) : Ready v s D S st' := by
  have htrail := hstep.trail_of_handsOut hands
  refine ⟨hstep.inner ▸ h.stream, hlive, (htrail.room_iff hroom 0).mpr hroom, ?_⟩
  obtain ⟨c, hc, hagrees⟩ := h.cache
  obtain ⟨rfl⟩ := h.stream
  cases hstep with
  | vanished hcache hemit => exact ⟨c, hemit.cache.trans hc, hagrees⟩
  | openFailed hcache hfail hemit => exact ⟨c, hemit.cache.trans hc, hagrees⟩
  | replayed hcache hopen hemit => exact ⟨c, hemit.cache.trans hc, hagrees⟩
  | @fetched f t hok hstep =>
      have hedge : st.edge = none := by simp [StreamState.edge, h.live]
      have hend : claimEnd st.edge (st.ctl.fetch provider f t) f t = t := by
        simp [claimEnd, hok, hedge]
      rw [hstep.cache, hend, Controller.storeClaim]
      split_ifs with hwrite
      · -- The write claims the segment with what the fetch sent.
        refine ⟨_, by rw [hc]; rfl, ?_⟩
        exact hagrees.store (hserves.routed _ f t) (hserves.sent _ f t)
          (fun d _ hf ht => hserves.contains f t d hf ht) fun x hx => .inl hx
      · exact ⟨c, hc, hagrees⟩

/-! ### The planned run -/

/-- A plan nobody interrupts is carried out in full, unless the counter runs out. -/
theorem streamSegments_planned (options : PersistenceOptions) {st : StreamState TursoCache}
    {segs : List Segment} {arms : Nat → List Arm} (h : Ready v s D S st)
    (hserves : Serves v provider s D window)
    (hD : D.Pairwise fun a b => a.sourceTs ≤ b.sourceTs)
    (hopen : ∀ i, ∀ arm ∈ arms i, arm.Open) (hsegs : ∀ seg ∈ segs, seg.Within S) :
    ((streamSegments provider options arms segs st).isSome = true
        ↔ st.ctl.Room (segs.flatMap (planned D window)).length)
      ∧ ∀ {outcome st' reports},
        streamSegments provider options arms segs st = some (outcome, st', reports) →
        outcome = .done ∧ ∃ evs, Trail st.ctl st'.ctl evs
          ∧ v.Same evs (segs.flatMap (planned D window))
          ∧ ∀ ev ∈ evs, ev.routeKey = some (s.instrument, s.kind) := by
  induction segs generalizing st arms with
  | nil =>
      refine ⟨⟨fun _ => h.room, fun _ => rfl⟩, fun hrun => ?_⟩
      cases Option.some.inj hrun
      exact ⟨rfl, [], .refl _, rfl, by simp⟩
  | cons seg segs ih =>
      obtain ⟨hseg, hsegs⟩ := List.forall_mem_cons.mp hsegs
      obtain ⟨evs, hands, hsame, hroute⟩ := h.handsOut hserves hD hseg
      obtain ⟨hsome, hend⟩ := streamSegment_open options (hopen 0) h.room h.live hands
      have hlen : (planned D window seg).length = evs.length := hsame.symm.length_eq
      rw [streamSegments, List.flatMap_cons, List.length_append, hlen]
      cases hstream : streamSegment provider options (arms 0) seg st with
      | none =>
          rw [hstream] at hsome
          refine ⟨⟨fun hno => absurd hno (by simp), fun hroom => ?_⟩,
            fun hno => absurd hno (by simp)⟩
          exact absurd (hsome.mpr (hroom.mono (Nat.le_add_right _ _))) (by simp)
      | some r =>
          obtain ⟨e, st₁, report⟩ := r
          obtain ⟨rfl, hlive⟩ := hend hstream
          have hroom : st.ctl.Room evs.length := hsome.mp (by rw [hstream]; rfl)
          have hstep := (streamSegment_step hstream).1
          have htrail := hstep.trail_of_handsOut hands
          -- the rest starts with the counter where this segment leaves it
          obtain ⟨hsome', hend'⟩ := @ih st₁ (fun i => arms (i + 1))
            (h.step hserves hands hstep hlive hroom) (fun i => hopen (i + 1)) hsegs
          rw [htrail.room_iff hroom] at hsome'
          dsimp only [Option.bind_eq_bind, Option.bind_some]
          cases hrest : streamSegments provider options (fun i => arms (i + 1)) segs st₁ with
          | none =>
              rw [hrest] at hsome'
              exact ⟨hsome', fun hno => absurd hno (by simp)⟩
          | some r =>
              obtain ⟨outcome, st₂, reports⟩ := r
              obtain ⟨rfl, evs', htrail', hsame', hroute'⟩ := hend' hrest
              rw [hrest] at hsome'
              refine ⟨hsome', fun hrun => ?_⟩
              cases Option.some.inj hrun
              refine ⟨rfl, evs ++ evs', htrail.trans htrail', hsame.append hsame', ?_⟩
              intro ev hev
              exact (List.mem_append.mp hev).elim (hroute ev) (hroute' ev)

/-! ### Plans -/

/-- The cache holds what the list has, wherever its coverage document claims. -/
structure Faithful (v : View) (s : CacheStream) (D : List MarketEvent) (c : TursoCache) :
    Prop where
  separated : Separated (c.coverageOf (s.key 0 0)).segments
  agrees : Agrees v s D (c.coverageOf (s.key 0 0)).covered c

theorem faithful_empty (v : View) (s : CacheStream) (D : List MarketEvent) :
    Faithful v s D .empty :=
  ⟨.nil, fun x hx => absurd hx (by simp)⟩

theorem gapsWithin_of_separated {f t : Timestamp} {gaps : List (Timestamp × Timestamp)}
    (h : Separated gaps) (hin : ∀ g ∈ gaps, f ≤ g.1 ∧ g.2 ≤ t) (hle : f ≤ t) :
    GapsWithin t f (gaps.map fun g => ⟨g.1, g.2⟩) := by
  induction gaps generalizing f with
  | nil => exact hle
  | cons g gaps ih =>
      obtain ⟨hg, hgaps⟩ := List.forall_mem_cons.mp hin
      refine ⟨hg.1, (h.nonempty g List.mem_cons_self).le, ih h.tail (fun u hu => ?_) hg.2⟩
      exact ⟨(h.head_lt u hu).le, (hgaps u hu).2⟩

/-- A plan from gap spans in order replays nothing of them. -/
theorem within_of_mem_tile {f t : Timestamp} {gaps : List GapSpan} (h : GapsWithin t f gaps)
    (hrest : ∀ x, f ≤ x → x < t →
      (∀ g ∈ gaps, ¬ (g.fromSourceTs ≤ x ∧ x < g.toSourceTs)) → x ∈ S)
    {seg : Segment} (hseg : seg ∈ tile f t gaps) : seg.Within S := by
  cases seg with
  | gap a b => trivial
  | covered a b =>
      intro x ⟨ha, hb⟩
      obtain ⟨-, hin⟩ := (tiling_tileLoop h).ordered
      obtain ⟨hfa, -, hbt⟩ := hin (a, b) (List.mem_map_of_mem hseg)
      refine hrest x (hfa.trans ha) (hb.trans_le hbt) fun g hg hgx => ?_
      rcases covered_of_mem_tileLoop h hseg g hg with hbg | hga
      · exact absurd (hb.trans_le hbg) (not_lt.mpr hgx.1)
      · exact absurd hgx.2 (not_lt.mpr (hga.trans ha))

/-- What a plan of `[f, t)` from these gap spans comes to: consecutive segments that
replay only instants of `S`. -/
structure Plan (S : Set Timestamp) (f t : Timestamp) (gaps : List GapSpan) : Prop where
  tiling : f ≤ t → Tiling f t ((tile f t gaps).map Segment.pair)
  empty : t < f → tile f t gaps = []
  within : ∀ seg ∈ tile f t gaps, seg.Within S

theorem plan_wholeRange (S : Set Timestamp) (f t : Timestamp) : Plan S f t (wholeRange f t) := by
  by_cases hle : f ≤ t
  · have hgaps : GapsWithin t f (wholeRange f t) := ⟨le_rfl, hle, le_rfl⟩
    refine ⟨fun _ => tiling_tileLoop hgaps, fun h => absurd hle (not_le.mpr h), fun seg hseg => ?_⟩
    exact within_of_mem_tile hgaps (fun x hf ht hno =>
      absurd ⟨hf, ht⟩ (hno ⟨f, t⟩ (List.mem_singleton_self _))) hseg
  · have hlt : t < f := not_le.mp hle
    have hnil : tile f t (wholeRange f t) = [] := by
      simp [tile, wholeRange, tileLoop, hlt.le]
    exact ⟨fun h => absurd h hle, fun _ => hnil, by simp [hnil]⟩

theorem plan_gaps {c : TursoCache} (h : Separated (c.coverageOf (s.key 0 0)).segments)
    (f t : Timestamp) :
    Plan (c.coverageOf (s.key 0 0)).covered f t (c.gaps (s.key f t)) := by
  have hgapsOf := CoverageDoc.gapsOf_gapsWithin h f t
  have hgaps : c.gaps (s.key f t)
      = ((c.coverageOf (s.key 0 0)).gapsWithin f t).map fun g => ⟨g.1, g.2⟩ := rfl
  by_cases hle : f ≤ t
  · have hwithin := gapsWithin_of_separated hgapsOf.separated hgapsOf.inside hle
    rw [hgaps]
    refine ⟨fun _ => tiling_tileLoop hwithin, fun hlt => absurd hle (not_le.mpr hlt),
      fun seg hseg => within_of_mem_tile hwithin (fun x hf ht hno => ?_) hseg⟩
    -- What is in no gap of the request is covered.
    by_contra hx
    have hcover : x ∈ cover ((c.coverageOf (s.key 0 0)).gapsWithin f t) := by
      rw [hgapsOf.cover_eq]
      exact ⟨⟨hf, ht⟩, hx⟩
    obtain ⟨g, hg, hgx⟩ := hcover
    exact hno ⟨g.1, g.2⟩ (List.mem_map_of_mem hg) hgx
  · have hlt : t < f := not_le.mp hle
    have hnil : tile f t (c.gaps (s.key f t)) = [] := by
      rw [hgaps, CoverageDoc.gapsWithin, if_pos hlt.le]
      simp [tile, tileLoop, hlt.le]
    exact ⟨fun h => absurd h hle, fun _ => hnil, by simp [hnil]⟩

/-- The gaps a cache reports are in order, inside the request, and proper. -/
theorem gaps_spec {c : TursoCache} (h : Normal c) (s : CacheStream) (f t : Timestamp) :
    GapsWithin (max f t) f (c.gaps (s.key f t)) ∧ ProperGaps (c.gaps (s.key f t)) := by
  have hgapsOf := CoverageDoc.gapsOf_gapsWithin (h (s.key 0 0)) f t
  have hgaps : c.gaps (s.key f t)
      = ((c.coverageOf (s.key 0 0)).gapsWithin f t).map fun g => ⟨g.1, g.2⟩ := rfl
  rw [hgaps]
  constructor
  · exact gapsWithin_of_separated hgapsOf.separated
      (fun g hg => ⟨(hgapsOf.inside g hg).1, (hgapsOf.inside g hg).2.trans (le_max_right _ _)⟩)
      (le_max_left _ _)
  · intro g hg
    obtain ⟨p, hp, rfl⟩ := List.mem_map.mp hg
    exact hgapsOf.separated.nonempty p hp

/-- Once the first gap is stored, the gaps are the others. -/
theorem gaps_store {c : TursoCache} (h : Normal c) {f t : Timestamp} {g : GapSpan}
    {rest : List GapSpan}
    {evs : List MarketEvent} (hroute : ∀ ev ∈ evs, ev.routeKey = some (s.instrument, s.kind))
    (hgaps : c.gaps (s.key f t) = g :: rest) :
    (c.store (s.key g.fromSourceTs g.toSourceTs) evs).2.gaps (s.key f t) = rest := by
  obtain ⟨p, q, hpq, rfl, rfl⟩ := List.map_eq_cons_iff.mp hgaps
  replace hpq : (c.coverageOf (s.key 0 0)).gapsWithin f t = p :: q := hpq
  obtain ⟨hsep, hcov⟩ := @covered_store (s.key p.1 p.2) evs hroute c (h _)
  have hgapsOf := CoverageDoc.gapsOf_gapsWithin (h (s.key 0 0)) f t
  have hgapsOf' := CoverageDoc.gapsOf_gapsWithin hsep f t
  rw [hpq] at hgapsOf
  -- What is left uncovered is what was, less the first gap.
  have hcover : cover (((c.store (s.key p.1 p.2) evs).2.coverageOf (s.key p.1 p.2)).gapsWithin f t)
      = cover q := by
    ext x
    have hold : x ∈ cover (p :: q) ↔ x ∈ Set.Ico f t ∧ x ∉ (c.coverageOf (s.key 0 0)).covered := by
      rw [hgapsOf.cover_eq]
      rfl
    have hnew : x ∈ ((c.store (s.key p.1 p.2) evs).2.coverageOf (s.key p.1 p.2)).covered
        ↔ x ∈ Set.Ico p.1 p.2 ∨ x ∈ (c.coverageOf (s.key 0 0)).covered := by
      rw [hcov]
      rfl
    rw [hgapsOf'.cover_eq]
    constructor
    · rintro ⟨hx, hno⟩
      obtain ⟨hp, hc⟩ := not_or.mp (mt hnew.mpr hno)
      have hmem := hold.mpr ⟨hx, hc⟩
      rw [cover_cons] at hmem
      exact hmem.resolve_left hp
    · intro hx
      obtain ⟨hin, hc⟩ := hold.mp (by rw [cover_cons]; exact .inr hx)
      refine ⟨hin, fun hclaim => ?_⟩
      rcases hnew.mp hclaim with hp | hno
      · exact hgapsOf.separated.not_mem_cover_tail hp.2.le hx
      · exact hc hno
  have heq := hgapsOf'.separated.ext hgapsOf.separated.tail hcover
  exact congrArg (List.map fun g => (⟨g.1, g.2⟩ : GapSpan)) heq

/-- Over a provider with half-open windows a plan comes to the slice of the range. -/
theorem Plan.flatMap_planned {f t : Timestamp} {gaps : List GapSpan} (h : Plan S f t gaps)
    (hD : D.Pairwise fun a b => a.sourceTs ≤ b.sourceTs) :
    (tile f t gaps).flatMap (planned D halfOpen)
      = slice MarketEvent.sourceTs f t D := by
  have hpieces : ∀ seg : Segment, planned D halfOpen seg
      = slice MarketEvent.sourceTs seg.pair.1 seg.pair.2 D := by
    intro seg
    cases seg <;> rfl
  have hflat : (tile f t gaps).flatMap (planned D halfOpen)
      = ((tile f t gaps).map Segment.pair).flatMap
        fun p => slice MarketEvent.sourceTs p.1 p.2 D := by
    rw [List.flatMap_map]
    exact congrArg (fun g => (tile f t gaps).flatMap g) (funext hpieces)
  rw [hflat]
  by_cases hle : f ≤ t
  · exact flatMap_slice _ (h.tiling hle) hD
  · rw [h.empty (not_le.mp hle), slice_eq_nil _ (not_le.mp hle).le]
    rfl

/-- However the gaps are read, they plan the request over the cache it then runs on. -/
theorem plan_planGaps (options : PersistenceOptions) {env : HistoricalEnv TursoCache}
    {cache : TursoCache}
    (h : Faithful v s D cache) (hwait : Faithful v s D (env.whileWaiting cache))
    (f t : Timestamp) :
    Faithful v s D (planGaps env options cache (s.key f t)).2
      ∧ Plan ((planGaps env options cache (s.key f t)).2.coverageOf (s.key 0 0)).covered f t
        (planGaps env options cache (s.key f t)).1 := by
  unfold planGaps
  have hgaps : ∀ c, gapsOrWhole c (s.key f t) = TursoCache.gaps c (s.key f t) := fun c => rfl
  split_ifs with hread
  · dsimp only
    rw [hgaps, hgaps]
    split_ifs with hnil
    · exact ⟨h, plan_gaps h.separated f t⟩
    · exact ⟨hwait, plan_gaps hwait.separated f t⟩
  · exact ⟨h, plan_wholeRange _ f t⟩

/-! ### Whole sessions -/

/-- The session ends without exhausting the counter when it emits `n` data events. -/
def Completes (env : HistoricalEnv TursoCache) (c : Controller TursoCache) (n : Nat) : Prop :=
  c.Room n ∧ (finishHistorical env { c with nextSeq := c.nextSeq + UInt64.ofNat n }).isSome = true

theorem completes_of_room {env : HistoricalEnv TursoCache} {c : Controller TursoCache} {n : Nat}
    (h : c.Room (n + 2)) : Completes env c n := by
  have hn : c.Room n := h.mono (Nat.le_add_right _ _)
  refine ⟨hn, isSome_finishHistorical env ?_⟩
  unfold Controller.Room at h ⊢
  rw [hn.toNat_add]
  omega

/-- What is left of a session after its events: it completes, and delivers them alone as
data. -/
theorem finish_after (env : HistoricalEnv TursoCache) {c c₁ : Controller TursoCache}
    {evs : List MarketEvent} (htrail : Trail c c₁ evs)
    (hroute : ∀ ev ∈ evs, ev.routeKey = some (s.instrument, s.kind)) (hroom : c.Room evs.length) :
    ((finishHistorical env c₁).isSome = true ↔ Completes env c evs.length)
      ∧ ∀ c', finishHistorical env c₁ = some c' →
        c'.dataDelivered = c.dataDelivered ++ Controller.stampAll c.nextSeq evs := by
  constructor
  · have hcongr : (finishHistorical env c₁).isSome
        = (finishHistorical env
          { c with nextSeq := c.nextSeq + UInt64.ofNat evs.length }).isSome :=
      isSome_finishHistorical_congr env htrail.nextSeq
    rw [hcongr]
    exact ⟨fun h => ⟨hroom, h⟩, fun h => h.2⟩
  · intro c' hc'
    obtain ⟨controls, hemit, hcontrols⟩ := emits_finishHistorical hc'
    exact (htrail.trans hemit.toTrail).dataDelivered
      (fun ev hev => MarketEvent.isData_of_routed (hroute ev hev)) hcontrols

/-- A cached session nobody interrupts completes, unless the counter runs out, and
delivers its plan. -/
theorem runHistoricalCached_planned (options : PersistenceOptions)
    {env : HistoricalEnv TursoCache} {cache : TursoCache} {c : Controller TursoCache}
    (f t : Timestamp) (hserves : Serves v provider s D window)
    (hD : D.Pairwise fun a b => a.sourceTs ≤ b.sourceTs) (hopen : ∀ i, ∀ arm ∈ env.arms i, arm.Open)
    (hcache : Faithful v s D cache) (hwait : Faithful v s D (env.whileWaiting cache))
    (hstream : c.inner.stream = s) (hroom : c.Room 0) :
    ((runHistoricalCached provider env f t options cache c).isSome = true
        ↔ Completes env c ((tile f t (planGaps env options cache (s.key f t)).1).flatMap
          (planned D window)).length)
      ∧ ∀ c', runHistoricalCached provider env f t options cache c = some c' →
        ∃ evs, v.Same evs ((tile f t (planGaps env options cache (s.key f t)).1).flatMap
            (planned D window))
          ∧ c'.dataDelivered = c.dataDelivered ++ Controller.stampAll c.nextSeq evs := by
  obtain ⟨hfaithful, hplan⟩ := plan_planGaps options hcache hwait f t
  have hkey : c.cacheKey f t = s.key f t := by
    rw [← hstream]
    rfl
  unfold runHistoricalCached
  rw [hkey]
  generalize planGaps env options cache (s.key f t) = plan at hfaithful hplan ⊢
  obtain ⟨gaps, cache₁⟩ := plan
  dsimp only at hfaithful hplan ⊢
  have hready : Ready v s D (cache₁.coverageOf (s.key 0 0)).covered
      ⟨{ c with cache := some cache₁ }, none⟩ :=
    ⟨hstream, rfl, hroom, cache₁, rfl, hfaithful.agrees⟩
  -- the plan was made of what the cache holds, so its covered segments replay it
  obtain ⟨hsome, hend⟩ := streamSegments_planned options hready hserves hD hopen
    hplan.within
  cases hrun : streamSegments provider options env.arms (tile f t gaps)
      ⟨{ c with cache := some cache₁ }, none⟩ with
  | none =>
      rw [hrun] at hsome
      refine ⟨⟨fun hno => absurd hno (by simp), fun hc => ?_⟩, fun c' hno => absurd hno (by simp)⟩
      exact absurd (hsome.mpr hc.1) (by simp)
  | some r =>
      obtain ⟨outcome, st₁, reports⟩ := r
      obtain ⟨rfl, evs, htrail, hsame, hroute⟩ := hend hrun
      have hfull : c.Room evs.length := by
        rw [hsame.length_eq]
        exact hsome.mp (by rw [hrun]; rfl)
      have htrail' : Trail c st₁.ctl evs :=
        ⟨htrail.inner, htrail.providerId, htrail.hasTapLog, htrail.nextSeq, htrail.delivered⟩
      obtain ⟨hfin, hdata⟩ := finish_after env htrail' hroute hfull
      rw [← hsame.length_eq]
      exact ⟨hfin, fun c' hc' => ⟨evs, hsame, hdata c' hc'⟩⟩

end Datamancer
