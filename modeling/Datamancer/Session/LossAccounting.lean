import Datamancer.Session.Segments
import Datamancer.Storage.Turso

/-!
# Datamancer.Session.LossAccounting

What a historical session has told its consumer about each instant it was asked
for. An instant is accounted for when its segment was streamed to the end, when it
is in the confirmed prefix of a failed fetch, or when it lies in the span of a
`Gap` control (`Accounted`).

Every segment the session visits is accounted for (`SegmentStep.accounts`). But a
failed fetch abandons the segments after it, and its gap ends with its own segment:
the rest of the request is neither streamed nor gapped. So the request is accounted
for exactly as far as the visited segments reach (`accounted_iff`).
-/

namespace Datamancer

open HalfOpen
open Controller (Emits Trail)

variable {σ : Type}

/-! ### What the consumer has been told -/

/-- The instants inside the span of some `Gap` control. -/
def gapCover (evs : List MarketEvent) : Set Timestamp :=
  {x | ∃ c p i span, .control c ∈ evs ∧ c.kind = .gap p i span
    ∧ span.fromSourceTs ≤ x ∧ x < span.toSourceTs}

/-- The segment's stream was sent to its end. -/
def SegmentReport.FullyStreamed : SegmentReport → Prop
  | .replayed _ => True
  | .fetched run _ => run.joined.fetchError = none
  | _ => False

/-- The confirmed prefix of a failed gap segment. -/
def SegmentReport.confirmedPrefix (seg : Segment) : SegmentReport → Set Timestamp
  | .fetched run _ => {x | run.joined.fetchError ≠ none ∧ seg.fromTs ≤ x
      ∧ x < confirmedPrefixEnd (maxDataTs run.sent) seg.fromTs seg.toTs}
  | _ => ∅

/-- What the cache or the provider handed out for a segment. -/
def SegmentReport.received : SegmentReport → List MarketEvent
  | .replayed evs => evs
  | .fetched run _ => run.sent
  | _ => []

/-- Everything the cache and the provider handed out in a run. -/
def received (reports : List (Segment × SegmentReport)) : List MarketEvent :=
  reports.flatMap fun r => r.2.received

/-- What one visited segment says of an instant. -/
def SegmentReport.Streams (seg : Segment) (report : SegmentReport) (x : Timestamp) : Prop :=
  (report.FullyStreamed ∧ seg.fromTs ≤ x ∧ x < seg.toTs) ∨ x ∈ report.confirmedPrefix seg

/-- The instant was streamed, or is in the span of a gap emitted since `c`. -/
def Accounted (c c' : Controller σ) (reports : List (Segment × SegmentReport))
    (x : Timestamp) : Prop :=
  (∃ r ∈ reports, r.2.Streams r.1 x) ∨ x ∈ gapCover (c'.delivered.drop c.delivered.length)

/-- The segments up to and including the first gap whose fetch fails. -/
def untilFailure (fails : Nat → Timestamp → Timestamp → Bool) : Nat → List Segment → List Segment
  | _, [] => []
  | n, .covered f t :: segs => .covered f t :: untilFailure fails n segs
  | n, .gap f t :: segs =>
      .gap f t :: if fails n f t then [] else untilFailure fails (n + 1) segs

/-- Whether the `n`-th fetch, of `[f, t)`, fails. -/
def fetchFails (provider : Provider) (c : Controller σ) (n : Nat) (f t : Timestamp) : Bool :=
  (provider.fetchHistory n (c.historyRequest f t)).joined.fetchError.isSome

/-! ### Gap controls -/

@[simp] theorem gapCover_nil : gapCover [] = ∅ := by
  ext x
  simp [gapCover]

@[simp] theorem gapCover_append (p q : List MarketEvent) :
    gapCover (p ++ q) = gapCover p ∪ gapCover q := by
  ext x
  constructor
  · intro ⟨c, pr, i, span, hmem, hc⟩
    rcases List.mem_append.mp hmem with h | h
    · exact .inl ⟨c, pr, i, span, h, hc⟩
    · exact .inr ⟨c, pr, i, span, h, hc⟩
  · intro h
    rcases h with ⟨c, pr, i, span, hmem, hc⟩ | ⟨c, pr, i, span, hmem, hc⟩
    · exact ⟨c, pr, i, span, List.mem_append_left _ hmem, hc⟩
    · exact ⟨c, pr, i, span, List.mem_append_right _ hmem, hc⟩

@[simp] theorem gapCover_gapControl (c : Controller σ) (ts f t : Timestamp) :
    gapCover [c.gapControl ts f t] = Set.Ico f t := by
  ext x
  constructor
  · intro ⟨c', p, i, span, hmem, hkind, hspan⟩
    cases List.mem_singleton.mp hmem
    cases hkind
    exact hspan
  · intro hx
    exact ⟨_, _, _, ⟨f, t⟩, List.mem_singleton_self _, rfl, hx⟩

@[simp] theorem gapCover_providerErrorControl (c : Controller σ) (ts : Timestamp) (m : String) :
    gapCover [c.providerErrorControl ts m] = ∅ := by
  ext x
  simp [gapCover, Controller.providerErrorControl]

/-- Stamping leaves the controls' spans alone. -/
@[simp] theorem gapCover_stampAll (n : UInt64) (evs : List MarketEvent) :
    gapCover (Controller.stampAll n evs) = gapCover evs := by
  induction evs generalizing n with
  | nil => rfl
  | cons ev evs ih =>
      have hone : gapCover [ev.stampSeq ⟨n⟩] = gapCover [ev] := by
        ext x
        cases ev <;> simp [gapCover, MarketEvent.stampSeq]
      have hsplit : ∀ e l, gapCover (e :: l) = gapCover [e] ∪ gapCover l := fun e l =>
        gapCover_append [e] l
      rw [Controller.stampAll, hsplit, hone, ih, ← hsplit]

theorem gapCover_since {c c' : Controller σ} {out : List MarketEvent} (h : Trail c c' out) :
    gapCover (c'.delivered.drop c.delivered.length) = gapCover out := by
  rw [h.delivered, List.drop_left, gapCover_stampAll]

/-- A failed fetch gaps exactly what it left unconfirmed. -/
@[simp] theorem gapCover_failureControls (c : Controller σ) (confirmedTo gapTo : Timestamp)
    (message : String) :
    gapCover (c.failureControls confirmedTo gapTo message) = Set.Ico confirmedTo gapTo := by
  unfold Controller.failureControls
  rw [gapCover_append, gapCover_providerErrorControl, Set.union_empty]
  split_ifs with h
  · exact gapCover_gapControl c _ _ _
  · rw [gapCover_nil, Set.Ico_eq_empty h]

/-! ### One segment -/

variable [HistoricalCache σ] {provider : Provider} {options : PersistenceOptions}

/-- A visited segment is accounted for, all of it, and says nothing of the instants
outside it but through `Gap` controls it was handed. -/
theorem SegmentStep.accounts {st st' : StreamState σ} {seg : Segment} {e : SegmentEnd}
    {report : SegmentReport} (h : SegmentStep provider options st st' seg e report)
    (hedge : st.edge = none) (hopen : e ≠ .closed) (hle : seg.fromTs ≤ seg.toTs) :
    ∃ out, Trail st.ctl st'.ctl out ∧ ∀ x, (report.Streams seg x ∨ x ∈ gapCover out)
      ↔ (seg.fromTs ≤ x ∧ x < seg.toTs) ∨ x ∈ gapCover report.received := by
  cases h with
  | vanished hcache hemit =>
      refine ⟨_, hemit.toTrail, fun x => ?_⟩
      simp [SegmentReport.Streams, SegmentReport.FullyStreamed, SegmentReport.confirmedPrefix,
        SegmentReport.received, Segment.fromTs, Segment.toTs]
  | openFailed hcache hfail hemit =>
      refine ⟨_, hemit.toTrail, fun x => ?_⟩
      simp [SegmentReport.Streams, SegmentReport.FullyStreamed, SegmentReport.confirmedPrefix,
        SegmentReport.received, Segment.fromTs, Segment.toTs]
  | replayed hcache hok hemit =>
      refine ⟨_, hemit.toTrail, fun x => ?_⟩
      simp [SegmentReport.Streams, SegmentReport.FullyStreamed, SegmentReport.confirmedPrefix,
        SegmentReport.received]
  | fetched hok hstep =>
      refine ⟨_, hstep.trail, fun x => ?_⟩
      simp [SegmentReport.Streams, SegmentReport.FullyStreamed, SegmentReport.confirmedPrefix,
        SegmentReport.received, hok]
  | @failed f t message herr hstep =>
      refine ⟨_, hstep.trail, fun x => ?_⟩
      have hmem : f ≤ confirmedPrefixEnd (maxDataTs (st.ctl.fetch provider f t).sent) f t
          ∧ confirmedPrefixEnd (maxDataTs (st.ctl.fetch provider f t).sent) f t ≤ t :=
        confirmedPrefixEnd_mem hle _
      have hstreams : (SegmentReport.fetched (st.ctl.fetch provider f t)
          (st.ctl.claim provider options st.edge f t)).Streams (.gap f t) x
          ↔ f ≤ x ∧ x < confirmedPrefixEnd (maxDataTs (st.ctl.fetch provider f t).sent) f t := by
        simp [SegmentReport.Streams, SegmentReport.FullyStreamed, SegmentReport.confirmedPrefix,
          herr, Segment.fromTs, Segment.toTs]
      rw [hstreams, ← claimEnd_of_error herr, hedge, gapCover_append, gapCover_failureControls]
      -- The confirmed prefix and the gap behind it make up the segment.
      generalize confirmedPrefixEnd (maxDataTs (st.ctl.fetch provider f t).sent) f t = u at hmem ⊢
      constructor
      · intro h
        rcases h with h | h | h
        · exact .inl ⟨h.1, h.2.trans_le hmem.2⟩
        · exact .inr h
        · exact .inl ⟨hmem.1.trans h.1, h.2⟩
      · intro h
        rcases h with h | h
        · by_cases hx : x < u
          · exact .inl ⟨h.1, hx⟩
          · exact .inr (.inr ⟨not_lt.mp hx, h.2⟩)
        · exact .inr (.inl h)
  | interrupted htrail hcache => exact absurd rfl hopen

/-! ### A whole run -/

/-- A finished run is accounted for exactly on its visited segments, and in the `Gap`
controls it was handed. -/
theorem SegmentRun.accounts {st st' : StreamState σ} {segs : List Segment}
    {outcome : SegmentOutcome} {reports : List (Segment × SegmentReport)}
    (h : SegmentRun provider options st segs outcome st' reports) (hedge : st.edge = none)
    (hdone : outcome = .done) (hle : ∀ seg ∈ segs, seg.fromTs ≤ seg.toTs) :
    ∃ out, Trail st.ctl st'.ctl out ∧ ∀ x,
      ((∃ r ∈ reports, r.2.Streams r.1 x) ∨ x ∈ gapCover out)
      ↔ (∃ r ∈ reports, r.1.fromTs ≤ x ∧ x < r.1.toTs) ∨ x ∈ gapCover (received reports) := by
  induction h with
  | done st => exact ⟨[], .refl _, fun x => by simp [received]⟩
  | @next st st₁ st' seg segs outcome report reports hstep hkeep hrest ih =>
      obtain ⟨hseg, hsegs⟩ := List.forall_mem_cons.mp hle
      obtain ⟨out, htrail, hout⟩ := hstep.accounts hedge (by decide) hseg
      obtain ⟨out', htrail', hout'⟩ := ih (hkeep.trans hedge) hdone hsegs
      refine ⟨out ++ out', htrail.trans htrail', fun x => ?_⟩
      have hx := hout x
      have hx' := hout' x
      simp only [received] at hx'
      simp only [List.exists_mem_cons_iff, gapCover_append, received, List.flatMap_cons,
        Set.mem_union]
      rw [or_or_or_comm, hx, hx', or_or_or_comm]
  | @abandon st st' seg segs report hstep hkeep =>
      obtain ⟨out, htrail, hout⟩ := hstep.accounts hedge (by decide)
        (hle seg List.mem_cons_self)
      exact ⟨out, htrail, fun x => by simpa [received] using hout x⟩
  | closed hstep hkeep => exact absurd hdone (by decide)

/-- The segments a finished run visits: all of them up to the first failing fetch. -/
theorem SegmentRun.visited {st st' : StreamState σ} {segs : List Segment}
    {outcome : SegmentOutcome} {reports : List (Segment × SegmentReport)}
    (h : SegmentRun provider options st segs outcome st' reports) (hdone : outcome = .done) :
    reports.map Prod.fst
      = untilFailure (fetchFails provider st.ctl) st.ctl.historyFetches segs := by
  induction h with
  | done st => rfl
  | @next st st₁ st' seg segs outcome report reports hstep hkeep hrest ih =>
      -- which fetches fail depends on the session's identity and on their count
      have hfails : fetchFails provider st₁.ctl = fetchFails provider st.ctl := by
        funext n f t
        simp only [fetchFails, Controller.historyRequest, hstep.inner]
      rw [List.map_cons, ih hdone, hfails]
      cases hstep with
      -- a covered segment makes no fetch, whatever becomes of its replay
      | vanished hcache hemit => rw [untilFailure, hemit.historyFetches]
      | openFailed hcache hfail hemit => rw [untilFailure, hemit.historyFetches]
      | replayed hcache hok hemit => rw [untilFailure, hemit.historyFetches]
      | @fetched f t hok hstep =>
          have hno : fetchFails provider st.ctl st.ctl.historyFetches f t = false := by
            rw [fetchFails, show (provider.fetchHistory st.ctl.historyFetches
              (st.ctl.historyRequest f t)).joined.fetchError = none from hok]
            rfl
          rw [untilFailure, hstep.fetches, hno]
          rfl
  | @abandon st st' seg segs report hstep hkeep =>
      cases hstep with
      | @failed f t message herr hstep =>
          have hyes : fetchFails provider st.ctl st.ctl.historyFetches f t = true := by
            rw [fetchFails, show (provider.fetchHistory st.ctl.historyFetches
              (st.ctl.historyRequest f t)).joined.fetchError = some message from herr]
            rfl
          rw [untilFailure, hyes]
          rfl
  | closed hstep hkeep => exact absurd hdone (by decide)

theorem prefix_untilFailure (fails : Nat → Timestamp → Timestamp → Bool) (n : Nat)
    (segs : List Segment) : untilFailure fails n segs <+: segs := by
  induction segs generalizing n with
  | nil => exact List.prefix_rfl
  | cons seg segs ih =>
      cases seg with
      | covered f t => exact (List.prefix_cons_inj _).mpr (ih n)
      | gap f t =>
          rw [untilFailure, List.prefix_cons_inj]
          split_ifs
          · exact List.nil_prefix
          · exact ih (n + 1)

/-- When streaming ends with `Done`, an instant of the request is accounted for exactly
when it lies before the end of a visited segment, or in the span of a `Gap` control the
cache or the provider handed out. -/
theorem accounted_at_iff {arms : Nat → List Arm} {c : Controller σ} {f t : Timestamp}
    {gaps : List GapSpan} {st' : StreamState σ} {reports : List (Segment × SegmentReport)}
    (h : streamSegments provider options arms (tile f t gaps) ⟨c, none⟩
      = some (.done, st', reports)) {x : Timestamp} (hf : f ≤ x) :
    Accounted c st'.ctl reports x ↔
      (∃ seg ∈ untilFailure (fetchFails provider c) c.historyFetches (tile f t gaps),
        x < seg.toTs) ∨ x ∈ gapCover (received reports) := by
  have hrun := streamSegments_run h
  obtain ⟨out, htrail, hout⟩ := hrun.accounts rfl rfl fun seg hseg => (lt_of_mem_tileLoop hseg).le
  have hvisited : reports.map Prod.fst
      = untilFailure (fetchFails provider c) c.historyFetches (tile f t gaps) := hrun.visited rfl
  rw [Accounted, gapCover_since htrail, hout x, ← mem_prefix_iff (prefix_untilFailure _ _ _) hf,
    ← hvisited]
  refine or_congr_left ?_
  simp only [List.mem_map, exists_exists_and_eq_and]

/-- The whole request is accounted for exactly when each of its instants lies before
the end of a segment up to and including the first failing fetch, or in the span of a
`Gap` control the cache or the provider handed out. -/
theorem accounted_iff {arms : Nat → List Arm} {c : Controller σ} {f t : Timestamp}
    {gaps : List GapSpan} {st' : StreamState σ} {reports : List (Segment × SegmentReport)}
    (h : streamSegments provider options arms (tile f t gaps) ⟨c, none⟩
      = some (.done, st', reports)) :
    (∀ x, f ≤ x → x < t → Accounted c st'.ctl reports x) ↔
      ∀ x, f ≤ x → x < t →
        (∃ seg ∈ untilFailure (fetchFails provider c) c.historyFetches (tile f t gaps),
          x < seg.toTs) ∨ x ∈ gapCover (received reports) := by
  constructor
  · intro hall x hf ht
    exact (accounted_at_iff h hf).mp (hall x hf ht)
  · intro hall x hf ht
    exact (accounted_at_iff h hf).mpr (hall x hf ht)

/-- A cache that already holds `[10, 100)`, with a trade at `50`. -/
def halfCache : TursoCache :=
  (TursoCache.empty.store ⟨⟨"alpaca", .equity, "AAPL"⟩, .trade, 10, 100, .raw⟩
    [.trade ⟨⟨"alpaca", .equity, "AAPL"⟩, 50, 50, ⟨0⟩, ⟨1⟩, ⟨1⟩⟩]).2

/-- A trades session over that cache. -/
def halfCachedSession : Controller TursoCache where
  inner := ⟨⟨"alpaca", .equity, "AAPL"⟩, .trade, .historical 0 100, .raw⟩
  providerId := "alpaca"
  persistence := .cached
  cache := some halfCache
  hasTapLog := false
  nextSeq := 0
  dataForwarded := false
  historyFetches := 0
  clock := fun _ => 0
  clockReads := 0
  delivered := []
  teed := []
  acks := []

/-- A provider whose every fetch fails before the first event. -/
def failingProvider : Provider :=
  ⟨"alpaca", fun _ _ => ⟨[], .err (.provider "alpaca" "rate limited")⟩⟩

/-- A provider that has nothing. -/
def emptyProvider : Provider := ⟨"alpaca", fun _ _ => ⟨[], .ok⟩⟩

theorem accounted_iff_of_success :
    ∃ st' reports, streamSegments emptyProvider .cached (fun _ => [])
        (tile 0 100 [⟨0, 10⟩]) ⟨halfCachedSession, none⟩ = some (.done, st', reports)
      ∧ ((∀ x, 0 ≤ x → x < 100 → Accounted halfCachedSession st'.ctl reports x) ↔
        ∀ x, 0 ≤ x → x < 100 →
          (∃ seg ∈ untilFailure (fetchFails emptyProvider halfCachedSession) 0
            (tile 0 100 [⟨0, 10⟩]), x < seg.toTs) ∨ x ∈ gapCover (received reports)) := by
  obtain ⟨st', reports, h⟩ : ∃ st' reports, streamSegments emptyProvider .cached (fun _ => [])
      (tile 0 100 [⟨0, 10⟩]) ⟨halfCachedSession, none⟩ = some (.done, st', reports) :=
    ⟨_, _, rfl⟩
  exact ⟨st', reports, h, accounted_iff h⟩

/-- The one gap `[0, 10)` of `[0, 100)` fails to fetch: the session ends with `Done`, and
the cached event at `50` is neither streamed nor inside a gap. -/
theorem not_accounted_after_failed_gap :
    halfCache.gaps (halfCachedSession.cacheKey 0 100) = [⟨0, 10⟩] ∧
    ∃ st' reports, streamSegments failingProvider .cached (fun _ => [])
        (tile 0 100 [⟨0, 10⟩]) ⟨halfCachedSession, none⟩ = some (.done, st', reports)
      ∧ ¬ Accounted halfCachedSession st'.ctl reports 50 := by
  refine ⟨by decide, ?_⟩
  obtain ⟨st', reports, h, hreceived⟩ : ∃ st' reports, streamSegments failingProvider .cached
      (fun _ => []) (tile 0 100 [⟨0, 10⟩]) ⟨halfCachedSession, none⟩ = some (.done, st', reports)
      ∧ received reports = [] := ⟨_, _, rfl, rfl⟩
  refine ⟨st', reports, h, fun hacc => ?_⟩
  rw [accounted_at_iff h (by decide), hreceived, gapCover_nil] at hacc
  exact absurd (hacc.resolve_right id) (by decide)

end Datamancer
