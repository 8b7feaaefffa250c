import Datamancer.Providers.AlpacaHistory
import Datamancer.Session.ReadThrough

/-!
# Datamancer.Providers.ExactlyOnce

Read-through over the Alpaca provider. Its requests name both ends of a segment and
the endpoint takes both as inclusive, so a gap `[a, b)` also delivers the records at
`b`, which the segment after it, or nobody, asked for. A session delivers exactly the
records of its range if and only if no gap of its plan ends at a record
(`deliversExactly_iff`).
-/

namespace Datamancer

open HalfOpen Alpaca

/-! ### What is delivered of a record -/

/-- Overwrite the receive time. -/
def MarketEvent.withRx (rxTs : Timestamp) : MarketEvent → MarketEvent
  | trade t => trade { t with rxTs }
  | quote q => quote { q with rxTs }
  | bar b => bar { b with rxTs }
  | control c => control { c with rxTs }

/-- All fields but `seq` and the receive time: those a record determines. -/
def View.record : View where
  norm ev := (ev.withRx 0).stampSeq ⟨0⟩
  sourceTs_norm ev := by cases ev <;> rfl
  norm_stampSeq s ev := by cases ev <;> rfl

/-- The events of the records, in order, but for records no request can name. -/
def recordEvents (s : CacheStream) (D : List (Record s.kind)) : List MarketEvent :=
  (D.filter fun r => r.time.Fits).map (Record.toEvent s.instrument 0)

/-- The window of a request with inclusive ends. -/
def closed (f t : Timestamp) (ev : MarketEvent) : Bool := f ≤ ev.sourceTs ∧ ev.sourceTs ≤ t

/-- The endpoint answers with exactly the records between both ends, in order. -/
def AnswersInclusive (rest : MarketDataClient) (feed : RestFeed) (s : CacheStream)
    (D : List (Record s.kind)) : Prop :=
  ∀ start stop, answer rest feed s.instrument.symbol s.adjustment s.kind start stop
    = some (.ok (D.filter fun r => start.nanos ≤ r.time.nanos ∧ r.time.nanos ≤ stop.nanos))

/-- The data delivered are exactly the records of `[f, t)`, each once and in order of
time. -/
structure DeliversExactly (s : CacheStream) (D : List (Record s.kind)) (f t : Timestamp)
    (data : List MarketEvent) : Prop where
  once : (data.map View.record.norm).Perm ((D.filter fun r =>
    f.toInt ≤ r.time.nanos ∧ r.time.nanos < t.toInt).map (Record.toEvent s.instrument 0))
  ordered : data.Pairwise fun a b => a.sourceTs ≤ b.sourceTs

variable {s : CacheStream} {D : List (Record s.kind)}

theorem norm_toEvent (instrument : Instrument) (rx : Timestamp) {kind : EventKind}
    (r : Record kind) :
    View.record.norm (r.toEvent instrument rx) = r.toEvent instrument 0 := by
  cases kind <;> rfl

/-- Cutting the events to a window of timestamps cuts the records to those times. -/
theorem filter_recordEvents {window : MarketEvent → Bool} {p : Record s.kind → Bool}
    (h : ∀ r : Record s.kind,
      p r = true ↔ r.time.Fits ∧ window (r.toEvent s.instrument 0) = true) :
    (recordEvents s D).filter window = (D.filter p).map (Record.toEvent s.instrument 0) := by
  rw [recordEvents, List.filter_map, List.filter_filter]
  refine congrArg _ (List.filter_congr fun r _ => ?_)
  rw [Bool.eq_iff_iff, h r, Bool.and_eq_true, decide_eq_true_iff, and_comm]
  rfl

theorem slice_recordEvents (f t : Timestamp) :
    slice MarketEvent.sourceTs f t (recordEvents s D)
      = (D.filter fun r => f.toInt ≤ r.time.nanos ∧ r.time.nanos < t.toInt).map
        (Record.toEvent s.instrument 0) := by
  refine filter_recordEvents fun r => ?_
  rw [decide_eq_true_iff, decide_eq_true_iff, Record.sourceTs_toEvent]
  constructor
  · intro h
    have hfits := DateTime.fits_of_mem h.1 h.2.le
    rw [Timestamp.le_def, Timestamp.lt_def, toInt_chronoToTs hfits]
    exact ⟨hfits, h⟩
  · intro ⟨hfits, h⟩
    rwa [Timestamp.le_def, Timestamp.lt_def, toInt_chronoToTs hfits] at h

theorem sorted_recordEvents (hD : D.Pairwise fun a b => a.time.nanos ≤ b.time.nanos) :
    (recordEvents s D).Pairwise fun a b => a.sourceTs ≤ b.sourceTs := by
  rw [recordEvents, List.pairwise_map]
  refine (hD.filter _).imp_of_mem ?_
  intro a b ha hb hab
  have hfa : a.time.Fits := by simpa using (List.mem_filter.mp ha).2
  have hfb : b.time.Fits := by simpa using (List.mem_filter.mp hb).2
  rw [Record.sourceTs_toEvent, Record.sourceTs_toEvent, Timestamp.le_def, toInt_chronoToTs hfa,
    toInt_chronoToTs hfb]
  exact hab

/-- The provider serves the closed windows of the records' events. -/
theorem serves_closed {rest : MarketDataClient} {explicit : Option AlpacaHistoryFeed}
    {streamFeed : AlpacaStreamFeed} (rx : Nat → Timestamp)
    (hrest : AnswersInclusive rest (historyFeed explicit streamFeed) s D) :
    Serves .record (Alpaca.provider (some rest) explicit streamFeed rx) s (recordEvents s D)
      closed := by
  have hfetch : ∀ n f t,
      (Alpaca.provider (some rest) explicit streamFeed rx).fetchHistory n (s.request f t)
      = ⟨(D.filter fun r => f.toInt ≤ r.time.nanos ∧ r.time.nanos ≤ t.toInt).map
        (Record.toEvent s.instrument (rx n)), .ok⟩ := by
    intro n f t
    exact @fetchHistoryVia_of_answer _ rest _ (s.request f t) _ (hrest _ _)
  refine ⟨fun n f t => ?_, fun n f t ev hev => ?_, fun n f t => ?_, fun f t ev hf ht => ?_⟩
  -- only records whose time fits a timestamp count on either side, so none of them is clamped
  · have hwindow : (recordEvents s D).filter (closed f t)
        = (D.filter fun r => f.toInt ≤ r.time.nanos ∧ r.time.nanos ≤ t.toInt).map
          (Record.toEvent s.instrument 0) := by
      refine filter_recordEvents fun r => ?_
      rw [decide_eq_true_iff, closed, decide_eq_true_iff, Record.sourceTs_toEvent]
      constructor
      · intro h
        have hfits := DateTime.fits_of_mem h.1 h.2
        rw [Timestamp.le_def, Timestamp.le_def, toInt_chronoToTs hfits]
        exact ⟨hfits, h⟩
      · intro ⟨hfits, h⟩
        rwa [Timestamp.le_def, Timestamp.le_def, toInt_chronoToTs hfits] at h
    rw [hfetch, hwindow, View.Same, List.map_map, List.map_map]
    refine List.map_congr_left fun r _ => ?_
    simp only [Function.comp_apply, norm_toEvent]
  · rw [hfetch] at hev
    obtain ⟨r, -, rfl⟩ := List.mem_map.mp hev
    exact Record.routeKey_toEvent r
  · rw [hfetch]
    rfl
  · simp [closed, hf, ht.le]

/-! ### The records at the ends of gaps -/

/-- How many events a segment delivers past its end. -/
def extra (E : List MarketEvent) : Segment → Nat
  | .covered _ _ => 0
  | .gap _ t => (eventsOf E t).length

theorem length_filter_closed (E : List MarketEvent) {f t : Timestamp} (h : f ≤ t) :
    (E.filter (closed f t)).length
      = (slice MarketEvent.sourceTs f t E).length + (eventsOf E t).length := by
  induction E with
  | nil => rfl
  | cons e E ih =>
      -- `e` is inside the segment, at its end, or outside.
      rcases lt_trichotomy e.sourceTs t with hlt | heq | hgt
      · by_cases hf : f ≤ e.sourceTs
        · simp [closed, slice, eventsOf, hlt, hlt.le, hlt.ne, hf] at ih ⊢
          omega
        · simp [closed, slice, eventsOf, hlt.ne, hf] at ih ⊢
          omega
      · simp [closed, slice, eventsOf, heq, h] at ih ⊢
        omega
      · simp [closed, slice, eventsOf, hgt.ne', not_le.mpr hgt, not_lt.mpr hgt.le] at ih ⊢
        omega

theorem length_planned_closed (E : List MarketEvent) {segs : List Segment}
    (h : ∀ seg ∈ segs, seg.fromTs < seg.toTs) :
    (segs.flatMap (planned E closed)).length
      = (segs.flatMap (planned E halfOpen)).length + (segs.map (extra E)).sum := by
  induction segs with
  | nil => rfl
  | cons seg segs ih =>
      obtain ⟨hseg, hsegs⟩ := List.forall_mem_cons.mp h
      have hhead : (planned E closed seg).length
          = (planned E halfOpen seg).length + extra E seg := by
        cases seg with
        | covered f t => rfl
        | gap f t => exact length_filter_closed E hseg.le
      rw [List.flatMap_cons, List.flatMap_cons, List.length_append, List.length_append, hhead,
        ih hsegs, List.map_cons, List.sum_cons]
      omega

/-- With nothing at the ends of its gaps a plan comes to the same under both windows. -/
theorem planned_closed_of_extra {E : List MarketEvent} {segs : List Segment}
    (h : ∀ seg ∈ segs, extra E seg = 0) :
    segs.flatMap (planned E closed) = segs.flatMap (planned E halfOpen) := by
  induction segs with
  | nil => rfl
  | cons seg segs ih =>
      obtain ⟨hseg, hsegs⟩ := List.forall_mem_cons.mp h
      have hhead : planned E closed seg = planned E halfOpen seg := by
        cases seg with
        | covered f t => rfl
        | gap f t =>
            refine List.filter_congr fun ev hev => ?_
            have hne : ev.sourceTs ≠ t := by
              intro heq
              have hmem : ev ∈ eventsOf E t := mem_eventsOf.mpr ⟨hev, heq⟩
              rw [List.length_eq_zero_iff.mp hseg] at hmem
              exact absurd hmem List.not_mem_nil
            simp [closed, halfOpen, le_iff_lt_or_eq, hne]
      rw [List.flatMap_cons, List.flatMap_cons, hhead, ih hsegs]

theorem extra_eq_zero_iff {f t : Timestamp} :
    extra (recordEvents s D) (.gap f t) = 0 ↔ ∀ r ∈ D, r.time ≠ tsToChrono t := by
  have hat : eventsOf (recordEvents s D) t
      = (D.filter fun r => r.time = tsToChrono t).map (Record.toEvent s.instrument 0) := by
    refine filter_recordEvents fun r => ?_
    rw [decide_eq_true_iff, decide_eq_true_iff, Record.sourceTs_toEvent]
    constructor
    · intro h
      have hnanos : r.time.nanos = t.toInt := by
        rw [h]
        rfl
      have hfits := DateTime.fits_of_mem hnanos.ge hnanos.le
      exact ⟨hfits, Timestamp.toInt_injective ((toInt_chronoToTs hfits).trans hnanos)⟩
    · intro ⟨hfits, h⟩
      have hnanos := toInt_chronoToTs hfits
      rw [h] at hnanos
      rw [tsToChrono, hnanos]
  rw [extra, hat, List.length_map, List.length_eq_zero_iff, List.filter_eq_nil_iff]
  simp only [decide_eq_true_eq]

/-! ### Whole sessions -/

/-- Stamping is no part of what a view compares. -/
theorem map_norm_stampAll (v : View) (n : UInt64) (evs : List MarketEvent) :
    (Controller.stampAll n evs).map v.norm = evs.map v.norm := by
  induction evs generalizing n with
  | nil => rfl
  | cons ev evs ih => rw [Controller.stampAll, List.map_cons, v.norm_stampSeq, ih, List.map_cons]

theorem map_norm_recordEvents (f t : Timestamp) :
    (slice MarketEvent.sourceTs f t (recordEvents s D)).map View.record.norm
      = slice MarketEvent.sourceTs f t (recordEvents s D) := by
  rw [slice_recordEvents, List.map_map]
  refine List.map_congr_left fun r _ => ?_
  exact norm_toEvent s.instrument 0 r

/-- A cached session over the Alpaca provider delivers exactly the records of its range
if and only if no record lies at the end of a gap of its plan. -/
theorem deliversExactly_iff {rest : MarketDataClient} {explicit : Option AlpacaHistoryFeed}
    {streamFeed : AlpacaStreamFeed} {rx : Nat → Timestamp}
    (hrest : AnswersInclusive rest (historyFeed explicit streamFeed) s D)
    (hD : D.Pairwise fun a b => a.time.nanos ≤ b.time.nanos) {cache : TursoCache}
    (hcache : Faithful .record s (recordEvents s D) cache) {env : HistoricalEnv TursoCache}
    (hwait : Faithful .record s (recordEvents s D) (env.whileWaiting cache))
    (hopen : ∀ i, ∀ arm ∈ env.arms i, arm.Open) {c c' : Controller TursoCache}
    (hstream : c.inner.stream = s) (hseq : c.nextSeq = 0) (hdelivered : c.delivered = [])
    {options : PersistenceOptions} {f t : Timestamp}
    (hrun : runHistoricalCached (Alpaca.provider (some rest) explicit streamFeed rx) env f t
      options cache c = some c') :
    DeliversExactly s D f t c'.dataDelivered ↔
      ∀ a b, .gap a b ∈ tile f t (planGaps env options cache (s.key f t)).1 →
        ∀ r ∈ D, r.time ≠ tsToChrono b := by
  have hsorted := sorted_recordEvents hD
  have hroom : c.Room 0 := by
    unfold Controller.Room
    rw [hseq]
    decide
  obtain ⟨evs, hsame, hdata⟩ := (runHistoricalCached_planned options f t (serves_closed rx hrest)
    hsorted hopen hcache hwait hstream hroom).2 c' hrun
  have hflat := (plan_planGaps options hcache hwait f t).2.flatMap_planned hsorted
  have hlt : ∀ seg ∈ tile f t (planGaps env options cache (s.key f t)).1, seg.fromTs < seg.toTs :=
    fun seg hseg => lt_of_mem_tileLoop hseg
  generalize tile f t (planGaps env options cache (s.key f t)).1 = segs at hsame hflat hlt ⊢
  have hnorm : c'.dataDelivered.map View.record.norm
      = (segs.flatMap (planned (recordEvents s D) closed)).map View.record.norm := by
    have hnone : c.dataDelivered = [] := by
      rw [Controller.dataDelivered, hdelivered]
      rfl
    rw [hdata, hnone, List.nil_append, map_norm_stampAll]
    exact hsame
  constructor
  · intro h a b hgap
    have hlen := h.once.length_eq
    rw [← slice_recordEvents, hnorm, List.length_map, length_planned_closed _ hlt, hflat] at hlen
    -- each once, so nothing is delivered beyond the slice, and no gap can have brought more
    have hsum : (segs.map (extra (recordEvents s D))).sum = 0 := by omega
    exact extra_eq_zero_iff.mp (List.sum_eq_zero_iff_forall_eq_nat.mp hsum _
      (List.mem_map_of_mem hgap))
  · intro h
    have hextra : ∀ seg ∈ segs, extra (recordEvents s D) seg = 0 := by
      intro seg hseg
      cases seg with
      | covered a b => rfl
      | gap a b => exact extra_eq_zero_iff.mpr (h a b hseg)
    have hexact : c'.dataDelivered.map View.record.norm
        = slice MarketEvent.sourceTs f t (recordEvents s D) := by
      rw [hnorm, planned_closed_of_extra hextra, hflat, map_norm_recordEvents]
    refine ⟨?_, ?_⟩
    · rw [hexact, slice_recordEvents]
    · have hpairs : (c'.dataDelivered.map View.record.norm).Pairwise
          fun a b => a.sourceTs ≤ b.sourceTs := by
        rw [hexact]
        exact hsorted.filter _
      rw [List.pairwise_map] at hpairs
      simpa only [View.record.sourceTs_norm] using hpairs

/-- The stream of AAPL trades. -/
def aaplTrades : CacheStream := ⟨⟨"alpaca", .equity, "AAPL"⟩, .trade, .raw⟩

/-- One trade at the given time. -/
def oneTrade (nanos : Int) : List StockTrade := [⟨⟨nanos⟩, 1.0, 1⟩]

/-- A client whose trades endpoint knows of these records, both ends inclusive. -/
def inclusiveClient (D : List StockTrade) : MarketDataClient where
  stockTrades r := .ok (D.filter fun t => r.start.nanos ≤ t.timestamp.nanos
    ∧ t.timestamp.nanos ≤ r.end.nanos)
  stockQuotes _ := .ok []
  stockBars _ := .ok []

/-- A session of the stream over an empty cache. -/
def aaplSession : Controller TursoCache where
  inner := ⟨⟨"alpaca", .equity, "AAPL"⟩, .trade, .historical 0 10, .raw⟩
  providerId := "alpaca"
  persistence := .cached
  cache := some .empty
  hasTapLog := false
  nextSeq := 0
  dataForwarded := false
  historyFetches := 0
  clock := fun _ => 0
  clockReads := 0
  delivered := []
  teed := []
  acks := []

/-- Nothing but the session's own streams is polled, and nobody takes its stream. -/
def quietEnv : HistoricalEnv TursoCache := ⟨fun _ => [], id, false, false, []⟩

/-- The session over that client. -/
def aaplRun (D : List StockTrade) : Option (Controller TursoCache) :=
  runHistoricalCached (Alpaca.provider (some (inclusiveClient D)) none .iex fun _ => 20) quietEnv
    0 10 .cached .empty aaplSession

theorem deliversExactly_iff_inside :
    ∃ c', aaplRun (oneTrade 5) = some c'
      ∧ (DeliversExactly aaplTrades (oneTrade 5) 0 10 c'.dataDelivered ↔
        ∀ a b, .gap a b ∈ tile 0 10 (planGaps quietEnv .cached .empty (aaplTrades.key 0 10)).1 →
          ∀ r ∈ oneTrade 5, r.timestamp ≠ tsToChrono b) := by
  obtain ⟨c', hrun⟩ : ∃ c', aaplRun (oneTrade 5) = some c' := ⟨_, rfl⟩
  have hrest : AnswersInclusive (inclusiveClient (oneTrade 5)) (historyFeed none .iex) aaplTrades
      (oneTrade 5) := fun start stop => rfl
  exact ⟨c', hrun, deliversExactly_iff hrest (List.pairwise_singleton _ _) (faithful_empty _ _ _)
    (faithful_empty _ _ _) (by simp [quietEnv]) rfl rfl rfl hrun⟩

/-- The only record lies at the end of `[0, 10)`, and is delivered. -/
theorem not_deliversExactly_of_end :
    AnswersInclusive (inclusiveClient (oneTrade 10)) (historyFeed none .iex) aaplTrades
        (oneTrade 10)
      ∧ ∃ c', aaplRun (oneTrade 10) = some c'
        ∧ ¬ DeliversExactly aaplTrades (oneTrade 10) 0 10 c'.dataDelivered := by
  refine ⟨fun start stop => rfl, ?_⟩
  obtain ⟨c', hrun, hlen⟩ : ∃ c', aaplRun (oneTrade 10) = some c' ∧ c'.dataDelivered.length = 1 :=
    ⟨_, rfl, rfl⟩
  refine ⟨c', hrun, fun h => ?_⟩
  have htwo := h.once.length_eq
  rw [List.length_map, hlen] at htwo
  exact absurd htwo (by decide)

end Datamancer
