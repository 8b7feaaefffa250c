import Datamancer.Session.LossAccounting

/-!
# Datamancer.Session.HonestCoverage

What a fetch that stopped early claims through `HistoricalCache::store`, against
the history it was a prefix of.

The claimed end is the largest instant received plus one. In a sorted history that
leaves one way to claim an instant with an event the fetch never brought: the cut
fell between two events of one instant (`honest_iff`).
-/

namespace Datamancer

variable {σ : Type} [HistoricalCache σ] {provider : Provider} {options : PersistenceOptions}

/-- The claimed range has none of the events that were not received. -/
def Honest (stored : Option (CacheKey × List MarketEvent)) (rest : List MarketEvent) : Prop :=
  ∀ key batch, stored = some (key, batch) →
    ∀ ev ∈ rest, ¬ (key.fromTs ≤ ev.sourceTs ∧ ev.sourceTs < key.toTs)

/-- The fetch did not confirm the end of its segment: it failed, or it succeeded on
the segment touching the live edge. -/
def EndsEarly (edge : Option Timestamp) (run : FetchRun) (t : Timestamp) : Prop :=
  run.joined.fetchError ≠ none ∨ edge = some t

/-! ### The largest instant received -/

theorem foldl_maxDataTs_data {evs : List MarketEvent} (hdata : ∀ ev ∈ evs, ev.isData = true)
    (m : Option Timestamp) :
    evs.foldl (fun m ev => m.merge max ev.dataSourceTs) m
      = evs.foldl (fun m ev => m.merge max (some ev.sourceTs)) m := by
  induction evs generalizing m with
  | nil => rfl
  | cons ev evs ih =>
      obtain ⟨hev, hevs⟩ := List.forall_mem_cons.mp hdata
      have hts : ev.dataSourceTs = some ev.sourceTs := by
        cases ev with
        | control c => exact absurd hev (by simp [MarketEvent.isData, MarketEvent.dataSourceTs])
        | _ => rfl
      rw [List.foldl_cons, List.foldl_cons, ih hevs, hts]

/-- An instant is at most the largest one received exactly when some event received is
not before it. -/
theorem le_foldl_max {evs : List MarketEvent} {m : Option Timestamp} {x : Timestamp} :
    (∃ y, evs.foldl (fun m ev => m.merge max (some ev.sourceTs)) m = some y ∧ x ≤ y)
      ↔ (∃ y, m = some y ∧ x ≤ y) ∨ ∃ ev ∈ evs, x ≤ ev.sourceTs := by
  induction evs generalizing m with
  | nil => simp
  | cons ev evs ih =>
      rw [List.foldl_cons, ih, List.exists_mem_cons_iff, ← or_assoc]
      refine or_congr_left ?_
      cases m with
      | none => simp [Option.merge]
      | some y => simp [Option.merge]

theorem le_maxDataTs {evs : List MarketEvent} (hdata : ∀ ev ∈ evs, ev.isData = true)
    {x : Timestamp} : (∃ y, maxDataTs evs = some y ∧ x ≤ y) ↔ ∃ ev ∈ evs, x ≤ ev.sourceTs := by
  rw [maxDataTs, foldl_maxDataTs_data hdata, le_foldl_max]
  simp

theorem claimEnd_of_endsEarly {edge : Option Timestamp} {run : FetchRun} {f t : Timestamp}
    (h : EndsEarly edge run t) :
    claimEnd edge run f t = confirmedPrefixEnd (maxDataTs run.sent) f t := by
  rw [claimEnd, if_neg]
  intro hok
  rcases h with h | h
  · exact h (Option.isNone_iff_eq_none.mp hok.1)
  · exact hok.2 h

/-! ### Honest claims -/

/-- An event behind a sorted prefix lies at or before some event of the prefix exactly
when it shares its instant. -/
theorem exists_le_iff_tied {sent rest : List MarketEvent}
    (hsorted : (sent ++ rest).Pairwise fun a b => a.sourceTs ≤ b.sourceTs) {ev : MarketEvent}
    (hev : ev ∈ rest) :
    (∃ d ∈ sent, ev.sourceTs ≤ d.sourceTs) ↔ ∃ d ∈ sent, d.sourceTs = ev.sourceTs := by
  have hbefore := (List.pairwise_append.mp hsorted).2.2
  constructor
  · intro ⟨d, hd, hle⟩
    exact ⟨d, hd, le_antisymm (hbefore d hd ev hev) hle⟩
  · intro ⟨d, hd, heq⟩
    exact ⟨d, hd, heq.ge⟩

/-- A fetch that ends early claims honestly exactly when no event of its segment that
was still to come shares its instant with one that was received; unless nothing is
written at all. -/
theorem honest_iff {arms : Nat → List Arm} {segs : List Segment} {st st' : StreamState σ}
    {outcome : SegmentOutcome} {reports : List (Segment × SegmentReport)}
    (h : streamSegments provider options arms segs st = some (outcome, st', reports))
    {f t : Timestamp} {run : FetchRun} {stored : Option (CacheKey × List MarketEvent)}
    (hmem : (.gap f t, .fetched run stored) ∈ reports) (hearly : EndsEarly st.edge run t)
    {rest : List MarketEvent} (hdata : ∀ ev ∈ run.sent ++ rest, ev.isData = true)
    (hsorted : (run.sent ++ rest).Pairwise fun a b => a.sourceTs ≤ b.sourceTs) :
    Honest stored rest ↔
      (options.writeCache = true → st.ctl.cache.isSome = true →
        ∀ ev ∈ rest, f ≤ ev.sourceTs → ev.sourceTs < t →
          ∀ d ∈ run.sent, d.sourceTs ≠ ev.sourceTs) := by
  have hsent : ∀ ev ∈ run.sent, ev.isData = true := fun ev hev =>
    hdata ev (List.mem_append_left _ hev)
  rw [((streamSegments_run h).of_fetched hmem).2, Controller.claimed, claimEnd_of_endsEarly hearly]
  -- What is claimed of an event still to come: it is in the segment, and tied.
  have hclaim : ∀ ev ∈ rest,
      (f ≤ ev.sourceTs ∧ ev.sourceTs < confirmedPrefixEnd (maxDataTs run.sent) f t)
        ↔ (f ≤ ev.sourceTs ∧ ev.sourceTs < t) ∧ ∃ d ∈ run.sent, d.sourceTs = ev.sourceTs := by
    intro ev hev
    rw [mem_confirmedPrefix, le_maxDataTs hsent, exists_le_iff_tied hsorted hev]
  constructor
  · intro hhonest hwrite hcache ev hev hf ht d hd heq
    have hstored := hhonest (st.ctl.cacheKey f (confirmedPrefixEnd (maxDataTs run.sent) f t))
      run.sent (by simp [hwrite, hcache]) ev hev
    exact hstored ((hclaim ev hev).mpr ⟨⟨hf, ht⟩, d, hd, heq⟩)
  · intro hcut key batch hstored ev hev hin
    split_ifs at hstored with hwrites
    obtain ⟨hwrite, hcache⟩ := Bool.and_eq_true_iff.mp hwrites
    cases hstored
    obtain ⟨⟨hf, ht⟩, d, hd, heq⟩ := (hclaim ev hev).mp hin
    exact hcut hwrite hcache ev hev hf ht d hd heq

/-- A trade of one share at the given instant, as a provider hands it out. -/
def tradeAt (ts : Timestamp) (price : Int64) : MarketEvent :=
  .trade ⟨⟨"alpaca", .equity, "AAPL"⟩, ts, ts, ⟨0⟩, ⟨price⟩, ⟨1⟩⟩

/-- A provider that delivers one trade at `5`, then fails. -/
def cutAtFive : Provider :=
  ⟨"alpaca", fun _ _ => ⟨[tradeAt 5 1], .err (.provider "alpaca" "rate limited")⟩⟩

theorem honest_iff_of_distinct :
    ∃ st' stored, streamSegments cutAtFive .cached (fun _ => []) (tile 0 10 [⟨0, 10⟩])
        ⟨halfCachedSession, none⟩
        = some (.done, st', [(.gap 0 10, .fetched (cutAtFive.fetchHistory 0
          (halfCachedSession.historyRequest 0 10)) stored)])
      ∧ (Honest stored [tradeAt 6 2] ↔
        (PersistenceOptions.cached.writeCache = true → halfCachedSession.cache.isSome = true →
          ∀ ev ∈ [tradeAt 6 2], 0 ≤ ev.sourceTs → ev.sourceTs < 10 →
            ∀ d ∈ [tradeAt 5 1], d.sourceTs ≠ ev.sourceTs)) := by
  obtain ⟨st', stored, h⟩ : ∃ st' stored, streamSegments cutAtFive .cached (fun _ => [])
      (tile 0 10 [⟨0, 10⟩]) ⟨halfCachedSession, none⟩
      = some (.done, st', [(.gap 0 10, .fetched (cutAtFive.fetchHistory 0
        (halfCachedSession.historyRequest 0 10)) stored)]) := ⟨_, _, rfl⟩
  refine ⟨st', stored, h, ?_⟩
  exact honest_iff h (List.mem_singleton_self _) (.inl (by decide)) (by decide) (by decide)

/-- Of two trades at `5` the provider delivers the first and fails: `[0, 6)` is claimed,
with the second of them in it. -/
theorem not_honest_of_tied :
    ∃ st' stored, streamSegments cutAtFive .cached (fun _ => []) (tile 0 10 [⟨0, 10⟩])
        ⟨halfCachedSession, none⟩
        = some (.done, st', [(.gap 0 10, .fetched (cutAtFive.fetchHistory 0
          (halfCachedSession.historyRequest 0 10)) stored)])
      ∧ ¬ Honest stored [tradeAt 5 2] := by
  refine ⟨_, _, rfl, fun hhonest => ?_⟩
  exact hhonest (halfCachedSession.cacheKey 0 6) [tradeAt 5 1] (by decide) (tradeAt 5 2)
    (List.mem_singleton_self _) (by decide)

end Datamancer
