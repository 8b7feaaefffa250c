import Mathlib.Data.List.Induction
import Datamancer.Storage.Timeline

/-!
# Datamancer.Storage.ReplayLaw

What a replay yields after any sequence of stores of one stream: at each instant
the last event that the latest claiming store has there (`held_storeAll`).

The law a reader would expect is that a replay yields *all* events of the latest
claiming store at each instant (`ReplayLaw`). The event tables' primary key ends
in `source_ts` and inserts replace, so of several events at one instant only the
last survives: the law holds exactly where the latest claiming store has at most
one event per instant (`replayLaw_iff`).
-/

namespace Datamancer

open TursoCache

/-- One store of a stream: events of the stream, inside the claimed range, in
non-decreasing `source_ts` order. -/
structure StoreOp (s : CacheStream) where
  fromTs : Timestamp
  toTs : Timestamp
  events : List MarketEvent
  routed : ∀ ev ∈ events, ev.routeKey = some (s.instrument, s.kind)
  inside : ∀ ev ∈ events, fromTs ≤ ev.sourceTs ∧ ev.sourceTs < toTs
  sorted : events.Pairwise fun a b => a.sourceTs ≤ b.sourceTs

variable {s : CacheStream}

def StoreOp.key (op : StoreOp s) : CacheKey := s.key op.fromTs op.toTs

/-- The cache after a sequence of stores, from the empty one. -/
def storeAll (ops : List (StoreOp s)) : TursoCache :=
  ops.foldl (fun c op => (c.store op.key op.events).2) .empty

/-- The latest store whose claimed range contains an instant. -/
def latestClaim (ops : List (StoreOp s)) (x : Timestamp) : Option (StoreOp s) :=
  ops.reverse.find? fun op => op.fromTs ≤ x ∧ x < op.toTs

/-- The events of the latest claiming store at an instant, as a replay should give
them back: `seq` is not stored and comes back as `Seq(0)`. -/
def eventsAt (ops : List (StoreOp s)) (x : Timestamp) : List MarketEvent :=
  match latestClaim ops x with
  | none => []
  | some op => (op.events.filter fun ev => ev.sourceTs = x).map (MarketEvent.stampSeq ⟨0⟩)

/-- A replay of `[f, t)` is in order and yields at every instant exactly the events
of the latest store that claims it. -/
structure ReplayLaw (ops : List (StoreOp s)) (f t : Timestamp) : Prop where
  ordered : ((storeAll ops).replay (s.key f t) (s.key f t).request).Pairwise
    fun a b => a.sourceTs ≤ b.sourceTs
  inside : ∀ ev ∈ (storeAll ops).replay (s.key f t) (s.key f t).request,
    f ≤ ev.sourceTs ∧ ev.sourceTs < t
  exact_at : ∀ x, f ≤ x → x < t →
    (((storeAll ops).replay (s.key f t) (s.key f t).request).filter
      fun ev => ev.sourceTs = x).Perm (eventsAt ops x)

/-! ### What the cache holds after the stores -/

@[simp] theorem storeAll_append (ops : List (StoreOp s)) (op : StoreOp s) :
    storeAll (ops ++ [op]) = ((storeAll ops).store op.key op.events).2 := by
  simp [storeAll, List.foldl_append]

theorem latestClaim_append (ops : List (StoreOp s)) (op : StoreOp s) (x : Timestamp) :
    latestClaim (ops ++ [op]) x
      = if op.fromTs ≤ x ∧ x < op.toTs then some op else latestClaim ops x := by
  rw [latestClaim, List.reverse_append, List.reverse_singleton, List.singleton_append]
  by_cases h : op.fromTs ≤ x ∧ x < op.toTs
  · rw [List.find?_cons_of_pos (by simpa using h), if_pos h]
  · rw [List.find?_cons_of_neg (by simpa using h), if_neg h, latestClaim]

theorem lastAt_eq_getLast? (evs : List MarketEvent) (x : Timestamp) :
    lastAt evs x = (evs.filter fun ev => ev.sourceTs = x).getLast? := by
  rw [lastAt, ← List.head?_filter, List.filter_reverse, List.head?_reverse]

/-- A store has nothing outside its claimed range. -/
theorem StoreOp.lastAt_eq_none (op : StoreOp s) {x : Timestamp}
    (hx : ¬ (op.fromTs ≤ x ∧ x < op.toTs)) : lastAt op.events x = none := by
  simp only [lastAt, List.find?_eq_none, List.mem_reverse, decide_eq_true_eq]
  rintro ev hev rfl
  exact hx (op.inside ev hev)

/-- After any stores the cache holds, at each instant, the last event the latest
claiming store has there. -/
theorem held_storeAll (ops : List (StoreOp s)) (f t x : Timestamp) :
    (storeAll ops).held (s.key f t) x
      = ((latestClaim ops x).bind fun op => lastAt op.events x).map (MarketEvent.stampSeq ⟨0⟩) := by
  induction ops using List.reverseRecOn with
  | nil => rfl
  | append_singleton ops op ih =>
      have hheld : (storeAll (ops ++ [op])).held (s.key f t) x
          = ((lastAt op.events x).map (MarketEvent.stampSeq ⟨0⟩)).or
            (if op.fromTs ≤ x ∧ x < op.toTs then none else (storeAll ops).held (s.key f t) x) := by
        rw [storeAll_append]
        exact @held_store op.key _ op.routed (storeAll ops) x
      rw [hheld, latestClaim_append]
      split_ifs with h
      · simp
      · rw [op.lastAt_eq_none h, ih]
        rfl

/-! ### When the law holds -/

/-- The one surviving event stands for all of them exactly when there is at most one. -/
theorem perm_toList_getLast?_iff {l : List MarketEvent} :
    l.getLast?.toList.Perm l ↔ l.length ≤ 1 := by
  constructor
  · intro h
    rw [← h.length_eq]
    cases l.getLast? <;> simp
  · intro h
    rcases l with _ | ⟨a, _ | ⟨b, l⟩⟩
    · exact .refl _
    · exact .refl _
    · simp at h

/-- The law holds of a range exactly when at each of its instants the latest store
that claims it has at most one event. -/
theorem replayLaw_iff (ops : List (StoreOp s)) (f t : Timestamp) :
    ReplayLaw ops f t ↔ ∀ x, f ≤ x → x < t → (eventsAt ops x).length ≤ 1 := by
  have hat : ∀ x, f ≤ x → x < t →
      ((storeAll ops).replay (s.key f t) (s.key f t).request).filter (fun ev => ev.sourceTs = x)
        = (eventsAt ops x).getLast?.toList := by
    intro x hf ht
    rw [@replay_at _ (s.key f t) _ hf ht, held_storeAll, eventsAt]
    cases latestClaim ops x with
    | none => rfl
    | some op => simp [lastAt_eq_getLast?, List.getLast?_map]
  constructor
  · intro h x hf ht
    exact perm_toList_getLast?_iff.mp (hat x hf ht ▸ h.exact_at x hf ht)
  · intro h
    refine ⟨(replay_strict _ _ _).imp le_of_lt, fun ev hev => ?_, fun x hf ht => ?_⟩
    · obtain ⟨x, hf, ht, hx⟩ := mem_replay.mp hev
      exact (of_held hx).1.symm ▸ ⟨hf, ht⟩
    · exact hat x hf ht ▸ perm_toList_getLast?_iff.mpr (h x hf ht)

/-- A stream of raw trades. -/
def tradeStream : CacheStream := ⟨⟨"alpaca", .equity, "AAPL"⟩, .trade, .raw⟩

/-- One store of `[0, 10)` with two trades of the instant `5`. -/
def twoTradesAtOnce : StoreOp tradeStream where
  fromTs := 0
  toTs := 10
  events := [.trade ⟨tradeStream.instrument, 5, 6, ⟨0⟩, ⟨1⟩, ⟨100⟩⟩,
    .trade ⟨tradeStream.instrument, 5, 6, ⟨0⟩, ⟨2⟩, ⟨100⟩⟩]
  routed := by decide
  inside := by decide
  sorted := by decide

/-- The law is not a law of covered ranges: after `twoTradesAtOnce` the range is
covered and a replay of it has lost the first trade. -/
theorem not_replayLaw_of_covered :
    (storeAll [twoTradesAtOnce]).gaps (tradeStream.key 0 10) = []
      ∧ ((storeAll [twoTradesAtOnce]).replay (tradeStream.key 0 10)
          (tradeStream.key 0 10).request).length = 1
      ∧ ¬ ReplayLaw [twoTradesAtOnce] 0 10 := by
  refine ⟨by decide, by decide, fun h => ?_⟩
  exact absurd (h.exact_at 5 (by decide) (by decide)).length_eq (by decide)

end Datamancer
