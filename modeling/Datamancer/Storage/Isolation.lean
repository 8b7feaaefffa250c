import Datamancer.Storage.Timeline

/-!
# Datamancer.Storage.Isolation

Which keys a store can be seen through. Everything a key is answered from is its
coverage row and the rows its `WHERE` clauses select (`Agree`), and those are
reached through the columns `provider`, `symbol`, `adjustment` and the kind's
table. The asset class of the instrument is in none of them.

So a store under one key leaves another key's answers alone exactly when one of
those columns tells the two apart, or the other key's range is empty
(`isolated_iff`).
-/

namespace Datamancer

namespace TursoCache

/-- A cache some sequence of stores has led to. -/
inductive Reachable : TursoCache → Prop
  | empty : Reachable empty
  | store {c : TursoCache} (h : Reachable c) (key : CacheKey) (evs : List MarketEvent) :
      Reachable (c.store key evs).2

/-- The three queries of a key answer the same from both caches. -/
structure SameAnswers (c c' : TursoCache) (key : CacheKey) : Prop where
  gaps : c'.gaps key = c.gaps key
  lookup : c'.lookup key = c.lookup key
  replay : ∀ request, c'.replay key request = c.replay key request

/-- No store under `key` of events that `accepts` lets through changes an answer for
`key'`, whatever was stored before. -/
def Isolated (accepts : MarketEvent → Prop) (key key' : CacheKey) : Prop :=
  ∀ c, Reachable c → ∀ evs, (∀ ev ∈ evs, accepts ev) → SameAnswers c (c.store key evs).2 key'

/-- The two keys name different streams. -/
def Distinct (key key' : CacheKey) : Prop :=
  key.instrument ≠ key'.instrument ∨ key.kind ≠ key'.kind
    ∨ effectiveAdjustment key ≠ effectiveAdjustment key'

/-- A column of the event tables other than the instant tells the keys apart. -/
def ColumnsDiffer (key key' : CacheKey) : Prop :=
  key.instrument.provider ≠ key'.instrument.provider
    ∨ key.instrument.symbol ≠ key'.instrument.symbol
    ∨ effectiveAdjustment key ≠ effectiveAdjustment key'

/-! ### What a key is answered from -/

/-- Two caches agree on everything a key is answered from. -/
structure Agree (c c' : TursoCache) (key : CacheKey) : Prop where
  coverage : c'.loadCoverage key = c.loadCoverage key
  rows : ∀ lo hi, (c'.events key.kind).select (rowWhere key lo hi)
    = (c.events key.kind).select (rowWhere key lo hi)

theorem Agree.refl (c : TursoCache) (key : CacheKey) : Agree c c key := ⟨rfl, fun _ _ => rfl⟩

theorem Agree.trans {c c' c'' : TursoCache} {key : CacheKey} (h : Agree c c' key)
    (h' : Agree c' c'' key) : Agree c c'' key :=
  ⟨h'.coverage.trans h.coverage, fun lo hi => (h'.rows lo hi).trans (h.rows lo hi)⟩

theorem Agree.sameAnswers {c c' : TursoCache} {key : CacheKey} (h : Agree c c' key) :
    SameAnswers c c' key := by
  have hcount : ∀ lo hi, c'.countEventsIn key lo hi = c.countEventsIn key lo hi := by
    intro lo hi
    simp only [countEventsIn, KeyedTable.count, h.rows]
  refine ⟨by simp only [gaps, h.coverage], by simp only [lookup, h.coverage, hcount], ?_⟩
  intro request
  simp only [replay, KeyedTable.selectOrdered, h.rows]

/-- A key with an empty range is answered alike from every cache. -/
theorem sameAnswers_of_empty_range {key : CacheKey} (h : key.toTs ≤ key.fromTs)
    (c c' : TursoCache) : SameAnswers c c' key := by
  have hgaps : ∀ c : TursoCache, c.gaps key = [] := fun c => by
    simp [gaps, CoverageDoc.gapsWithin, h]
  have hintersect : ∀ doc : CoverageDoc, doc.intersect key.fromTs key.toTs = none := by
    rintro ⟨segs, n, a⟩
    simp only [CoverageDoc.intersect]
    induction segs with
    | nil => rfl
    | cons s segs ih =>
        have hs : ¬ max s.1 key.fromTs < min s.2 key.toTs := not_lt.mpr
          ((min_le_right _ _).trans (h.trans (le_max_right _ _)))
        rw [List.foldl_cons, if_neg fun hc => hs hc.1]
        exact ih
  have hlookup : ∀ c : TursoCache, c.lookup key = none := fun c => by
    cases hdoc : c.loadCoverage key <;> simp [lookup, hdoc, hintersect]
  have hreplay : ∀ (c : TursoCache) request, c.replay key request = [] := by
    intro c request
    have hle : min request.toTs key.toTs ≤ max request.fromTs key.fromTs :=
      (min_le_right _ _).trans (h.trans (le_max_right _ _))
    simp only [replay, if_pos (Or.inr (Or.inr hle))]
  exact ⟨by rw [hgaps, hgaps], by rw [hlookup, hlookup], fun r => by rw [hreplay, hreplay]⟩

/-! ### What a store reaches -/

theorem ColumnsDiffer.rowKey_ne {key key' : CacheKey} (h : ColumnsDiffer key key')
    (x y : Timestamp) : rowKey key x ≠ rowKey key' y := by
  intro heq
  simp only [rowKey, Prod.mk.injEq] at heq
  rcases h with h | h | h
  · exact h heq.1
  · exact h heq.2.1
  · exact h (Adjustment.asStr_injective heq.2.2.1)

theorem coverageKey_ne {key key' : CacheKey} (h : ColumnsDiffer key key' ∨ key.kind ≠ key'.kind) :
    coverageKey key ≠ coverageKey key' := by
  intro heq
  simp only [coverageKey, Prod.mk.injEq] at heq
  obtain ⟨hp, hs, hk, ha⟩ := heq
  rcases h with (h | h | h) | h
  · exact h hp
  · exact h hs
  · exact h (Adjustment.asStr_injective ha)
  · exact h (tableFor_injective hk)

/-- The row of an event carries the key's own columns, and its table is the key's
unless that is the trade or quote table. -/
theorem of_encodeRow {key : CacheKey} {ev : MarketEvent} {r : Σ kind, EventRow kind}
    (h : encodeRow key ev = .ok (some r)) :
    r.2.pk = rowKey key ev.sourceTs ∧ (∀ i, r.1 = .bar i → key.kind = .bar i)
      ∧ (ev.routeKey = some key.route → r.1 = key.kind) := by
  obtain ⟨instrument, kind, f, t, adjustment⟩ := key
  cases ev with
  | control c => simp [encodeRow] at h
  | trade tr =>
      simp only [encodeRow, Except.ok.injEq, Option.some.injEq] at h
      subst h
      refine ⟨rfl, by simp, fun hr => ?_⟩
      exact (Prod.mk.inj (Option.some.inj hr)).2
  | quote q =>
      simp only [encodeRow, Except.ok.injEq, Option.some.injEq] at h
      subst h
      refine ⟨rfl, by simp, fun hr => ?_⟩
      exact (Prod.mk.inj (Option.some.inj hr)).2
  | bar b =>
      cases kind with
      | bar i =>
          simp only [encodeRow, Except.ok.injEq, Option.some.injEq] at h
          subst h
          exact ⟨rfl, fun j hj => hj, fun _ => rfl⟩
      | trade => simp [encodeRow] at h
      | quote => simp [encodeRow] at h

/-- One inserted row, seen through a `WHERE` clause on some table. -/
theorem select_insertRow {kind : EventKind} {p : EventRow kind → Bool} {r : Σ kind, EventRow kind}
    (h : r.1 = kind → ∀ x, p x = true → x.pk ≠ r.2.pk) (c : TursoCache) :
    ((c.insertRow r).events kind).select p = (c.events kind).select p := by
  obtain ⟨k, r⟩ := r
  by_cases hk : k = kind
  · subst hk
    simp only [insertRow, Function.update_self]
    exact KeyedTable.select_insertOrReplace_of_disjoint (h rfl)
  · simp only [insertRow, Function.update_of_ne (Ne.symm hk)]

theorem select_deleteRange {key : CacheKey} {kind : EventKind} {p : EventRow kind → Bool}
    (h : key.kind = kind → ∀ r, p r = true → ∀ x, r.pk ≠ rowKey key x) (c : TursoCache) :
    ((c.deleteRange key).events kind).select p = (c.events kind).select p := by
  by_cases hk : key.kind = kind
  · subst hk
    simp only [deleteRange, Function.update_self]
    refine KeyedTable.select_deleteWhere_of_disjoint fun r hr => ?_
    by_contra hw
    exact h rfl r hr _ (rowWhere_iff.mp (by simpa using hw)).1
  · simp only [deleteRange, Function.update_of_ne (Ne.symm hk)]

/-- `key` and an event of its batch write nothing where `key'` reads rows. -/
def Misses (key key' : CacheKey) (ev : MarketEvent) : Prop :=
  ∀ r, encodeRow key ev = .ok (some r) → r.1 = key'.kind → ∀ x, rowKey key' x ≠ r.2.pk

theorem agree_insertEvent {key key' : CacheKey} {ev : MarketEvent} (h : Misses key key' ev)
    {c c' : TursoCache} (hc : insertEvent key c ev = .ok c') : Agree c c' key' := by
  rw [insertEvent] at hc
  cases henc : encodeRow key ev with
  | error e => simp [henc, Except.map] at hc
  | ok o =>
      cases o with
      | none =>
          obtain rfl : c = c' := by simpa [henc, Except.map] using hc
          exact .refl c key'
      | some r =>
          obtain rfl : c.insertRow r = c' := by simpa [henc, Except.map] using hc
          refine ⟨rfl, fun lo hi => select_insertRow (fun hk x hx => ?_) c⟩
          rw [(rowWhere_iff.mp hx).1]
          exact h r henc hk _

theorem agree_foldlM {key key' : CacheKey} {evs : List MarketEvent}
    (h : ∀ ev ∈ evs, Misses key key' ev) {c c' : TursoCache}
    (hc : evs.foldlM (insertEvent key) c = .ok c') : Agree c c' key' := by
  induction evs generalizing c with
  | nil =>
      obtain rfl : c = c' := by simpa using Except.ok.inj hc
      exact .refl c key'
  | cons ev evs ih =>
      obtain ⟨hev, hevs⟩ := List.forall_mem_cons.mp h
      rw [List.foldlM_cons] at hc
      cases hstep : insertEvent key c ev with
      | error e => simp [hstep, bind, Except.bind] at hc
      | ok c₁ =>
          rw [hstep] at hc
          exact (agree_insertEvent hev hstep).trans (ih hevs hc)

theorem agree_claimRange {key key' : CacheKey} (h : coverageKey key ≠ coverageKey key')
    (c : TursoCache) : Agree c (c.claimRange key) key' := by
  refine ⟨?_, fun _ _ => rfl⟩
  simp only [loadCoverage, claimRange, KeyedTable.lookup_insertOrReplace]
  exact congrArg _ (if_neg h)

/-- A store that writes nothing where `key'` reads leaves everything `key'` is
answered from alone; a store that fails leaves everything alone. -/
theorem agree_store {key key' : CacheKey} {evs : List MarketEvent}
    (hcol : ColumnsDiffer key key' ∨ key.kind ≠ key'.kind)
    (hevs : ∀ ev ∈ evs, Misses key key' ev) (c : TursoCache) :
    Agree c (c.store key evs).2 key' := by
  have hdel : Agree c (c.deleteRange key) key' := by
    refine ⟨rfl, fun lo hi => select_deleteRange (fun hk r hr x => ?_) c⟩
    rw [(rowWhere_iff.mp hr).1]
    rcases hcol with h | h
    · exact (h.rowKey_ne x r.sourceTs).symm
    · exact absurd hk h
  rw [store, storeInTx]
  cases hfold : evs.foldlM (insertEvent key) (c.deleteRange key) with
  | error e => exact .refl c key'
  | ok c₁ =>
      exact (hdel.trans (agree_foldlM hevs hfold)).trans (agree_claimRange (coverageKey_ne hcol) c₁)

/-! ### Keys that collide -/

/-- An event that lands at `x` where `key'` reads, when its columns are `key`'s own. -/
theorem exists_colliding_event {key key' : CacheKey} (hcol : ¬ ColumnsDiffer key key')
    (hkind : key.kind = key'.kind ∨ ∀ i, key'.kind ≠ .bar i) (x : Timestamp) :
    ∃ ev r, encodeRow key ev = .ok (some ⟨key'.kind, r⟩) ∧ r.pk = rowKey key' x
      ∧ (key.kind = key'.kind → ev.routeKey = some key.route) := by
  simp only [ColumnsDiffer, not_or, not_not] at hcol
  obtain ⟨hp, hs, ha⟩ := hcol
  have hkey : rowKey key x = rowKey key' x := by simp only [rowKey, hp, hs, ha]
  rw [← hkey]
  cases hk' : key'.kind with
  | trade =>
      refine ⟨.trade ⟨key.instrument, x, x, ⟨0⟩, ⟨0⟩, ⟨0⟩⟩, _, rfl, rfl, fun hk => ?_⟩
      simp [MarketEvent.routeKey, CacheKey.route, hk]
  | quote =>
      refine ⟨.quote ⟨key.instrument, x, x, ⟨0⟩, ⟨0⟩, ⟨0⟩, ⟨0⟩, ⟨0⟩⟩, _, rfl, rfl, fun hk => ?_⟩
      simp [MarketEvent.routeKey, CacheKey.route, hk]
  | bar i =>
      have hk : key.kind = .bar i := by
        rcases hkind with h | h
        · exact h.trans hk'
        · exact absurd hk' (h i)
      obtain ⟨instrument, kind, f, t, adjustment⟩ := key
      subst hk
      exact ⟨.bar ⟨instrument, i, x, x, ⟨0⟩, ⟨0⟩, ⟨0⟩, ⟨0⟩, ⟨0⟩, ⟨0⟩⟩, _, rfl, rfl, fun _ => rfl⟩

/-- Storing that event in an empty cache shows up in a replay of `key'`. -/
theorem not_sameAnswers {key key' : CacheKey} {ev : MarketEvent} {r : EventRow key'.kind}
    (henc : encodeRow key ev = .ok (some ⟨key'.kind, r⟩)) (hr : r.pk = rowKey key' key'.fromTs)
    (hrange : key'.fromTs < key'.toTs) :
    ¬ SameAnswers empty (empty.store key [ev]).2 key' := by
  intro h
  have hheld : (empty.store key [ev]).2.held key' key'.fromTs
      = some (decodeRow key'.instrument key'.kind r) := by
    refine held_eq_some.mpr ⟨r, ?_, hr, rfl⟩
    simp [store, storeInTx, insertEvent, henc, Except.map, claimRange, insertRow, bind,
      Except.bind, pure, Except.pure]
  have hmem := mem_replay.mpr ⟨key'.fromTs, le_rfl, hrange, hheld⟩
  rw [h.replay] at hmem
  obtain ⟨x, -, -, hx⟩ := mem_replay.mp hmem
  simp at hx

/-! ### Isolation -/

/-- Exactly when a store under `key` is invisible through `key'`. For batches of any
events: a column differs, or the kinds differ and `key'` reads a bar table (a trade
or quote of a batch goes to the trade or quote table whatever kind the key names),
or there is nothing to answer. For batches of the key's own stream: a column or the
kind differs, or there is nothing to answer. -/
theorem isolated_iff (key key' : CacheKey) :
    (Isolated (fun _ => True) key key' ↔ ColumnsDiffer key key'
      ∨ (key.kind ≠ key'.kind ∧ ∃ i, key'.kind = .bar i) ∨ key'.toTs ≤ key'.fromTs)
    ∧ (Isolated (fun ev => ev.routeKey = some key.route) key key' ↔ ColumnsDiffer key key'
      ∨ key.kind ≠ key'.kind ∨ key'.toTs ≤ key'.fromTs) := by
  have hmiss : ColumnsDiffer key key' → ∀ ev, Misses key key' ev := by
    intro h ev r henc _ x
    rw [(of_encodeRow henc).1]
    exact (h.rowKey_ne _ x).symm
  refine ⟨⟨fun h => ?_, ?_⟩, ⟨fun h => ?_, ?_⟩⟩
  · by_contra hno
    simp only [not_or, not_and, not_exists, not_le] at hno
    obtain ⟨hcol, hkind, hrange⟩ := hno
    have hkind' : key.kind = key'.kind ∨ ∀ i, key'.kind ≠ .bar i := by
      by_cases hk : key.kind = key'.kind
      · exact .inl hk
      · exact .inr (hkind hk)
    -- an event of the one key lands in a row the other key finds
    obtain ⟨ev, r, henc, hr, -⟩ := exists_colliding_event hcol hkind' key'.fromTs
    exact not_sameAnswers henc hr hrange (h empty .empty [ev] (by simp))
  -- a bar row keeps its interval, so a batch stored under another kind has no row of it
  · rintro (h | ⟨hk, i, hi⟩ | h) c _ evs _
    · exact (agree_store (.inl h) (fun ev _ => hmiss h ev) c).sameAnswers
    · refine (agree_store (.inr hk) (fun ev _ r henc hr => ?_) c).sameAnswers
      exact absurd (((of_encodeRow henc).2.1 i (hr.trans hi)).trans hi.symm) hk
    · exact sameAnswers_of_empty_range h _ _
  · by_contra hno
    simp only [not_or, not_not, not_le] at hno
    obtain ⟨hcol, hkind, hrange⟩ := hno
    obtain ⟨ev, r, henc, hr, hroute⟩ := exists_colliding_event hcol (.inl hkind) key'.fromTs
    refine not_sameAnswers henc hr hrange (h empty .empty [ev] ?_)
    simpa using hroute hkind
  · rintro (h | hk | h) c _ evs hevs
    · exact (agree_store (.inl h) (fun ev _ => hmiss h ev) c).sameAnswers
    · refine (agree_store (.inr hk) (fun ev hev r henc hr => ?_) c).sameAnswers
      exact absurd (((of_encodeRow henc).2.2 (hevs ev hev)).symm.trans hr) hk
    · exact sameAnswers_of_empty_range h _ _

/-- The equity and the ETF of one ticker are different instruments, yet claiming an
empty range of one leaves the other with no gap to fetch. -/
theorem not_isolated_of_assetClass :
    Distinct ⟨⟨"alpaca", .equity, "AAPL"⟩, .trade, 0, 10, .raw⟩
        ⟨⟨"alpaca", .etf, "AAPL"⟩, .trade, 0, 10, .raw⟩
      ∧ empty.gaps ⟨⟨"alpaca", .etf, "AAPL"⟩, .trade, 0, 10, .raw⟩ = [⟨0, 10⟩]
      ∧ (empty.store ⟨⟨"alpaca", .equity, "AAPL"⟩, .trade, 0, 10, .raw⟩ []).2.gaps
          ⟨⟨"alpaca", .etf, "AAPL"⟩, .trade, 0, 10, .raw⟩ = []
      ∧ ¬ Isolated (fun ev => ev.routeKey = some (⟨"alpaca", .equity, "AAPL"⟩, .trade))
          ⟨⟨"alpaca", .equity, "AAPL"⟩, .trade, 0, 10, .raw⟩
          ⟨⟨"alpaca", .etf, "AAPL"⟩, .trade, 0, 10, .raw⟩ := by
  refine ⟨.inl (by decide), by decide, by decide, fun h => ?_⟩
  exact absurd (h empty .empty [] (by simp)).gaps (by decide)

end TursoCache

end Datamancer
