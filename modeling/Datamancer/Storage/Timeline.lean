import Datamancer.Storage.Turso

/-!
# Datamancer.Storage.Timeline

What the cache holds for one stream, seen as a partial function of time: at most
one event per instant (`held`), because the event tables' primary key ends in
`source_ts`. A replay lists that function in order (`mem_replay`,
`replay_strict`), and a store of events of the key's own stream overwrites it on
the claimed range with the last event of the batch at each instant (`held_store`).

The coverage document of the stream is tracked next to it (`segments_store`).
-/

namespace Datamancer

/-- The stream a family of cache keys ranges over. -/
structure CacheStream where
  instrument : Instrument
  kind : EventKind
  adjustment : Adjustment
  deriving DecidableEq, Repr

/-- The key of a range of a stream. -/
def CacheStream.key (s : CacheStream) (f t : Timestamp) : CacheKey :=
  ⟨s.instrument, s.kind, f, t, s.adjustment⟩

/-- The request that asks for all of a key. -/
def CacheKey.request (key : CacheKey) : ReplayRequest :=
  ⟨[key.instrument], [key.kind], key.fromTs, key.toTs⟩

/-- The stream an event of a key's batch should be of. -/
def CacheKey.route (key : CacheKey) : Instrument × EventKind := (key.instrument, key.kind)

namespace TursoCache

/-! ### One stream as a function of time -/

/-- The event the cache holds for a key's stream at an instant. -/
def held (c : TursoCache) (key : CacheKey) (x : Timestamp) : Option MarketEvent :=
  ((c.events key.kind).lookup (rowKey key x)).map (decodeRow key.instrument key.kind)

/-- The coverage document the source works on: the stored one, else the empty one. -/
def coverageOf (c : TursoCache) (key : CacheKey) : CoverageDoc :=
  (c.loadCoverage key).getD .default

@[simp] theorem held_empty (key : CacheKey) (x : Timestamp) : empty.held key x = none := rfl

@[simp] theorem coverageOf_empty (key : CacheKey) : empty.coverageOf key = .default := rfl

/-- The `WHERE` clause of a key selects by primary key. -/
theorem rowWhere_iff {key : CacheKey} {lo hi : Timestamp} {r : EventRow key.kind} :
    rowWhere key lo hi r = true
      ↔ r.pk = rowKey key r.sourceTs ∧ lo ≤ r.sourceTs ∧ r.sourceTs < hi := by
  simp [rowWhere, EventRow.pk, rowKey, and_assoc]

@[simp] theorem sourceTs_decodeRow (i : Instrument) {kind : EventKind} (r : EventRow kind) :
    (decodeRow i kind r).sourceTs = r.sourceTs := by
  cases kind <;> rfl

@[simp] theorem routeKey_decodeRow (i : Instrument) {kind : EventKind} (r : EventRow kind) :
    (decodeRow i kind r).routeKey = some (i, kind) := by
  cases kind <;> rfl

theorem held_eq_some {c : TursoCache} {key : CacheKey} {x : Timestamp} {ev : MarketEvent} :
    c.held key x = some ev ↔ ∃ r ∈ (c.events key.kind).rows, r.pk = rowKey key x
      ∧ decodeRow key.instrument key.kind r = ev := by
  simp only [held, Option.map_eq_some_iff, KeyedTable.lookup_eq_some]
  constructor
  · rintro ⟨r, ⟨hr, hk⟩, hd⟩
    exact ⟨r, hr, hk, hd⟩
  · rintro ⟨r, hr, hk, hd⟩
    exact ⟨r, ⟨hr, hk⟩, hd⟩

/-- The instant of a held event is its `source_ts`, and its stream is the key's. -/
theorem of_held {c : TursoCache} {key : CacheKey} {x : Timestamp} {ev : MarketEvent}
    (h : c.held key x = some ev) : ev.sourceTs = x ∧ ev.routeKey = some key.route := by
  obtain ⟨r, -, hk, rfl⟩ := held_eq_some.mp h
  have hx : r.sourceTs = x := by
    have := congrArg (fun k => k.2.2.2) hk
    simpa [EventRow.pk, rowKey] using this
  exact ⟨by rw [sourceTs_decodeRow, hx], by rw [routeKey_decodeRow]; rfl⟩

/-! ### Replay -/

theorem replay_request (c : TursoCache) (key : CacheKey) :
    c.replay key key.request = if key.toTs ≤ key.fromTs then [] else
      ((c.events key.kind).selectOrdered (rowWhere key key.fromTs key.toTs)
        EventRow.sourceTs).map (decodeRow key.instrument key.kind) := by
  simp [replay, CacheKey.request]

/-- A replay of a key lists what the cache holds on the key's range. -/
theorem mem_replay {c : TursoCache} {key : CacheKey} {ev : MarketEvent} :
    ev ∈ c.replay key key.request
      ↔ ∃ x, key.fromTs ≤ x ∧ x < key.toTs ∧ c.held key x = some ev := by
  have hrange : (∃ x, key.fromTs ≤ x ∧ x < key.toTs ∧ c.held key x = some ev)
      ↔ ∃ r ∈ (c.events key.kind).rows, rowWhere key key.fromTs key.toTs r = true
        ∧ decodeRow key.instrument key.kind r = ev := by
    constructor
    · rintro ⟨x, hf, ht, hx⟩
      obtain ⟨r, hr, hk, hd⟩ := held_eq_some.mp hx
      have hrx : r.sourceTs = x := by rw [← sourceTs_decodeRow key.instrument, hd, (of_held hx).1]
      subst hrx
      exact ⟨r, hr, rowWhere_iff.mpr ⟨hk, hf, ht⟩, hd⟩
    · rintro ⟨r, hr, hw, hd⟩
      obtain ⟨hk, hf, ht⟩ := rowWhere_iff.mp hw
      exact ⟨r.sourceTs, hf, ht, held_eq_some.mpr ⟨r, hr, hk, hd⟩⟩
  rw [hrange, replay_request]
  by_cases hle : key.toTs ≤ key.fromTs
  · rw [if_pos hle]
    constructor
    · simp
    · rintro ⟨r, -, hw, -⟩
      obtain ⟨-, hf, ht⟩ := rowWhere_iff.mp hw
      exact absurd (hf.trans_lt ht) (not_lt.mpr hle)
  · rw [if_neg hle, List.mem_map]
    simp only [KeyedTable.mem_selectOrdered, and_assoc]

/-- A replay is strictly increasing in `source_ts`. -/
theorem replay_strict (c : TursoCache) (key : CacheKey) (request : ReplayRequest) :
    (c.replay key request).Pairwise fun a b => a.sourceTs < b.sourceTs := by
  simp only [replay]
  split_ifs with h
  · exact .nil
  · rw [List.pairwise_map]
    simp only [sourceTs_decodeRow]
    refine KeyedTable.selectOrdered_strict _ _ _ fun r s hr hs hts => ?_
    rw [(rowWhere_iff.mp hr).1, (rowWhere_iff.mp hs).1, hts]

/-- Two replays in a row are the replay of both ranges. -/
theorem replay_append {c : TursoCache} {s : CacheStream} {f m t : Timestamp} (hf : f ≤ m)
    (ht : m ≤ t) :
    c.replay (s.key f m) (s.key f m).request ++ c.replay (s.key m t) (s.key m t).request
      = c.replay (s.key f t) (s.key f t).request := by
  have hheld : ∀ (a b : Timestamp) ev, ev ∈ c.replay (s.key a b) (s.key a b).request
      ↔ ∃ x, a ≤ x ∧ x < b ∧ c.held (s.key 0 0) x = some ev := fun a b ev => mem_replay
  have hts : ∀ {x ev}, c.held (s.key 0 0) x = some ev → ev.sourceTs = x := fun h => (of_held h).1
  refine HalfOpen.eq_of_strictly_increasing MarketEvent.sourceTs ?_ (replay_strict c _ _)
    fun ev => ?_
  · refine List.pairwise_append.mpr ⟨replay_strict c _ _, replay_strict c _ _, ?_⟩
    intro a ha b hb
    obtain ⟨x, -, hx, hax⟩ := (hheld f m a).mp ha
    obtain ⟨y, hy, -, hby⟩ := (hheld m t b).mp hb
    rw [hts hax, hts hby]
    exact hx.trans_le hy
  · rw [List.mem_append, hheld, hheld, hheld]
    constructor
    · rintro (⟨x, hfx, hx, hev⟩ | ⟨x, hfx, hx, hev⟩)
      · exact ⟨x, hfx, hx.trans_le ht, hev⟩
      · exact ⟨x, hf.trans hfx, hx, hev⟩
    · rintro ⟨x, hfx, hx, hev⟩
      rcases lt_or_ge x m with hlt | hge
      · exact .inl ⟨x, hfx, hlt, hev⟩
      · exact .inr ⟨x, hge, hx, hev⟩

theorem replay_eq_nil {c : TursoCache} {s : CacheStream} {f t : Timestamp} (h : t ≤ f) :
    c.replay (s.key f t) (s.key f t).request = [] := by
  rw [replay_request]
  exact if_pos h

/-- At one instant of the key's range a replay yields what the cache holds there. -/
theorem replay_at {c : TursoCache} {key : CacheKey} {x : Timestamp} (hf : key.fromTs ≤ x)
    (ht : x < key.toTs) :
    (c.replay key key.request).filter (fun ev => ev.sourceTs = x) = (c.held key x).toList := by
  refine HalfOpen.eq_of_strictly_increasing MarketEvent.sourceTs
    ((replay_strict c key key.request).filter _) ?_ fun ev => ?_
  · cases c.held key x <;> simp
  · rw [List.mem_filter, mem_replay, Option.mem_toList, decide_eq_true_iff]
    constructor
    · rintro ⟨⟨y, -, -, hy⟩, hx⟩
      obtain rfl : y = x := (of_held hy).1.symm.trans hx
      exact hy
    · exact fun h => ⟨⟨x, hf, ht, h⟩, (of_held h).1⟩

/-! ### Store -/

/-- `r` is the row of `ev` under `key`: filed under the event's instant, and decoding
to the event itself but for its `seq`. -/
structure Encodes (key : CacheKey) (r : EventRow key.kind) (ev : MarketEvent) : Prop where
  pk_eq : r.pk = rowKey key ev.sourceTs
  decode_eq : decodeRow key.instrument key.kind r = ev.stampSeq ⟨0⟩

/-- Every event of the key's stream has a row; nothing but its `seq` is lost in it. -/
theorem encodeRow_of_routed {key : CacheKey} {ev : MarketEvent}
    (h : ev.routeKey = some key.route) :
    ∃ r, encodeRow key ev = .ok (some ⟨key.kind, r⟩) ∧ Encodes key r ev := by
  obtain ⟨instrument, kind, f, t, adjustment⟩ := key
  cases ev with
  | control c => simp [MarketEvent.routeKey] at h
  | trade tr =>
      obtain ⟨rfl, rfl⟩ : tr.instrument = instrument ∧ .trade = kind := by
        simpa [MarketEvent.routeKey, CacheKey.route] using h
      exact ⟨_, rfl, rfl, by simp [decodeRow, MarketEvent.stampSeq]⟩
  | quote q =>
      obtain ⟨rfl, rfl⟩ : q.instrument = instrument ∧ .quote = kind := by
        simpa [MarketEvent.routeKey, CacheKey.route] using h
      exact ⟨_, rfl, rfl, by simp [decodeRow, MarketEvent.stampSeq]⟩
  | bar b =>
      obtain ⟨rfl, rfl⟩ : b.instrument = instrument ∧ .bar b.interval = kind := by
        simpa [MarketEvent.routeKey, CacheKey.route] using h
      exact ⟨_, rfl, rfl, by simp [decodeRow, MarketEvent.stampSeq]⟩

/-- The inserts of a batch of the key's own stream, as one batch of rows of one table. -/
theorem foldlM_insertEvent {key : CacheKey} {evs : List MarketEvent}
    (h : ∀ ev ∈ evs, ev.routeKey = some key.route) (c : TursoCache) :
    ∃ rows : List (EventRow key.kind), List.Forall₂ (Encodes key) rows evs ∧
      evs.foldlM (insertEvent key) c = .ok { c with
        events := Function.update c.events key.kind ((c.events key.kind).insertAll rows) } := by
  induction evs generalizing c with
  | nil => exact ⟨[], .nil, by simp; rfl⟩
  | cons ev evs ih =>
      obtain ⟨hev, hevs⟩ := List.forall_mem_cons.mp h
      obtain ⟨r, hr, henc⟩ := encodeRow_of_routed hev
      obtain ⟨rows, hrows, hfold⟩ := ih hevs (c.insertRow ⟨key.kind, r⟩)
      refine ⟨r :: rows, .cons henc hrows, ?_⟩
      have hstep : insertEvent key c ev = .ok (c.insertRow ⟨key.kind, r⟩) := by
        rw [insertEvent, hr]
        rfl
      rw [List.foldlM_cons, hstep]
      refine hfold.trans ?_
      simp [insertRow, Function.update_idem]

/-- A store of events of the key's own stream commits. -/
theorem store_of_routed {key : CacheKey} {evs : List MarketEvent}
    (h : ∀ ev ∈ evs, ev.routeKey = some key.route) (c : TursoCache) :
    ∃ rows : List (EventRow key.kind), List.Forall₂ (Encodes key) rows evs ∧
      c.store key evs = (.ok (), ({ c with
        events := Function.update c.events key.kind
          (((c.events key.kind).deleteWhere (rowWhere key key.fromTs key.toTs)).insertAll rows) }
        : TursoCache).claimRange key) := by
  obtain ⟨rows, hrows, hfold⟩ := foldlM_insertEvent h (c.deleteRange key)
  refine ⟨rows, hrows, ?_⟩
  rw [store, storeInTx, hfold]
  simp [deleteRange, Function.update_idem, Except.map]

/-- The last event of a batch at an instant. -/
def lastAt (evs : List MarketEvent) (x : Timestamp) : Option MarketEvent :=
  evs.reverse.find? fun ev => ev.sourceTs = x

theorem lastAt_rows {key : CacheKey} {rows : List (EventRow key.kind)} {evs : List MarketEvent}
    (h : List.Forall₂ (Encodes key) rows evs) (x : Timestamp) :
    (rows.reverse.find? fun r => r.pk = rowKey key x).map (decodeRow key.instrument key.kind)
      = (lastAt evs x).map (MarketEvent.stampSeq ⟨0⟩) := by
  rw [lastAt]
  replace h := List.rel_reverse h
  generalize rows.reverse = rows at h ⊢
  generalize evs.reverse = evs at h ⊢
  induction h with
  | nil => rfl
  | @cons r ev rows evs henc _ ih =>
      have hkey : r.pk = rowKey key x ↔ ev.sourceTs = x := by
        rw [henc.pk_eq]
        simp [rowKey]
      by_cases hx : ev.sourceTs = x
      · rw [List.find?_cons_of_pos (by simpa using hkey.mpr hx),
          List.find?_cons_of_pos (by simpa using hx)]
        simp [henc.decode_eq]
      · rw [List.find?_cons_of_neg (by simpa [hkey] using hx),
          List.find?_cons_of_neg (by simpa using hx)]
        exact ih

/-- What a store leaves at an instant: the last event of the batch there, else
nothing inside the claimed range and what was held before outside it. -/
theorem held_store {key : CacheKey} {evs : List MarketEvent}
    (h : ∀ ev ∈ evs, ev.routeKey = some key.route) (c : TursoCache) (x : Timestamp) :
    (c.store key evs).2.held key x = ((lastAt evs x).map (MarketEvent.stampSeq ⟨0⟩)).or
      (if key.fromTs ≤ x ∧ x < key.toTs then none else c.held key x) := by
  obtain ⟨rows, hrows, hstore⟩ := store_of_routed h c
  have hdel : ((c.events key.kind).deleteWhere (rowWhere key key.fromTs key.toTs)).lookup
      (rowKey key x) = if key.fromTs ≤ x ∧ x < key.toTs then none
        else (c.events key.kind).lookup (rowKey key x) := by
    rw [KeyedTable.lookup_deleteWhere (q := fun k => k = rowKey key k.2.2.2
      ∧ key.fromTs ≤ k.2.2.2 ∧ k.2.2.2 < key.toTs)]
    · simp [rowKey]
    · intro r
      rw [Bool.eq_iff_iff, rowWhere_iff, decide_eq_true_iff]
      rfl
  rw [hstore, ← lastAt_rows hrows]
  simp only [held, claimRange, Function.update_self, KeyedTable.lookup_insertAll, hdel,
    Option.map_or]
  split_ifs <;> rfl

/-- A store claims exactly its key's range on top of what was claimed. -/
theorem segments_store {key : CacheKey} {evs : List MarketEvent}
    (h : ∀ ev ∈ evs, ev.routeKey = some key.route) (c : TursoCache) :
    ((c.store key evs).2.coverageOf key).segments
      = ((c.coverageOf key).mergeIn key.fromTs key.toTs 0).segments := by
  obtain ⟨rows, -, hstore⟩ := store_of_routed h c
  rw [hstore]
  simp [coverageOf, loadCoverage, claimRange, KeyedTable.lookup_insertOrReplace, coverageKey,
    CoverageRow.pk]

theorem covered_store {key : CacheKey} {evs : List MarketEvent}
    (h : ∀ ev ∈ evs, ev.routeKey = some key.route) {c : TursoCache}
    (hsep : HalfOpen.Separated (c.coverageOf key).segments) :
    HalfOpen.Separated ((c.store key evs).2.coverageOf key).segments
      ∧ ((c.store key evs).2.coverageOf key).covered
        = Set.Ico key.fromTs key.toTs ∪ (c.coverageOf key).covered := by
  rw [CoverageDoc.covered, segments_store h c]
  exact ⟨CoverageDoc.separated_mergeIn hsep _ _ _, CoverageDoc.covered_mergeIn hsep _ _ _⟩

/-! ### Coverage in normal form -/

/-- Every coverage document is in normal form. -/
def Normal (c : TursoCache) : Prop := ∀ key, HalfOpen.Separated (c.coverageOf key).segments

theorem normal_empty : Normal empty := fun _ => .nil

theorem coverage_insertEvent {key : CacheKey} {c c' : TursoCache} {ev : MarketEvent}
    (h : insertEvent key c ev = .ok c') : c'.coverage = c.coverage := by
  unfold insertEvent at h
  cases hrow : encodeRow key ev with
  | error e =>
      rw [hrow] at h
      cases h
  | ok r =>
      rw [hrow] at h
      obtain rfl := Except.ok.inj h
      cases r <;> rfl

theorem coverage_foldlM {key : CacheKey} {evs : List MarketEvent} {c c' : TursoCache}
    (h : evs.foldlM (insertEvent key) c = .ok c') : c'.coverage = c.coverage := by
  induction evs generalizing c with
  | nil =>
      obtain rfl := Except.ok.inj h
      rfl
  | cons ev evs ih =>
      rw [List.foldlM_cons] at h
      cases hins : insertEvent key c ev with
      | error e =>
          rw [hins] at h
          cases h
      | ok c₁ =>
          rw [hins] at h
          exact (ih h).trans (coverage_insertEvent hins)

theorem coverageOf_congr {c c' : TursoCache} (h : c'.coverage = c.coverage) (key : CacheKey) :
    c'.coverageOf key = c.coverageOf key := by
  unfold coverageOf loadCoverage
  rw [h]

theorem Normal.claimRange {c : TursoCache} (h : Normal c) (key : CacheKey) :
    Normal (c.claimRange key) := by
  intro key'
  by_cases hkey : coverageKey key' = coverageKey key
  · have hdoc : ((c.claimRange key).coverageOf key').segments
        = ((c.coverageOf key).mergeIn key.fromTs key.toTs 0).segments := by
      simp only [coverageOf, loadCoverage, TursoCache.claimRange, KeyedTable.lookup_insertOrReplace,
        hkey]
      simp [coverageKey, CoverageRow.pk]
    rw [hdoc]
    exact CoverageDoc.separated_mergeIn (h key) _ _ _
  · have hdoc : (c.claimRange key).coverageOf key' = c.coverageOf key' := by
      have hne : ¬ (key.instrument.provider, key.instrument.symbol, tableFor key.kind,
          (effectiveAdjustment key).asStr) = coverageKey key' := fun h => hkey h.symm
      simp [coverageOf, loadCoverage, TursoCache.claimRange, KeyedTable.lookup_insertOrReplace,
        CoverageRow.pk, hne]
    rw [hdoc]
    exact h key'

/-- A store, also one that is rolled back, keeps the normal form. -/
theorem Normal.store {c : TursoCache} (h : Normal c) (key : CacheKey) (evs : List MarketEvent) :
    Normal (c.store key evs).2 := by
  unfold TursoCache.store storeInTx
  cases hfold : evs.foldlM (insertEvent key) (c.deleteRange key) with
  | error e => exact h
  | ok c' =>
      refine Normal.claimRange (fun key' => ?_) key
      rw [coverageOf_congr (coverage_foldlM hfold)]
      exact h key'

end TursoCache

end Datamancer
