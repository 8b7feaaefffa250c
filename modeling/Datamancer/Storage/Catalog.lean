import Mathlib.Data.Int.Interval
import Datamancer.Storage.Isolation
import Datamancer.Storage.TapNames

/-!
# Datamancer.Storage.Catalog

The catalog of the historical cache (`catalog` of `storage/turso.rs`): one entry for every
row of the coverage table, with the segments, the event count and the asset class the row
carries, under the provider, symbol, kind and adjustment its tokens name.

Nothing in the tables says that the catalog is about the events: the coverage row is upserted
beside them, and its count is what the store that wrote it counted. `catalog_law` says what the
catalog is worth after any calls of `store`: it lists exactly the stored keys, each once, with
the ranges claimed under it, and the `gaps` of a key are what the entry of the key leaves
uncovered. The count of an entry is what the replays of its segments yield, as long as every
batch is of its key's stream; a batch of another kind writes rows behind the back of the count
of that kind.
-/

namespace Datamancer

open HalfOpen

/-- `Adjustment::from_token`. -/
def Adjustment.fromToken (token : String) : Option Adjustment :=
  if token = "raw" then some .raw
  else if token = "split" then some .split
  else if token = "dividend" then some .dividend
  else if token = "spinoff" then some .spinOff
  else if token = "all" then some .all
  else none

@[simp] theorem Adjustment.fromToken_asStr (a : Adjustment) : fromToken a.asStr = some a := by
  cases a <;> decide

theorem Adjustment.asStr_of_fromToken {token : String} {a : Adjustment}
    (h : fromToken token = some a) : token = a.asStr := by
  unfold fromToken at h
  split_ifs at h with h₁ h₂ h₃ h₄ h₅ <;> cases h <;> assumption

/-- `u64::saturating_mul`. -/
def saturatingMul (a b : UInt64) : UInt64 := UInt64.ofNatClamp (a.toNat * b.toNat)

/-- What identifies a stored range: all of a key but its range and the asset class. -/
structure StoredKey where
  provider : String
  symbol : String
  kind : EventKind
  adjustment : Adjustment
  deriving DecidableEq, Repr

structure CacheCatalogEntry where
  provider : String
  symbol : String
  assetClass : Option AssetClass
  kind : EventKind
  adjustment : Adjustment
  segments : List GapSpan
  eventCount : UInt64
  estBytes : Option UInt64
  deriving DecidableEq, Repr

def CacheCatalogEntry.storedKey (e : CacheCatalogEntry) : StoredKey :=
  ⟨e.provider, e.symbol, e.kind, e.adjustment⟩

/-- The segments of an entry as pieces. -/
def CacheCatalogEntry.pieces (e : CacheCatalogEntry) : List (Timestamp × Timestamp) :=
  e.segments.map fun s => (s.fromSourceTs, s.toSourceTs)

/-- The range of a key as a piece. -/
def CacheKey.range (key : CacheKey) : Timestamp × Timestamp := (key.fromTs, key.toTs)

/-- The key of another range of the same stream. -/
def CacheKey.over (key : CacheKey) (piece : Timestamp × Timestamp) : CacheKey :=
  { key with fromTs := piece.1, toTs := piece.2 }

namespace TursoCache

/-- The key a range is stored under. -/
def storedKey (key : CacheKey) : StoredKey :=
  ⟨key.instrument.provider, key.instrument.symbol, key.kind, effectiveAdjustment key⟩

/-- Logical bytes of a row: its fixed numeric fields. -/
def bytesPerRow : EventKind → UInt64
  | .trade => 4 * 8
  | .quote => 6 * 8
  | .bar _ => 7 * 8

/-- The entry of a coverage row; a row with a token that names nothing is skipped. -/
def catalogEntry (row : CoverageRow) : Option CacheCatalogEntry := do
  let kind ← kindFor row.kind
  let adjustment ← Adjustment.fromToken row.adjustment
  let eventCount := row.eventCount.toUInt64
  some
    { provider := row.provider, symbol := row.symbol, kind, adjustment, eventCount
      assetClass := row.assetClass.bind TapLog.assetClassFromTag
      segments := row.segments.map fun s => ⟨s.1, s.2⟩
      estBytes := some (saturatingMul eventCount (bytesPerRow kind)) }

def catalog (c : TursoCache) : List CacheCatalogEntry := c.coverage.rows.filterMap catalogEntry

/-- Calls of `store` in order, from an empty cache, with the keys of those that were
answered `Ok`. -/
def runStores (calls : List (CacheKey × List MarketEvent)) : TursoCache × List CacheKey :=
  calls.foldl (fun st call =>
    match st.1.store call.1 call.2 with
    | (.ok (), c) => (c, st.2 ++ [call.1])
    | (.error _, c) => (c, st.2)) (empty, [])

/-! ### Keys and rows -/

theorem tableFor_of_kindFor {table : String} {kind : EventKind} (h : kindFor table = some kind) :
    table = tableFor kind := by
  unfold kindFor at h
  split_ifs at h <;> cases h <;> assumption

theorem coverageKey_eq_iff {key key' : CacheKey} :
    coverageKey key = coverageKey key' ↔ storedKey key = storedKey key' := by
  simp only [coverageKey, storedKey, Prod.mk.injEq, StoredKey.mk.injEq,
    tableFor_injective.eq_iff, Adjustment.asStr_injective.eq_iff]

/-- The row of a key decodes to an entry of that key. -/
theorem catalogEntry_of_pk {row : CoverageRow} {key : CacheKey} (h : row.pk = coverageKey key) :
    catalogEntry row = some
      { provider := key.instrument.provider, symbol := key.instrument.symbol
        assetClass := row.assetClass.bind TapLog.assetClassFromTag, kind := key.kind
        adjustment := effectiveAdjustment key
        segments := row.segments.map fun s => ⟨s.1, s.2⟩
        eventCount := row.eventCount.toUInt64
        estBytes := some (saturatingMul row.eventCount.toUInt64 (bytesPerRow key.kind)) } := by
  obtain ⟨provider, symbol, kind, adjustment, segments, count, assetClass⟩ := row
  simp only [CoverageRow.pk, coverageKey, Prod.mk.injEq] at h
  obtain ⟨rfl, rfl, rfl, rfl⟩ := h
  simp [catalogEntry, kindFor_tableFor]

/-- What the store of a batch does to the coverage table. -/
theorem coverage_store {c c' : TursoCache} {key : CacheKey} {evs : List MarketEvent}
    (h : c.store key evs = (.ok (), c')) :
    ∃ row : CoverageRow, c'.coverage = c.coverage.insertOrReplace row ∧
      row.pk = coverageKey key ∧
      row.segments = ((c.coverageOf key).mergeIn key.fromTs key.toTs 0).segments ∧
      row.assetClass = some (assetClassTag key.instrument.assetClass) := by
  unfold store storeInTx at h
  cases hfold : evs.foldlM (insertEvent key) (c.deleteRange key) with
  | error e => simp [hfold, Except.map] at h
  | ok c₁ =>
      have hcov : c₁.coverage = c.coverage := (coverage_foldlM hfold).trans rfl
      obtain rfl : c₁.claimRange key = c' := by simpa [hfold, Except.map] using h
      refine ⟨_, by rw [claimRange, hcov], rfl, ?_, rfl⟩
      exact congrArg (fun doc => (CoverageDoc.mergeIn doc key.fromTs key.toTs 0).segments)
        (coverageOf_congr hcov key)

/-! ### What the coverage table records -/

/-- A coverage row as the claims under its key leave it. -/
structure Describes (keys : List CacheKey) (row : CoverageRow) : Prop where
  separated : Separated row.segments
  covers : cover row.segments = cover (keys.map CacheKey.range)
  assetClass : row.assetClass = keys.getLast?.map fun key => assetClassTag key.instrument.assetClass

/-- The coverage table has one row for each key claimed, as the claims under it leave it. -/
structure Books (c : TursoCache) (keys : List CacheKey) : Prop where
  listed : ∀ row ∈ c.coverage.rows, ∃ key ∈ keys, row.pk = coverageKey key
  row : ∀ key ∈ keys, ∃ row, c.coverage.lookup (coverageKey key) = some row ∧
    Describes (keys.filter fun k => storedKey k = storedKey key) row

theorem books_empty : Books empty [] := ⟨by simp [empty, KeyedTable.empty], by simp⟩

theorem cover_append (segs segs' : List (Timestamp × Timestamp)) :
    cover (segs ++ segs') = cover segs ∪ cover segs' := by
  induction segs with
  | nil => simp
  | cons s segs ih => rw [List.cons_append, cover_cons, cover_cons, ih, Set.union_assoc]

/-- The document a store merges its range into describes the earlier claims of the key. -/
theorem Books.coverageOf {c : TursoCache} {keys : List CacheKey} (h : Books c keys)
    (key : CacheKey) : Separated (c.coverageOf key).segments ∧ (c.coverageOf key).covered
      = cover ((keys.filter fun k => storedKey k = storedKey key).map CacheKey.range) := by
  cases hrow : c.coverage.lookup (coverageKey key) with
  | none =>
      have hnone : keys.filter (fun k => storedKey k = storedKey key) = [] := by
        rw [List.filter_eq_nil_iff]
        intro k hk heq
        obtain ⟨row, hlookup, -⟩ := h.row k hk
        rw [coverageKey_eq_iff.mpr (by simpa using heq), hrow] at hlookup
        cases hlookup
      rw [hnone, TursoCache.coverageOf, loadCoverage, hrow]
      exact ⟨.nil, rfl⟩
  | some row =>
      obtain ⟨hmem, hpk⟩ := KeyedTable.lookup_eq_some.mp hrow
      obtain ⟨k, hk, hkey⟩ := h.listed row hmem
      have hsame : storedKey k = storedKey key := coverageKey_eq_iff.mp (hkey.symm.trans hpk)
      obtain ⟨row', hrow', hd⟩ := h.row k hk
      rw [coverageKey_eq_iff.mpr hsame, hrow] at hrow'
      obtain rfl := Option.some.inj hrow'
      rw [hsame] at hd
      rw [TursoCache.coverageOf, loadCoverage, hrow]
      exact ⟨hd.separated, hd.covers⟩

/-- One store more: its row describes one claim more, and every other row what it did. -/
theorem Books.store {c c' : TursoCache} {keys : List CacheKey} (h : Books c keys) {key : CacheKey}
    {evs : List MarketEvent} (hstore : c.store key evs = (.ok (), c')) :
    Books c' (keys ++ [key]) := by
  obtain ⟨row, hcov, hpk, hsegments, hclass⟩ := coverage_store hstore
  have hnew : Describes ((keys ++ [key]).filter fun k => storedKey k = storedKey key) row := by
    obtain ⟨hsep, hcovered⟩ := h.coverageOf key
    refine ⟨hsegments ▸ CoverageDoc.separated_mergeIn hsep _ _ _, ?_, ?_⟩
    · calc cover row.segments
          = ((c.coverageOf key).mergeIn key.fromTs key.toTs 0).covered := congrArg cover hsegments
        _ = Set.Ico key.fromTs key.toTs ∪ cover
              ((keys.filter fun k => storedKey k = storedKey key).map CacheKey.range) := by
            rw [CoverageDoc.covered_mergeIn hsep, hcovered]
        _ = cover (((keys ++ [key]).filter fun k => storedKey k = storedKey key).map
              CacheKey.range) := by
            rw [List.filter_append, List.map_append, cover_append, Set.union_comm]
            simp [CacheKey.range]
    · simp [hclass, List.filter_append]
  constructor
  · intro r hr
    rw [hcov, KeyedTable.mem_insertOrReplace] at hr
    rcases hr with rfl | ⟨hr, -⟩
    · exact ⟨key, by simp, hpk⟩
    · obtain ⟨k, hk, hkey⟩ := h.listed r hr
      exact ⟨k, List.mem_append_left _ hk, hkey⟩
  · intro k hk
    rw [hcov, KeyedTable.lookup_insertOrReplace, hpk]
    by_cases hsame : storedKey k = storedKey key
    · rw [if_pos (coverageKey_eq_iff.mpr hsame.symm), hsame]
      exact ⟨row, rfl, hnew⟩
    · have hne : coverageKey key ≠ coverageKey k := fun heq =>
        hsame (coverageKey_eq_iff.mp heq).symm
      have hold : k ∈ keys := by
        rcases List.mem_append.mp hk with hk | hk
        · exact hk
        · exact absurd (by rw [List.mem_singleton.mp hk]) hsame
      rw [if_neg hne, List.filter_append, List.filter_cons_of_neg (by simpa using Ne.symm hsame),
        List.filter_nil, List.append_nil]
      exact h.row k hold

theorem runStores_append (calls : List (CacheKey × List MarketEvent))
    (call : CacheKey × List MarketEvent) :
    runStores (calls ++ [call]) = match (runStores calls).1.store call.1 call.2 with
      | (.ok (), c) => (c, (runStores calls).2 ++ [call.1])
      | (.error _, c) => (c, (runStores calls).2) := by
  rw [runStores, List.foldl_append]
  rfl

/-- A store that fails leaves the cache as it was. -/
theorem store_error {c c' : TursoCache} {key : CacheKey} {evs : List MarketEvent} {e : Error}
    (h : c.store key evs = (.error e, c')) : c' = c := by
  rw [store] at h
  cases hin : c.storeInTx key evs with
  | ok c₁ => simp [hin] at h
  | error e' => simpa [hin, eq_comm] using (Prod.mk.inj (by simpa [hin] using h)).2

theorem books_runStores (calls : List (CacheKey × List MarketEvent)) :
    Books (runStores calls).1 (runStores calls).2 := by
  induction calls using List.reverseRecOn with
  | nil => exact books_empty
  | append_singleton calls call ih =>
      rw [runStores_append]
      cases hstore : (runStores calls).1.store call.1 call.2 with
      | mk r c =>
          cases r with
          | ok u => exact ih.store hstore
          | error e =>
              rw [store_error hstore]
              exact ih

/-! ### Counting rows -/

/-- The rows of one key in `[lo, hi)` are at most as many as its instants. -/
theorem count_le (c : TursoCache) (key : CacheKey) {lo hi : Timestamp} (h : lo ≤ hi) :
    ((c.events key.kind).count (rowWhere key lo hi) : ℤ) ≤ hi.toInt - lo.toInt := by
  have hmem : ∀ r ∈ (c.events key.kind).select (rowWhere key lo hi),
      r.pk = rowKey key r.sourceTs ∧ lo ≤ r.sourceTs ∧ r.sourceTs < hi :=
    fun r hr => rowWhere_iff.mp (KeyedTable.mem_select.mp hr).2
  have hnodup : (((c.events key.kind).select (rowWhere key lo hi)).map
      fun r => r.sourceTs.toInt).Nodup := by
    refine List.Nodup.map_on (fun r hr s hs heq => ?_) ((List.Nodup.of_map _
      (c.events key.kind).unique).filter _)
    refine (c.events key.kind).eq_of_pk_eq (KeyedTable.mem_select.mp hr).1
      (KeyedTable.mem_select.mp hs).1 ?_
    rw [(hmem r hr).1, (hmem s hs).1, Timestamp.toInt_injective heq]
  have hsub : (((c.events key.kind).select (rowWhere key lo hi)).map
      fun r => r.sourceTs.toInt).toFinset ⊆ Finset.Ico lo.toInt hi.toInt := by
    intro x hx
    obtain ⟨r, hr, rfl⟩ := List.mem_map.mp (List.mem_toFinset.mp hx)
    exact Finset.mem_Ico.mpr ⟨Timestamp.le_def.mp (hmem r hr).2.1,
      Timestamp.lt_def.mp (hmem r hr).2.2⟩
  have hcard := Finset.card_le_card hsub
  rw [List.toFinset_card_of_nodup hnodup, List.length_map, Int.card_Ico] at hcard
  have hle : lo.toInt ≤ hi.toInt := Timestamp.le_def.mp h
  rw [KeyedTable.count]
  omega

/-- What pieces in normal form hold, each no more than its instants, is no more than the
instants of the span they lie in. -/
theorem sum_le_of_separated {segs : List (Timestamp × Timestamp)} (h : Separated segs)
    {n : Timestamp × Timestamp → Nat} (hn : ∀ s ∈ segs, (n s : ℤ) ≤ s.2.toInt - s.1.toInt)
    {lo hi : ℤ} (hspan : ∀ s ∈ segs, lo ≤ s.1.toInt ∧ s.2.toInt ≤ hi) (hle : lo ≤ hi) :
    ((segs.map n).sum : ℤ) ≤ hi - lo := by
  induction segs generalizing lo with
  | nil => simpa using hle
  | cons s segs ih =>
      obtain ⟨⟨hlo, hhi⟩, hrest⟩ := List.forall_mem_cons.mp hspan
      obtain ⟨hs, hn⟩ := List.forall_mem_cons.mp hn
      have hpast : ∀ u ∈ segs, s.2.toInt ≤ u.1.toInt ∧ u.2.toInt ≤ hi := fun u hu =>
        ⟨(Timestamp.lt_def.mp (h.head_lt u hu)).le, (hrest u hu).2⟩
      have hsum := ih h.tail hn hpast hhi
      rw [List.map_cons, List.sum_cons]
      omega

/-- A saturating total that fits is the total. -/
theorem toNat_foldl_saturatingAdd {α : Type} {f : α → UInt64} {l : List α} {a : UInt64}
    (h : a.toNat + (l.map fun x => (f x).toNat).sum < 2 ^ 64) :
    (l.foldl (fun total x => saturatingAdd total (f x)) a).toNat
      = a.toNat + (l.map fun x => (f x).toNat).sum := by
  induction l generalizing a with
  | nil => simp
  | cons x l ih =>
      rw [List.map_cons, List.sum_cons] at h ⊢
      have hx : (saturatingAdd a (f x)).toNat = a.toNat + (f x).toNat :=
        UInt64.toNat_ofNatClamp_of_lt (by rw [UInt64.size]; omega)
      rw [List.foldl_cons, ih (by rw [hx]; omega), hx]
      omega

/-- The recount of a store: what its segments hold, without overflow. -/
theorem toNat_recount (c : TursoCache) (key : CacheKey) {segs : List (Timestamp × Timestamp)}
    (h : Separated segs) :
    (segs.foldl (fun total s => saturatingAdd total (c.countEventsIn key s.1 s.2)) 0).toNat
      = (segs.map fun s => (c.events key.kind).count (rowWhere key s.1 s.2)).sum := by
  have hcount : ∀ s ∈ segs, ((c.events key.kind).count (rowWhere key s.1 s.2) : ℤ)
      ≤ s.2.toInt - s.1.toInt := fun s hs => c.count_le key (h.nonempty s hs).le
  have hfit : segs.map (fun s => (c.countEventsIn key s.1 s.2).toNat)
      = segs.map fun s => (c.events key.kind).count (rowWhere key s.1 s.2) := by
    refine List.map_congr_left fun s hs => ?_
    have hlo := s.1.le_toInt
    have hhi := s.2.toInt_lt
    have hs := hcount s hs
    rw [countEventsIn, UInt64.toNat_ofNat', Nat.mod_eq_of_lt (by omega)]
  have hspan : ∀ s ∈ segs, -2 ^ 63 ≤ s.1.toInt ∧ s.2.toInt ≤ 2 ^ 63 - 1 := fun s _ =>
    ⟨s.1.le_toInt, Int.le_sub_one_of_lt s.2.toInt_lt⟩
  have htotal := sum_le_of_separated h hcount hspan (by omega)
  rw [toNat_foldl_saturatingAdd (by rw [hfit, UInt64.toNat_zero]; omega), hfit, UInt64.toNat_zero,
    Nat.zero_add]

/-! ### The counts of the table -/

/-- The count of a key's document is what its segments hold. -/
def Counted (c : TursoCache) : Prop :=
  ∀ key doc, c.loadCoverage key = some doc → doc.eventCount.toNat
    = (doc.segments.map fun s => (c.events key.kind).count (rowWhere key s.1 s.2)).sum

theorem counted_empty : Counted empty := by
  intro key doc h
  cases h

/-- Two keys of one row count the same rows. -/
theorem count_congr (c : TursoCache) {key key' : CacheKey} (h : storedKey key = storedKey key')
    (lo hi : Timestamp) :
    (c.events key.kind).count (rowWhere key lo hi)
      = (c.events key'.kind).count (rowWhere key' lo hi) := by
  obtain ⟨instrument, kind, f, t, adjustment⟩ := key
  obtain ⟨instrument', kind', f', t', adjustment'⟩ := key'
  simp only [storedKey, StoredKey.mk.injEq] at h
  obtain ⟨hprovider, hsymbol, rfl, hadjustment⟩ := h
  refine congrArg (c.events kind).count (funext fun r => ?_)
  simp only [rowWhere, hprovider, hsymbol, hadjustment]

/-- A store of its key's own stream recounts its row and no other row needs it. -/
theorem Counted.store {c c' : TursoCache} (h : Counted c) (hsep : Normal c) {key : CacheKey}
    {evs : List MarketEvent} (hrouted : ∀ ev ∈ evs, ev.routeKey = some key.route)
    (hstore : c.store key evs = (.ok (), c')) : Counted c' := by
  intro key' doc hdoc
  by_cases hsame : storedKey key' = storedKey key
  · have hnormal : Normal c' := by
      have := hsep.store key evs
      rwa [hstore] at this
    -- the row of the key is the one this store has counted
    obtain ⟨rows, -, hcommit⟩ := store_of_routed hrouted c
    obtain rfl := (Prod.mk.inj (hstore.symm.trans hcommit)).2
    have hsegs := hnormal key'
    rw [coverageOf, hdoc, Option.getD_some] at hsegs
    simp only [loadCoverage, claimRange, KeyedTable.lookup_insertOrReplace,
      coverageKey_eq_iff.mpr hsame] at hdoc
    simp only [CoverageRow.pk, coverageKey, ↓reduceIte, Option.map_some, Option.some.injEq] at hdoc
    subst hdoc
    simp only [UInt64.toUInt64_toInt64, count_congr _ hsame]
    exact toNat_recount _ key hsegs
  · have hagree : Agree c c' key' := by
      have hcol : ColumnsDiffer key key' ∨ key.kind ≠ key'.kind := by
        by_contra hno
        simp only [ColumnsDiffer, not_or, not_not] at hno
        obtain ⟨⟨hp, hs, ha⟩, hk⟩ := hno
        exact hsame (by simp [storedKey, hp, hs, ha, hk])
      have hmiss : ∀ ev ∈ evs, Misses key key' ev := by
        intro ev hev r henc hr x heq
        obtain ⟨hpk, -, hkind⟩ := of_encodeRow henc
        rcases hcol with hcol | hcol
        · exact hcol.rowKey_ne _ _ (hpk.symm.trans heq.symm)
        · exact hcol ((hkind (hrouted ev hev)).symm.trans hr)
      have := agree_store hcol hmiss c
      rwa [hstore] at this
    rw [hagree.coverage] at hdoc
    rw [h key' doc hdoc]
    refine congrArg List.sum (List.map_congr_left fun s _ => ?_)
    rw [KeyedTable.count, KeyedTable.count, hagree.rows]

theorem normal_runStores (calls : List (CacheKey × List MarketEvent)) :
    Normal (runStores calls).1 := by
  induction calls using List.reverseRecOn with
  | nil => exact normal_empty
  | append_singleton calls call ih =>
      have hstep := ih.store call.1 call.2
      rw [runStores_append]
      cases hstore : (runStores calls).1.store call.1 call.2 with
      | mk r c => cases r <;> simpa [hstore] using hstep

theorem counted_runStores {calls : List (CacheKey × List MarketEvent)}
    (h : ∀ call ∈ calls, ∀ ev ∈ call.2, ev.routeKey = some call.1.route) :
    Counted (runStores calls).1 := by
  induction calls using List.reverseRecOn with
  | nil => exact counted_empty
  | append_singleton calls call ih =>
      have hold := ih fun call' hcall => h call' (List.mem_append_left _ hcall)
      rw [runStores_append]
      cases hstore : (runStores calls).1.store call.1 call.2 with
      | mk r c =>
          cases r with
          | ok u => exact hold.store (normal_runStores calls) (h call (by simp)) hstore
          | error e =>
              rw [store_error hstore]
              exact hold

/-! ### The catalog -/

theorem length_replay (c : TursoCache) (key : CacheKey) {s : Timestamp × Timestamp}
    (h : s.1 < s.2) : (c.replay (key.over s) (key.over s).request).length
      = (c.events key.kind).count (rowWhere key s.1 s.2) := by
  have hrange : ¬ (key.over s).toTs ≤ (key.over s).fromTs := not_le.mpr h
  rw [replay_request, if_neg hrange, List.length_map,
    ((c.events (key.over s).kind).selectOrdered_perm _ _).length_eq]
  rfl

/-- An entry carries what its row does. -/
theorem catalogEntry_eq_some {row : CoverageRow} {e : CacheCatalogEntry}
    (h : catalogEntry row = some e) :
    row.pk = (e.provider, e.symbol, tableFor e.kind, e.adjustment.asStr) ∧
      e.pieces = row.segments ∧ e.eventCount = row.eventCount.toUInt64 ∧
      e.assetClass = row.assetClass.bind TapLog.assetClassFromTag := by
  obtain ⟨provider, symbol, table, token, segments, count, assetClass⟩ := row
  simp only [catalogEntry, Option.bind_eq_bind, Option.bind_eq_some_iff, Option.some.injEq] at h
  obtain ⟨kind, hkind, adjustment, hadjustment, rfl⟩ := h
  refine ⟨?_, ?_, rfl, rfl⟩
  · simp [CoverageRow.pk, tableFor_of_kindFor hkind, Adjustment.asStr_of_fromToken hadjustment]
  · rw [CacheCatalogEntry.pieces, List.map_map]
    exact List.map_id segments

/-- The row of an entry is found under every key of the entry. -/
theorem row_of_mem_catalog {c : TursoCache} {e : CacheCatalogEntry} (he : e ∈ c.catalog)
    {key : CacheKey} (hkey : storedKey key = e.storedKey) :
    ∃ row, c.coverage.lookup (coverageKey key) = some row ∧ e.pieces = row.segments ∧
      e.eventCount = row.eventCount.toUInt64 ∧
      e.assetClass = row.assetClass.bind TapLog.assetClassFromTag := by
  obtain ⟨row, hrow, hentry⟩ := List.mem_filterMap.mp he
  obtain ⟨hpk, hrest⟩ := catalogEntry_eq_some hentry
  refine ⟨row, KeyedTable.lookup_eq_some.mpr ⟨hrow, hpk.trans ?_⟩, hrest⟩
  simp only [storedKey, CacheCatalogEntry.storedKey, StoredKey.mk.injEq] at hkey
  obtain ⟨hprovider, hsymbol, hkind, hadjustment⟩ := hkey
  rw [coverageKey, hprovider, hsymbol, hkind, hadjustment]

/-- The row of a key has an entry. -/
theorem exists_mem_catalog {c : TursoCache} {key : CacheKey} {row : CoverageRow}
    (hrow : c.coverage.lookup (coverageKey key) = some row) :
    ∃ e ∈ c.catalog, e.storedKey = storedKey key := by
  obtain ⟨hmem, hpk⟩ := KeyedTable.lookup_eq_some.mp hrow
  exact ⟨_, List.mem_filterMap.mpr ⟨row, hmem, catalogEntry_of_pk hpk⟩, rfl⟩

/-- The catalog lists no key twice. -/
theorem nodup_catalog (c : TursoCache) : (c.catalog.map CacheCatalogEntry.storedKey).Nodup := by
  have hrows : c.coverage.rows.Pairwise fun r s => r.pk ≠ s.pk :=
    List.pairwise_map.mp c.coverage.unique
  refine List.pairwise_map.mpr (hrows.filterMap _ fun r s hrs e he e' he' heq => hrs ?_)
  simp only [CacheCatalogEntry.storedKey, StoredKey.mk.injEq] at heq
  obtain ⟨hprovider, hsymbol, hkind, hadjustment⟩ := heq
  rw [(catalogEntry_eq_some he).1, (catalogEntry_eq_some he').1, hprovider, hsymbol, hkind,
    hadjustment]

/-- The instants a key's document claims are those of the key's entries. -/
theorem covered_eq_catalog (c : TursoCache) (key : CacheKey) : (c.coverageOf key).covered
    = {x | ∃ e ∈ c.catalog, e.storedKey = storedKey key ∧ x ∈ cover e.pieces} := by
  ext x
  rw [coverageOf, loadCoverage]
  constructor
  · intro hx
    cases hrow : c.coverage.lookup (coverageKey key) with
    | none => simp [hrow] at hx
    | some row =>
        obtain ⟨e, he, hkey⟩ := exists_mem_catalog hrow
        obtain ⟨row', hrow', hpieces, -⟩ := row_of_mem_catalog he hkey.symm
        obtain rfl : row = row' := Option.some.inj (hrow.symm.trans hrow')
        rw [hrow] at hx
        exact ⟨e, he, hkey, hpieces ▸ hx⟩
  · rintro ⟨e, he, hkey, hx⟩
    obtain ⟨row, hrow, hpieces, -⟩ := row_of_mem_catalog he hkey.symm
    rw [hpieces] at hx
    rw [hrow]
    exact hx

/-- What an entry of the catalog is worth, given the keys claimed under its key. -/
structure EntryLaw (keys : List CacheKey) (e : CacheCatalogEntry) : Prop where
  separated : Separated e.pieces
  covers : cover e.pieces = cover (keys.map CacheKey.range)
  assetClass : e.assetClass = keys.getLast?.map fun key => key.instrument.assetClass

/-- After any calls of `store`: the catalog lists the keys of the calls that succeeded, each
once; an entry has the ranges claimed under its key, joined where they touch, and the asset
class of the last claim; and the gaps of a key are what its entry leaves of the request. If every
batch was of its key's stream, an entry's count is what the replays of its segments yield. -/
theorem catalog_law (calls : List (CacheKey × List MarketEvent)) :
    (∀ k, k ∈ (runStores calls).1.catalog.map CacheCatalogEntry.storedKey
      ↔ k ∈ (runStores calls).2.map storedKey)
    ∧ ((runStores calls).1.catalog.map CacheCatalogEntry.storedKey).Nodup
    ∧ (∀ e ∈ (runStores calls).1.catalog,
        EntryLaw ((runStores calls).2.filter fun k => storedKey k = e.storedKey) e)
    ∧ (∀ key, cover (((runStores calls).1.gaps key).map fun g => (g.fromSourceTs, g.toSourceTs))
        = Set.Ico key.fromTs key.toTs \
          {x | ∃ e ∈ (runStores calls).1.catalog, e.storedKey = storedKey key ∧ x ∈ cover e.pieces})
    ∧ ((∀ call ∈ calls, ∀ ev ∈ call.2, ev.routeKey = some call.1.route) →
        ∀ e ∈ (runStores calls).1.catalog, ∀ key, storedKey key = e.storedKey →
          e.eventCount.toNat = (e.pieces.map fun s => ((runStores calls).1.replay (key.over s)
            (key.over s).request).length).sum) := by
  have hbooks := books_runStores calls
  have hnormal := normal_runStores calls
  have hcounted : (∀ call ∈ calls, ∀ ev ∈ call.2, ev.routeKey = some call.1.route) →
      Counted (runStores calls).1 := counted_runStores
  generalize (runStores calls).1 = c at hbooks hnormal hcounted ⊢
  generalize (runStores calls).2 = keys at hbooks ⊢
  -- an entry is of a claimed key, whose row describes the claims
  have hclaimed : ∀ e ∈ c.catalog, ∃ key ∈ keys, storedKey key = e.storedKey := by
    intro e he
    obtain ⟨row, hrow, hentry⟩ := List.mem_filterMap.mp he
    obtain ⟨key, hkey, hpk⟩ := hbooks.listed row hrow
    rw [catalogEntry_of_pk hpk] at hentry
    obtain rfl := Option.some.inj hentry
    exact ⟨key, hkey, rfl⟩
  refine ⟨fun k => ?_, nodup_catalog c, fun e he => ?_, fun key => ?_,
    fun hrouted e he key hkey => ?_⟩
  · simp only [List.mem_map]
    constructor
    · rintro ⟨e, he, rfl⟩
      exact hclaimed e he
    · rintro ⟨key, hkey, rfl⟩
      obtain ⟨row, hrow, -⟩ := hbooks.row key hkey
      exact exists_mem_catalog hrow
  · obtain ⟨key, hkey, hsame⟩ := hclaimed e he
    obtain ⟨row, hrow, hpieces, -, hclass⟩ := row_of_mem_catalog he hsame
    obtain ⟨row', hrow', hdesc⟩ := hbooks.row key hkey
    obtain rfl : row = row' := Option.some.inj (hrow.symm.trans hrow')
    rw [← hsame]
    refine ⟨hpieces ▸ hdesc.separated, hpieces ▸ hdesc.covers, ?_⟩
    rw [hclass, hdesc.assetClass]
    cases (keys.filter fun k => storedKey k = storedKey key).getLast? with
    | none => rfl
    | some latest => exact TapLog.assetClassFromTag_tag latest.instrument.assetClass
  · have hgaps := (CoverageDoc.gapsOf_gapsWithin (hnormal key) key.fromTs key.toTs).cover_eq
    rw [← covered_eq_catalog, gaps, List.map_map]
    exact (congrArg cover (List.map_id _)).trans hgaps
  · obtain ⟨row, hrow, hpieces, hcount, -⟩ := row_of_mem_catalog he hkey
    have hdoc : c.loadCoverage key
        = some ⟨row.segments, row.eventCount.toUInt64, row.assetClass⟩ := by
      rw [loadCoverage, hrow]
      rfl
    have hsep := hnormal key
    rw [coverageOf, hdoc] at hsep
    rw [hcount, hpieces, hcounted hrouted key _ hdoc]
    refine congrArg List.sum (List.map_congr_left fun s hs => ?_)
    exact (length_replay c key (hsep.nonempty s hs)).symm

/-- Two ranges of one ticker that touch, the second of them claimed as an ETF's. -/
def twoClaims : List (CacheKey × List MarketEvent) :=
  [(⟨⟨"alpaca", .equity, "SPY"⟩, .trade, 0, 10, .all⟩,
      [.trade ⟨⟨"alpaca", .equity, "SPY"⟩, 5, 6, ⟨0⟩, ⟨1⟩, ⟨100⟩⟩]),
    (⟨⟨"alpaca", .etf, "SPY"⟩, .trade, 10, 20, .raw⟩,
      [.trade ⟨⟨"alpaca", .etf, "SPY"⟩, 12, 13, ⟨0⟩, ⟨2⟩, ⟨100⟩⟩])]

/-- The key of the whole range `twoClaims` stores. -/
def spy : CacheKey := ⟨⟨"alpaca", .etf, "SPY"⟩, .trade, 0, 20, .raw⟩

/-- The one entry of `twoClaims` counts what a replay of its one segment yields. -/
theorem catalog_law_twoClaims : ∃ e, (runStores twoClaims).1.catalog = [e] ∧
    e.pieces = [(0, 20)] ∧ e.assetClass = some .etf ∧
    e.eventCount.toNat = ((runStores twoClaims).1.replay spy spy.request).length := by
  obtain ⟨e, hcatalog, hkey, hpieces, hclass⟩ : ∃ e, (runStores twoClaims).1.catalog = [e] ∧
      storedKey spy = e.storedKey ∧ e.pieces = [(0, 20)] ∧ e.assetClass = some .etf :=
    ⟨_, rfl, by decide, by decide, by decide⟩
  have hrouted : ∀ call ∈ twoClaims, ∀ ev ∈ call.2, ev.routeKey = some call.1.route := by decide
  have hcount := (catalog_law twoClaims).2.2.2.2 hrouted e (by simp [hcatalog]) _ hkey
  refine ⟨e, hcatalog, hpieces, hclass, ?_⟩
  rw [hpieces] at hcount
  simpa [CacheKey.over, spy] using hcount

end TursoCache

end Datamancer
