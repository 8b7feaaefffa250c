import Datamancer.Core.Event
import Datamancer.Lib.HalfOpen

/-!
# Datamancer.Storage.Coverage

Coverage-segment bookkeeping (`storage/coverage.rs`): the document of sorted,
non-overlapping half-open segments a cache keeps for one stream, with its merge,
intersect and gap queries.

The loops of the source are kept as loops over the remaining segments; they only
compare endpoints, so they are stated over any linear order. Each is then read
off the general pieces of `Lib.HalfOpen`: on a document in normal form `merge_in`
is an insertion, and `gaps_within` lists in normal form the part of the request
the document leaves uncovered.
-/

namespace Datamancer

open HalfOpen

/-- `u64::saturating_add`. -/
def saturatingAdd (a b : UInt64) : UInt64 := UInt64.ofNatClamp (a.toNat + b.toNat)

namespace CoverageDoc

/-! ### The loops -/

section Loops

variable {α : Type*} [LinearOrder α]

/-- The loop of `merge_in` over the segments still to visit. -/
def mergeLoop (newSeg : α × α) (merged : List (α × α)) (consumed : Bool) :
    List (α × α) → List (α × α)
  | [] => if consumed then merged else merged ++ [newSeg]
  | s :: rest =>
      if s.2 < newSeg.1 then mergeLoop newSeg (merged ++ [s]) consumed rest
      else if newSeg.2 < s.1 then
        mergeLoop newSeg ((if consumed then merged else merged ++ [newSeg]) ++ [s]) true rest
      else mergeLoop (min newSeg.1 s.1, max newSeg.2 s.2) merged consumed rest

/-- The gap between `cursor` and `t` that `gaps_within` pushes after its loop. -/
def tailGap (t cursor : α) (gaps : List (α × α)) : List (α × α) :=
  if cursor < t then gaps ++ [(cursor, t)] else gaps

/-- The loop of `gaps_within` over the segments still to visit; both `break`s of
the source lead to the tail gap. -/
def gapsLoop (t cursor : α) (gaps : List (α × α)) : List (α × α) → List (α × α)
  | [] => tailGap t cursor gaps
  | s :: rest =>
      if s.2 ≤ cursor then gapsLoop t cursor gaps rest
      else if t ≤ s.1 then tailGap t cursor gaps
      else
        let gaps := if cursor < s.1 then gaps ++ [(cursor, min s.1 t)] else gaps
        let cursor := max cursor s.2
        if t ≤ cursor then tailGap t cursor gaps else gapsLoop t cursor gaps rest

/-- Once the new segment is placed the rest of a separated list follows as it is. -/
theorem mergeLoop_consumed {p : α × α} {merged segs : List (α × α)}
    (h : ∀ s ∈ segs, p.2 < s.1) (hp : p.1 < p.2) (hs : ∀ s ∈ segs, s.1 < s.2) :
    mergeLoop p merged true segs = merged ++ segs := by
  induction segs generalizing merged with
  | nil => simp [mergeLoop]
  | cons s segs ih =>
      obtain ⟨hlt, hrest⟩ := List.forall_mem_cons.mp h
      obtain ⟨hne, hs⟩ := List.forall_mem_cons.mp hs
      have hb : ¬ s.2 < p.1 := not_lt.mpr ((hp.trans hlt).trans hne).le
      rw [mergeLoop, if_neg hb, if_pos hlt, ih hrest hs]
      simp

/-- On a list in normal form the merge loop is an insertion. -/
theorem mergeLoop_eq_insert {p : α × α} {merged segs : List (α × α)} (h : Separated segs)
    (hp : p.1 < p.2) : mergeLoop p merged false segs = merged ++ HalfOpen.insert p segs := by
  induction segs generalizing p merged with
  | nil => simp [mergeLoop, HalfOpen.insert]
  | cons s segs ih =>
      rw [mergeLoop, HalfOpen.insert]
      by_cases h1 : s.2 < p.1
      · rw [if_pos h1, if_pos h1, ih h.tail hp]
        simp
      · rw [if_neg h1, if_neg h1]
        by_cases h2 : p.2 < s.1
        · have hlt : ∀ u ∈ segs, p.2 < u.1 := fun u hu =>
            (h2.trans (h.nonempty s List.mem_cons_self)).trans (h.head_lt u hu)
          rw [if_pos h2, if_pos h2, mergeLoop_consumed hlt hp h.tail.nonempty]
          simp
        · rw [if_neg h2, if_neg h2]
          exact ih h.tail ((min_le_left _ _).trans_lt (hp.trans_le (le_max_left _ _)))

theorem tailGap_append (t cursor : α) (gaps : List (α × α)) :
    tailGap t cursor gaps = gaps ++ tailGap t cursor [] := by
  simp only [tailGap]
  split_ifs <;> simp

/-- The accumulator of the gap loop only grows. -/
theorem gapsLoop_append (t cursor : α) (gaps segs : List (α × α)) :
    gapsLoop t cursor gaps segs = gaps ++ gapsLoop t cursor [] segs := by
  induction segs generalizing cursor gaps with
  | nil => exact tailGap_append t cursor gaps
  | cons s segs ih =>
      simp only [gapsLoop]
      split_ifs with h1 h2 h3 h4 h5
      · exact ih cursor gaps
      · exact tailGap_append t cursor gaps
      · rw [tailGap_append, tailGap_append t _ ([] ++ _), List.nil_append, List.append_assoc]
      · exact tailGap_append t _ gaps
      · rw [ih, ih _ ([] ++ _), List.nil_append, List.append_assoc]
      · exact ih _ gaps

/-- The gaps listed for `[cursor, t)`: in normal form, inside the range, and exactly
the part of it that `segs` leaves uncovered. -/
structure GapsOf (cursor t : α) (segs gaps : List (α × α)) : Prop where
  separated : Separated gaps
  inside : ∀ g ∈ gaps, cursor ≤ g.1 ∧ g.2 ≤ t
  cover_eq : cover gaps = Set.Ico cursor t \ cover segs

/-- Nothing of the range is covered: the tail gap is all of it. -/
theorem gapsOf_tailGap {cursor t : α} {segs : List (α × α)}
    (h : ∀ x, cursor ≤ x → x < t → x ∉ cover segs) :
    GapsOf cursor t segs (tailGap t cursor []) := by
  rw [tailGap]
  split_ifs with hct
  · refine ⟨.cons hct (fun u hu => absurd hu List.not_mem_nil) .nil, ?_, ?_⟩
    · intro g hg
      obtain rfl := List.mem_singleton.mp hg
      exact ⟨le_rfl, le_rfl⟩
    · rw [List.nil_append, cover_cons, cover_nil, Set.union_empty]
      ext x
      constructor
      · intro hx
        exact ⟨hx, h x hx.1 hx.2⟩
      · exact And.left
  · refine ⟨.nil, fun g hg => absurd hg List.not_mem_nil, ?_⟩
    rw [Set.Ico_eq_empty hct, cover_nil, Set.empty_sdiff]

/-- A segment that ends at or before the cursor covers nothing of the range. -/
theorem GapsOf.skip {cursor t : α} {s : α × α} {segs gaps : List (α × α)} (hs : s.2 ≤ cursor)
    (h : GapsOf cursor t segs gaps) : GapsOf cursor t (s :: segs) gaps := by
  refine ⟨h.separated, h.inside, ?_⟩
  rw [h.cover_eq, cover_cons]
  ext x
  constructor
  · intro hx
    refine ⟨hx.1, fun hmem => hmem.elim (fun hxs => ?_) hx.2⟩
    exact absurd (hs.trans hx.1.1) (not_le.mpr hxs.2)
  · intro hx
    exact ⟨hx.1, fun hmem => hx.2 (.inr hmem)⟩

/-- One segment reaching into the range: the gap up to its start, if any, and the
gaps past its end. -/
theorem GapsOf.step {cursor t : α} {s : α × α} {segs gaps : List (α × α)}
    (hsep : Separated (s :: segs)) (hcs : cursor < s.2) (hst : s.1 < t)
    (h : GapsOf (max cursor s.2) t segs gaps) :
    GapsOf cursor t (s :: segs) ((if cursor < s.1 then [(cursor, s.1)] else []) ++ gaps) := by
  have hs : s.1 < s.2 := hsep.nonempty s List.mem_cons_self
  rw [max_eq_right hcs.le] at h
  -- what is not covered lies before the segment, or past its end and not under the others
  have hpoint : ∀ x, x ∈ Set.Ico cursor t \ cover (s :: segs)
      ↔ (cursor ≤ x ∧ x < s.1) ∨ x ∈ cover gaps := by
    intro x
    rw [h.cover_eq, cover_cons, Set.mem_sdiff, Set.mem_union, not_or, Set.mem_Ico, Set.mem_sdiff,
      Set.mem_Ico, Set.mem_Ico]
    constructor
    · rintro ⟨⟨hcx, hxt⟩, hxs, hrest⟩
      by_cases hx : x < s.1
      · exact .inl ⟨hcx, hx⟩
      · exact .inr ⟨⟨not_lt.mp fun hlt => hxs ⟨not_lt.mp hx, hlt⟩, hxt⟩, hrest⟩
    · rintro (⟨hcx, hx⟩ | ⟨⟨hsx, hxt⟩, hrest⟩)
      · exact ⟨⟨hcx, hx.trans hst⟩, fun h => absurd hx (not_lt.mpr h.1),
          hsep.not_mem_cover_tail (hx.trans hs).le⟩
      · exact ⟨⟨hcs.le.trans hsx, hxt⟩, fun h => absurd h.2 (not_lt.mpr hsx), hrest⟩
  split_ifs with hc
  · refine ⟨.cons hc (fun u hu => hs.trans_le (h.inside u hu).1) h.separated, ?_, ?_⟩
    · intro g hg
      rcases List.mem_cons.mp hg with rfl | hg
      · exact ⟨le_rfl, hst.le⟩
      · exact ⟨hcs.le.trans (h.inside g hg).1, (h.inside g hg).2⟩
    · ext x
      rw [hpoint, List.singleton_append, cover_cons, Set.mem_union, Set.mem_Ico]
  · refine ⟨h.separated, fun g hg => ⟨hcs.le.trans (h.inside g hg).1, (h.inside g hg).2⟩, ?_⟩
    ext x
    rw [hpoint, List.nil_append, or_iff_right]
    exact fun hx => absurd (hx.1.trans_lt hx.2) hc

theorem gapsOf_gapsLoop {t cursor : α} {segs : List (α × α)} (h : Separated segs) :
    GapsOf cursor t segs (gapsLoop t cursor [] segs) := by
  induction segs generalizing cursor with
  | nil => exact gapsOf_tailGap fun x _ _ hx => absurd hx (by simp)
  | cons s segs ih =>
      rw [gapsLoop]
      by_cases h1 : s.2 ≤ cursor
      · rw [if_pos h1]
        exact (ih h.tail).skip h1
      rw [if_neg h1]
      by_cases h2 : t ≤ s.1
      · -- Every segment left starts past the range.
        rw [if_pos h2]
        refine gapsOf_tailGap fun x _ hxt hx => ?_
        rw [cover_cons] at hx
        rcases hx with ⟨hsx, -⟩ | hx
        · exact absurd (h2.trans hsx) (not_le.mpr hxt)
        · exact h.not_mem_cover_tail
            ((hxt.le.trans h2).trans (h.nonempty s List.mem_cons_self).le) hx
      rw [if_neg h2, min_eq_left (not_le.mp h2).le]
      have hrest : GapsOf (max cursor s.2) t segs
          (if t ≤ max cursor s.2 then tailGap t (max cursor s.2) []
            else gapsLoop t (max cursor s.2) [] segs) := by
        split_ifs with h3
        · exact gapsOf_tailGap fun x hx hxt _ => absurd (h3.trans hx) (not_le.mpr hxt)
        · exact ih h.tail
      have hpush : ∀ gaps : List (α × α),
          (if t ≤ max cursor s.2 then tailGap t (max cursor s.2) gaps
            else gapsLoop t (max cursor s.2) gaps segs)
          = gaps ++ if t ≤ max cursor s.2 then tailGap t (max cursor s.2) []
            else gapsLoop t (max cursor s.2) [] segs := by
        intro gaps
        split_ifs
        · exact tailGap_append t _ gaps
        · exact gapsLoop_append t _ gaps segs
      dsimp only
      rw [hpush, List.nil_append]
      exact hrest.step h (not_le.mp h1) (not_le.mp h2)

end Loops

end CoverageDoc

/-- Sorted, non-overlapping segments and event count. -/
structure CoverageDoc where
  segments : List (Timestamp × Timestamp)
  eventCount : UInt64
  /-- Asset class tag of the covered instrument, for the catalog. -/
  assetClass : Option String
  deriving DecidableEq, Repr

namespace CoverageDoc

/-- The derived `Default`. -/
def default : CoverageDoc := ⟨[], 0, none⟩

/-! ### The queries -/

def mergeIn (doc : CoverageDoc) (f t : Timestamp) (addedEvents : UInt64) : CoverageDoc :=
  if t ≤ f then doc
  else { doc with
    eventCount := saturatingAdd doc.eventCount addedEvents
    segments := mergeLoop (f, t) [] false doc.segments }

/-- The widest overlap of a segment with `[f, t)`, the first one on ties. The
width is taken in a wider type than the endpoints (`i128` in the source). -/
def intersect (doc : CoverageDoc) (f t : Timestamp) : Option (Timestamp × Timestamp) :=
  doc.segments.foldl (fun best s =>
    let lo := max s.1 f
    let hi := min s.2 t
    let width := hi.toInt - lo.toInt
    if lo < hi ∧ best.all (fun prev => prev.2.toInt - prev.1.toInt < width) then some (lo, hi)
    else best) none

def gapsWithin (doc : CoverageDoc) (f t : Timestamp) : List (Timestamp × Timestamp) :=
  if t ≤ f then [] else gapsLoop t f [] doc.segments

/-! ### What a document covers -/

/-- The instants a document claims. -/
def covered (doc : CoverageDoc) : Set Timestamp := cover doc.segments

@[simp] theorem covered_default : covered default = ∅ := cover_nil

theorem segments_mergeIn {doc : CoverageDoc} (h : Separated doc.segments) (f t : Timestamp)
    (n : UInt64) :
    (doc.mergeIn f t n).segments
      = if t ≤ f then doc.segments else HalfOpen.insert (f, t) doc.segments := by
  rw [mergeIn]
  split_ifs with hft
  · rfl
  · exact mergeLoop_eq_insert h (not_le.mp hft)

/-- Merging keeps a document in normal form. -/
theorem separated_mergeIn {doc : CoverageDoc} (h : Separated doc.segments) (f t : Timestamp)
    (n : UInt64) : Separated (doc.mergeIn f t n).segments := by
  rw [segments_mergeIn h]
  split_ifs with hft
  · exact h
  · exact h.insert (not_le.mp hft)

/-- Merging claims exactly the merged range on top of what was claimed. -/
theorem covered_mergeIn {doc : CoverageDoc} (h : Separated doc.segments) (f t : Timestamp)
    (n : UInt64) : (doc.mergeIn f t n).covered = Set.Ico f t ∪ doc.covered := by
  rw [covered, segments_mergeIn h]
  split_ifs with hft
  · rw [Set.Ico_eq_empty (not_lt.mpr hft), Set.empty_union, covered]
  · exact cover_insert h (not_le.mp hft)

/-- On a document in normal form the gaps of a request are exactly its uncovered
part. -/
theorem gapsOf_gapsWithin {doc : CoverageDoc} (h : Separated doc.segments) (f t : Timestamp) :
    GapsOf f t doc.segments (doc.gapsWithin f t) := by
  rw [gapsWithin]
  split_ifs with hft
  · have hempty : Set.Ico f t = ∅ := Set.Ico_eq_empty (not_lt.mpr hft)
    exact ⟨.nil, by simp, by rw [hempty, cover_nil, Set.empty_sdiff]⟩
  · exact gapsOf_gapsLoop h

/-! ### Any sequence of merges -/

/-- One `merge_in` after another, each with what it adds to the count. -/
def mergeAll (doc : CoverageDoc) (calls : List ((Timestamp × Timestamp) × UInt64)) :
    CoverageDoc :=
  calls.foldl (fun doc call => doc.mergeIn call.1.1 call.1.2 call.2) doc

theorem mergeAll_spec {doc : CoverageDoc} (h : Separated doc.segments)
    (calls : List ((Timestamp × Timestamp) × UInt64)) :
    Separated (doc.mergeAll calls).segments
      ∧ (doc.mergeAll calls).covered = doc.covered ∪ cover (calls.map Prod.fst) := by
  induction calls generalizing doc with
  | nil =>
      refine ⟨h, ?_⟩
      rw [List.map_nil, cover_nil, Set.union_empty]
      rfl
  | cons call calls ih =>
      obtain ⟨hsep, hcover⟩ := ih (separated_mergeIn h call.1.1 call.1.2 call.2)
      refine ⟨hsep, ?_⟩
      calc (doc.mergeAll (call :: calls)).covered
          = (doc.mergeIn call.1.1 call.1.2 call.2).covered ∪ cover (calls.map Prod.fst) := hcover
        _ = (Set.Ico call.1.1 call.1.2 ∪ doc.covered) ∪ cover (calls.map Prod.fst) := by
            rw [covered_mergeIn h]
        _ = doc.covered ∪ cover ((call :: calls).map Prod.fst) := by
            rw [List.map_cons, cover_cons, Set.union_comm (Set.Ico _ _), Set.union_assoc]

/-- From the empty document: what has been merged is what is covered, in normal form, and the
gaps of a request are the rest of it, in normal form as well. -/
theorem coverage_algebra (calls : List ((Timestamp × Timestamp) × UInt64)) :
    Separated (default.mergeAll calls).segments
      ∧ (default.mergeAll calls).covered = cover (calls.map Prod.fst)
      ∧ ∀ f t, Separated ((default.mergeAll calls).gapsWithin f t)
        ∧ cover ((default.mergeAll calls).gapsWithin f t)
          = Set.Ico f t \ cover (calls.map Prod.fst) := by
  have hempty : Separated default.segments := .nil
  obtain ⟨hsep, hcover⟩ := mergeAll_spec hempty calls
  rw [covered_default, Set.empty_union] at hcover
  refine ⟨hsep, hcover, fun f t => ?_⟩
  have hgaps := gapsOf_gapsWithin hsep f t
  exact ⟨hgaps.separated, hcover ▸ hgaps.cover_eq⟩

end CoverageDoc

end Datamancer
