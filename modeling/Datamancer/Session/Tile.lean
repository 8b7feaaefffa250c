import Datamancer.Core.Event
import Datamancer.Lib.HalfOpen

/-!
# Datamancer.Session.Tile

Planning a read-through request: `tile` cuts the requested range into segments
that are either already cached or have to be fetched, and `confirmed_prefix_end`
says how far a fetch that stopped early has confirmed its segment.

Of any list of gap spans the segments leave no hole up to where they reach
(`connected_tile`) and they reach the end of the request (`exists_reaching_end`).
Of gap spans that are ordered, disjoint and within the request they partition it,
the gap segments holding exactly the instants of the spans (`tile_partition`).
-/

namespace Datamancer

open HalfOpen

/-- The instants of a span, its end left out. -/
def GapSpan.instants (g : GapSpan) : Set Timestamp := Set.Ico g.fromSourceTs g.toSourceTs

/-- One slice of a requested historical range: in the cache, or not yet fetched. -/
inductive Segment
  | covered (fromTs toTs : Timestamp)
  | gap (fromTs toTs : Timestamp)
  deriving DecidableEq, Repr

namespace Segment

def fromTs : Segment → Timestamp
  | covered f _ => f
  | gap f _ => f

def toTs : Segment → Timestamp
  | covered _ t => t
  | gap _ t => t

/-- The endpoints of a segment, as a piece. -/
def pair (s : Segment) : Timestamp × Timestamp := (s.fromTs, s.toTs)

/-- The instants of a segment, its end left out. -/
def instants (s : Segment) : Set Timestamp := Set.Ico s.fromTs s.toTs

end Segment

/-! ### The plan -/

/-- The loop of `tile` over the gaps still to visit. -/
def tileLoop (t cursor : Timestamp) : List GapSpan → List Segment
  | [] => if cursor < t then [.covered cursor t] else []
  | g :: gaps =>
      (if cursor < g.fromSourceTs then [.covered cursor g.fromSourceTs] else [])
        ++ (if g.fromSourceTs < g.toSourceTs then [.gap g.fromSourceTs g.toSourceTs] else [])
        ++ tileLoop t (max cursor g.toSourceTs) gaps

/-- Partition `[f, t)` into ordered segments; everything between the gaps is
covered, and zero-width pieces are never emitted. -/
def tile (f t : Timestamp) (gaps : List GapSpan) : List Segment := tileLoop t f gaps

/-- `i64::clamp` on timestamps. -/
def Timestamp.clamp (x f t : Timestamp) : Timestamp := if x < f then f else if t < x then t else x

/-- Largest data `source_ts` of a fetch plus one, clamped to `[f, t)`; `f` when no
data arrived. -/
def confirmedPrefixEnd (maxDataTs : Option Timestamp) (f t : Timestamp) : Timestamp :=
  match maxDataTs with
  | none => f
  | some m => m.saturatingSucc.clamp f t

theorem clamp_mem {x f t : Timestamp} (h : f ≤ t) : f ≤ x.clamp f t ∧ x.clamp f t ≤ t := by
  rw [Timestamp.clamp]
  split_ifs with h1 h2
  · exact ⟨le_rfl, h⟩
  · exact ⟨h, le_rfl⟩
  · exact ⟨not_lt.mp h1, not_lt.mp h2⟩

theorem confirmedPrefixEnd_mem {f t : Timestamp} (h : f ≤ t) (m : Option Timestamp) :
    f ≤ confirmedPrefixEnd m f t ∧ confirmedPrefixEnd m f t ≤ t := by
  cases m with
  | none => exact ⟨le_rfl, h⟩
  | some m => exact clamp_mem h

/-- The instants a confirmed prefix claims: those of the segment up to the largest
data instant received. -/
theorem mem_confirmedPrefix {f t x : Timestamp} {m : Option Timestamp} :
    f ≤ x ∧ x < confirmedPrefixEnd m f t ↔ (f ≤ x ∧ x < t) ∧ ∃ y, m = some y ∧ x ≤ y := by
  cases m with
  | none =>
      simp only [confirmedPrefixEnd, reduceCtorEq, false_and, exists_const, and_false, iff_false]
      exact fun hx => absurd hx.2 (not_lt.mpr hx.1)
  | some m =>
      simp only [confirmedPrefixEnd, Timestamp.clamp, Option.some.injEq, exists_eq_left']
      split_ifs with h1 h2
      · constructor
        · exact fun hx => absurd hx.2 (not_lt.mpr hx.1)
        · rintro ⟨⟨hf, -⟩, hm⟩
          exact absurd (hf.trans (hm.trans m.le_saturatingSucc)) (not_le.mpr h1)
      · exact ⟨fun hx => ⟨hx, hx.2.le.trans (Timestamp.le_of_lt_saturatingSucc h2)⟩, And.left⟩
      · constructor
        · rintro ⟨hf, hx⟩
          exact ⟨⟨hf, hx.trans_le (not_lt.mp h2)⟩, Timestamp.le_of_lt_saturatingSucc hx⟩
        · rintro ⟨⟨hf, ht⟩, hm⟩
          refine ⟨hf, ?_⟩
          rcases hm.lt_or_eq with hlt | rfl
          · exact hlt.trans_le m.le_saturatingSucc
          · exact Timestamp.lt_saturatingSucc ht

/-! ### Of any list of gap spans -/

theorem connected_tileLoop (t cursor : Timestamp) (gaps : List GapSpan) :
    Connected cursor ((tileLoop t cursor gaps).map Segment.pair) := by
  induction gaps generalizing cursor with
  | nil =>
      rw [tileLoop]
      split_ifs
      · exact ⟨le_rfl, trivial⟩
      · trivial
  | cons g gaps ih =>
      have hmax : ∀ d, max cursor g.toSourceTs ≤ d →
          Connected d ((tileLoop t (max cursor g.toSourceTs) gaps).map Segment.pair) :=
        fun d hd => (ih _).mono hd
      rw [tileLoop]
      split_ifs with h1 h2 h2
      · refine ⟨le_rfl, le_max_right _ _, hmax _ ?_⟩
        exact max_le ((le_max_left _ _).trans (le_max_left _ _)) (le_max_right _ _)
      · refine ⟨le_rfl, hmax _ ?_⟩
        exact max_le (le_max_left _ _) ((not_lt.mp h2).trans (le_max_right _ _))
      · exact ⟨not_lt.mp h1, hmax _ le_rfl⟩
      · exact hmax _ (max_le le_rfl ((not_lt.mp h2).trans (not_lt.mp h1)))

/-- Whatever the gap spans, the segments leave no hole up to where they reach. -/
theorem connected_tile (f t : Timestamp) (gaps : List GapSpan) :
    Connected f ((tile f t gaps).map Segment.pair) := connected_tileLoop t f gaps

/-- Whatever the gap spans, some segment reaches the end of a nonempty request. -/
theorem exists_reaching_end {cursor t : Timestamp} (h : cursor < t) (gaps : List GapSpan) :
    ∃ s ∈ tileLoop t cursor gaps, t ≤ s.toTs := by
  induction gaps generalizing cursor with
  | nil => exact ⟨.covered cursor t, by simp [tileLoop, h], le_rfl⟩
  | cons g gaps ih =>
      rw [tileLoop]
      by_cases hg : g.toSourceTs < t
      · obtain ⟨s, hs, hst⟩ := ih (max_lt h hg)
        exact ⟨s, List.mem_append_right _ hs, hst⟩
      · have hgt : t ≤ g.toSourceTs := not_lt.mp hg
        by_cases hne : g.fromSourceTs < g.toSourceTs
        · exact ⟨.gap g.fromSourceTs g.toSourceTs, by simp [hne], hgt⟩
        · -- The span is empty, so the covered piece before it reaches past `t`.
          have hreach : t ≤ g.fromSourceTs := hgt.trans (not_lt.mp hne)
          exact ⟨.covered cursor g.fromSourceTs, by simp [h.trans_le hreach], hreach⟩

/-- Zero-width pieces are never emitted. -/
theorem lt_of_mem_tileLoop {t cursor : Timestamp} {gaps : List GapSpan} {s : Segment}
    (h : s ∈ tileLoop t cursor gaps) : s.fromTs < s.toTs := by
  induction gaps generalizing cursor with
  | nil =>
      rw [tileLoop] at h
      split_ifs at h with hlt
      · obtain rfl := List.mem_singleton.mp h
        exact hlt
      · exact absurd h List.not_mem_nil
  | cons g gaps ih =>
      rw [tileLoop, List.mem_append, List.mem_append] at h
      rcases h with (h | h) | h
      · split_ifs at h with hlt
        · obtain rfl := List.mem_singleton.mp h
          exact hlt
        · exact absurd h List.not_mem_nil
      · split_ifs at h with hlt
        · obtain rfl := List.mem_singleton.mp h
          exact hlt
        · exact absurd h List.not_mem_nil
      · exact ih h

/-- An instant of the request before the end of some segment of an initial run of the
plan lies in a segment of that run. -/
theorem mem_prefix_iff {f t x : Timestamp} {gaps : List GapSpan} {pre : List Segment}
    (hpre : pre <+: tile f t gaps) (hf : f ≤ x) :
    (∃ s ∈ pre, s.fromTs ≤ x ∧ x < s.toTs) ↔ ∃ s ∈ pre, x < s.toTs := by
  constructor
  · intro ⟨s, hs, hx⟩
    exact ⟨s, hs, hx.2⟩
  · intro ⟨s, hs, hx⟩
    obtain ⟨post, hpost⟩ := hpre
    have hconn := connected_tile f t gaps
    rw [← hpost, List.map_append] at hconn
    obtain ⟨p, hp, hpx⟩ := hconn.mem_cover hf ⟨s.pair, List.mem_map_of_mem hs, hx⟩
    obtain ⟨u, hu, rfl⟩ := List.mem_map.mp hp
    exact ⟨u, hu, hpx⟩

/-! ### Of gap spans in order -/

/-- What `tile` asks of its gap spans: in order, disjoint and within `[f, t)`. A
zero-width span holds no instant, so it may also stand inside another. -/
structure OrderedGaps (f t : Timestamp) (gaps : List GapSpan) : Prop where
  ordered : gaps.Pairwise fun g h => g.fromSourceTs ≤ h.fromSourceTs
  disjoint : gaps.Pairwise fun g h => ∀ x ∈ g.instants, x ∉ h.instants
  within : ∀ g ∈ gaps, f ≤ g.fromSourceTs ∧ g.fromSourceTs ≤ g.toSourceTs ∧ g.toSourceTs ≤ t

/-- The gap spans still to visit from `cursor` on: what starts behind the cursor has
zero width. -/
structure GapsAhead (t cursor : Timestamp) (gaps : List GapSpan) : Prop where
  ordered : gaps.Pairwise fun g h => g.fromSourceTs ≤ h.fromSourceTs
  disjoint : gaps.Pairwise fun g h => ∀ x ∈ g.instants, x ∉ h.instants
  forward : ∀ g ∈ gaps, g.fromSourceTs ≤ g.toSourceTs ∧ g.toSourceTs ≤ t
  ahead : ∀ g ∈ gaps, cursor ≤ g.fromSourceTs ∨ g.fromSourceTs = g.toSourceTs

theorem OrderedGaps.gapsAhead {f t : Timestamp} {gaps : List GapSpan} (h : OrderedGaps f t gaps) :
    GapsAhead t f gaps :=
  ⟨h.ordered, h.disjoint, fun g hg => (h.within g hg).2, fun g hg => .inl (h.within g hg).1⟩

/-- A span disjoint from an earlier one starts at or after its end, unless it has zero
width. -/
theorem GapSpan.toSourceTs_le {g h : GapSpan} (hle : g.fromSourceTs ≤ h.fromSourceTs)
    (hgh : ∀ x ∈ g.instants, x ∉ h.instants) (hne : h.fromSourceTs < h.toSourceTs) :
    g.toSourceTs ≤ h.fromSourceTs := by
  refine not_lt.mp fun hlt => ?_
  exact hgh h.fromSourceTs ⟨hle, hlt⟩ ⟨le_rfl, hne⟩

/-- One turn of the loop: the spans after `g` lie ahead of the cursor it leaves. -/
theorem GapsAhead.tail {t cursor : Timestamp} {g : GapSpan} {gaps : List GapSpan}
    (h : GapsAhead t cursor (g :: gaps)) : GapsAhead t (max cursor g.toSourceTs) gaps := by
  obtain ⟨hordered, hrest⟩ := List.pairwise_cons.mp h.ordered
  obtain ⟨hdisjoint, hrest'⟩ := List.pairwise_cons.mp h.disjoint
  refine ⟨hrest, hrest', fun u hu => h.forward u (List.mem_cons_of_mem _ hu), fun u hu => ?_⟩
  rcases h.ahead u (List.mem_cons_of_mem _ hu) with hcursor | hzero
  · rcases (h.forward u (List.mem_cons_of_mem _ hu)).1.lt_or_eq with hne | hzero
    · exact .inl (max_le hcursor (GapSpan.toSourceTs_le (hordered u hu) (hdisjoint u hu) hne))
    · exact .inr hzero
  · exact .inr hzero

/-- A zero-width span behind the cursor leaves no trace in the plan. -/
theorem tileLoop_behind {t cursor : Timestamp} {g : GapSpan} {gaps : List GapSpan}
    (hzero : g.fromSourceTs = g.toSourceTs) (hcursor : g.fromSourceTs ≤ cursor) :
    tileLoop t cursor (g :: gaps) = tileLoop t cursor gaps := by
  rw [tileLoop, if_neg (not_lt.mpr hcursor), if_neg hzero.not_lt, max_eq_left (hzero ▸ hcursor)]
  rfl

theorem GapsAhead.tiling {t cursor : Timestamp} {gaps : List GapSpan}
    (h : GapsAhead t cursor gaps) (hcursor : cursor ≤ t) :
    Tiling cursor t ((tileLoop t cursor gaps).map Segment.pair) := by
  induction gaps generalizing cursor with
  | nil =>
      rw [tileLoop]
      split_ifs with hlt
      · exact .step hlt (.done t)
      · exact le_antisymm hcursor (not_lt.mp hlt) ▸ .done cursor
  | cons g gaps ih =>
      obtain ⟨hle, ht⟩ := h.forward g List.mem_cons_self
      have hrest := ih h.tail (max_le hcursor ht)
      by_cases hf : cursor ≤ g.fromSourceTs
      · rw [max_eq_right (hf.trans hle)] at hrest
        rw [tileLoop, max_eq_right (hf.trans hle), List.map_append, List.map_append]
        refine (Tiling.append (m := g.fromSourceTs) ?_ ?_).append hrest
        · split_ifs with hlt
          · exact .step hlt (.done _)
          · exact le_antisymm hf (not_lt.mp hlt) ▸ .done cursor
        · split_ifs with hlt
          · exact .step hlt (.done _)
          · exact le_antisymm hle (not_lt.mp hlt) ▸ .done g.fromSourceTs
      · -- The span starts behind the cursor, so it is empty and the cursor stays.
        have hzero := (h.ahead g List.mem_cons_self).resolve_left hf
        have hbehind : g.fromSourceTs ≤ cursor := (not_le.mp hf).le
        rw [max_eq_left (hzero ▸ hbehind)] at hrest
        rw [tileLoop_behind hzero hbehind]
        exact hrest

/-- The gap segments of a plan are the gap spans that hold an instant. -/
theorem gap_mem_tileLoop {t cursor a b : Timestamp} {gaps : List GapSpan} :
    .gap a b ∈ tileLoop t cursor gaps ↔ ⟨a, b⟩ ∈ gaps ∧ a < b := by
  induction gaps generalizing cursor with
  | nil =>
      rw [tileLoop]
      split_ifs <;> simp
  | cons g gaps ih =>
      have hcovered : .gap a b ∉
          (if cursor < g.fromSourceTs then [Segment.covered cursor g.fromSourceTs] else []) := by
        split_ifs <;> simp
      have hgap : .gap a b ∈
          (if g.fromSourceTs < g.toSourceTs then [Segment.gap g.fromSourceTs g.toSourceTs] else [])
            ↔ ⟨a, b⟩ = g ∧ a < b := by
        obtain ⟨c, d⟩ := g
        split_ifs with hlt
        · simp only [List.mem_singleton, Segment.gap.injEq, GapSpan.mk.injEq]
          constructor
          · rintro ⟨rfl, rfl⟩
            exact ⟨⟨rfl, rfl⟩, hlt⟩
          · exact And.left
        · simp only [List.not_mem_nil, GapSpan.mk.injEq, false_iff]
          rintro ⟨⟨rfl, rfl⟩, hab⟩
          exact hlt hab
      rw [tileLoop, List.mem_append, List.mem_append, hgap, ih, List.mem_cons, or_and_right]
      exact or_congr_left (or_iff_right hcovered)

/-- Of a range that ends before it starts no gap span is left, and nothing is planned. -/
theorem OrderedGaps.tile_eq_nil {f t : Timestamp} {gaps : List GapSpan}
    (h : OrderedGaps f t gaps) (hlt : t < f) : tile f t gaps = [] := by
  cases gaps with
  | nil => exact if_neg (not_lt.mpr hlt.le)
  | cons g gaps =>
      obtain ⟨hf, hle, ht⟩ := h.within g List.mem_cons_self
      exact absurd ((hf.trans hle).trans ht) (not_le.mpr hlt)

/-- The plan of ordered gap spans partitions the request: nonempty segments one after
the other, sharing no instant, that hold exactly the instants of `[f, t)`; the gap
segments hold exactly those of the spans. -/
theorem tile_partition {f t : Timestamp} {gaps : List GapSpan} (h : OrderedGaps f t gaps) :
    (∀ s ∈ tile f t gaps, s.fromTs < s.toTs)
      ∧ (tile f t gaps).Pairwise (fun a b => a.toTs ≤ b.fromTs)
      ∧ (tile f t gaps).Pairwise (fun a b => ∀ x ∈ a.instants, x ∉ b.instants)
      ∧ (∀ x, (∃ s ∈ tile f t gaps, x ∈ s.instants) ↔ f ≤ x ∧ x < t)
      ∧ (t ≤ f → tile f t gaps = [])
      ∧ ∀ x, (∃ a b, .gap a b ∈ tile f t gaps ∧ a ≤ x ∧ x < b) ↔ ∃ g ∈ gaps, x ∈ g.instants := by
  have hordered : (tile f t gaps).Pairwise (fun a b => a.toTs ≤ b.fromTs) := by
    rcases le_or_gt f t with hle | hlt
    · exact List.pairwise_map.mp (h.gapsAhead.tiling hle).ordered.1
    · rw [h.tile_eq_nil hlt]
      exact .nil
  have hcover : ∀ x, (∃ s ∈ tile f t gaps, x ∈ s.instants) ↔ f ≤ x ∧ x < t := by
    intro x
    rcases le_or_gt f t with hle | hlt
    · have hx := Set.ext_iff.mp (h.gapsAhead.tiling hle).cover_eq x
      simp only [mem_cover, List.mem_map, exists_exists_and_eq_and] at hx
      exact hx
    · rw [h.tile_eq_nil hlt]
      constructor
      · intro ⟨s, hs, _⟩
        exact absurd hs List.not_mem_nil
      · intro ⟨hf, ht⟩
        exact absurd (hf.trans_lt ht) hlt.not_gt
  refine ⟨fun s => lt_of_mem_tileLoop, hordered, ?_, hcover, ?_, ?_⟩
  · refine hordered.imp fun hab x hxa hxb => ?_
    exact absurd (hxa.2.trans_le hab) (not_lt.mpr hxb.1)
  · -- A segment would hold an instant of the empty range.
    intro hle
    refine List.eq_nil_iff_forall_not_mem.mpr fun s hs => ?_
    obtain ⟨hf, ht⟩ := (hcover s.fromTs).mp ⟨s, hs, le_rfl, lt_of_mem_tileLoop hs⟩
    exact absurd (hf.trans_lt ht) (not_lt.mpr hle)
  · intro x
    constructor
    · intro ⟨a, b, hab, hx⟩
      exact ⟨⟨a, b⟩, (gap_mem_tileLoop.mp hab).1, hx⟩
    · intro ⟨g, hg, hx⟩
      exact ⟨g.fromSourceTs, g.toSourceTs, gap_mem_tileLoop.mpr ⟨hg, hx.1.trans_lt hx.2⟩, hx⟩

/-- A zero-width span inside another and one at the end of the request. -/
theorem tile_partition_zero_width :
    OrderedGaps 0 60 [⟨0, 10⟩, ⟨5, 5⟩, ⟨20, 40⟩, ⟨60, 60⟩]
      ∧ tile 0 60 [⟨0, 10⟩, ⟨5, 5⟩, ⟨20, 40⟩, ⟨60, 60⟩]
        = [.gap 0 10, .covered 10 20, .gap 20 40, .covered 40 60]
      ∧ ∀ x, (∃ s ∈ tile 0 60 [⟨0, 10⟩, ⟨5, 5⟩, ⟨20, 40⟩, ⟨60, 60⟩], x ∈ s.instants)
        ↔ 0 ≤ x ∧ x < 60 := by
  have hapart : List.Pairwise (fun g h : GapSpan =>
      min g.toSourceTs h.toSourceTs ≤ max g.fromSourceTs h.fromSourceTs)
      [⟨0, 10⟩, ⟨5, 5⟩, ⟨20, 40⟩, ⟨60, 60⟩] := by decide
  have hgaps : OrderedGaps 0 60 [⟨0, 10⟩, ⟨5, 5⟩, ⟨20, 40⟩, ⟨60, 60⟩] := by
    refine ⟨by decide, hapart.imp fun hgh x hx hx' => ?_, by decide⟩
    exact absurd ((lt_min hx.2 hx'.2).trans_le hgh) (not_lt.mpr (max_le hx.1 hx'.1))
  obtain ⟨-, -, -, hcover, -, -⟩ := tile_partition hgaps
  exact ⟨hgaps, by decide, hcover⟩

/-! ### Of the gap spans a cache reports -/

/-- Gap spans in order, disjoint and inside `[cursor, t)`; zero width allowed. -/
def GapsWithin (t : Timestamp) : Timestamp → List GapSpan → Prop
  | cursor, [] => cursor ≤ t
  | cursor, g :: gaps =>
      cursor ≤ g.fromSourceTs ∧ g.fromSourceTs ≤ g.toSourceTs ∧ GapsWithin t g.toSourceTs gaps

theorem GapsWithin.le_from {t cursor : Timestamp} {gaps : List GapSpan}
    (h : GapsWithin t cursor gaps) : ∀ g ∈ gaps, cursor ≤ g.fromSourceTs := by
  induction gaps generalizing cursor with
  | nil => simp
  | cons g gaps ih =>
      obtain ⟨hf, ht, hrest⟩ := h
      intro u hu
      rcases List.mem_cons.mp hu with rfl | hu
      · exact hf
      · exact (hf.trans ht).trans (ih hrest u hu)

theorem GapsWithin.le {t cursor : Timestamp} {gaps : List GapSpan}
    (h : GapsWithin t cursor gaps) : cursor ≤ t := by
  induction gaps generalizing cursor with
  | nil => exact h
  | cons g gaps ih => exact (h.1.trans h.2.1).trans (ih h.2.2)

theorem GapsWithin.orderedGaps {t cursor : Timestamp} {gaps : List GapSpan}
    (h : GapsWithin t cursor gaps) : OrderedGaps cursor t gaps := by
  induction gaps generalizing cursor with
  | nil => exact ⟨.nil, .nil, fun g hg => absurd hg List.not_mem_nil⟩
  | cons g gaps ih =>
      obtain ⟨hf, hle, hrest⟩ := h
      obtain ⟨hordered, hdisjoint, hwithin⟩ := ih hrest
      refine ⟨List.pairwise_cons.mpr ⟨fun u hu => hle.trans (hrest.le_from u hu), hordered⟩,
        List.pairwise_cons.mpr ⟨fun u hu => ?_, hdisjoint⟩, fun u hu => ?_⟩
      · intro x hx hxu
        exact absurd (hx.2.trans_le (hrest.le_from u hu)) (not_lt.mpr hxu.1)
      · rcases List.mem_cons.mp hu with rfl | hu
        · exact ⟨hf, hle, hrest.le⟩
        · obtain ⟨hu1, hu2⟩ := hwithin u hu
          exact ⟨(hf.trans hle).trans hu1, hu2⟩

theorem tiling_tileLoop {t cursor : Timestamp} {gaps : List GapSpan}
    (h : GapsWithin t cursor gaps) :
    Tiling cursor t ((tileLoop t cursor gaps).map Segment.pair) :=
  h.orderedGaps.gapsAhead.tiling h.le

/-- A covered segment of the plan lies between gap spans. -/
theorem covered_of_mem_tileLoop {t cursor f u : Timestamp} {gaps : List GapSpan}
    (hgaps : GapsWithin t cursor gaps) (h : .covered f u ∈ tileLoop t cursor gaps) :
    ∀ g ∈ gaps, u ≤ g.fromSourceTs ∨ g.toSourceTs ≤ f := by
  induction gaps generalizing cursor with
  | nil => simp
  | cons g gaps ih =>
      obtain ⟨hf, ht, hrest⟩ := hgaps
      rw [tileLoop, max_eq_right (hf.trans ht), List.mem_append, List.mem_append] at h
      rcases h with (h | h) | h
      · split_ifs at h with hlt
        · obtain ⟨rfl, rfl⟩ : f = cursor ∧ u = g.fromSourceTs := by simpa using h
          intro v hv
          rcases List.mem_cons.mp hv with rfl | hv
          · exact .inl le_rfl
          · exact .inl (ht.trans (hrest.le_from v hv))
        · simp at h
      · split_ifs at h <;> simp at h
      · intro v hv
        rcases List.mem_cons.mp hv with rfl | hv
        · exact .inr ((tiling_tileLoop hrest).ordered.2 (f, u) (List.mem_map_of_mem h)).1
        · exact ih hrest h v hv

/-! ### What is left of a plan -/

/-- Gap spans with nothing of zero width. -/
def ProperGaps (gaps : List GapSpan) : Prop := ∀ g ∈ gaps, g.fromSourceTs < g.toSourceTs

/-- What the loop is about to plan from `cursor` on, before the first gap span. -/
theorem tileLoop_cons {t cursor : Timestamp} {g : GapSpan} {gaps : List GapSpan}
    (hcursor : cursor ≤ g.fromSourceTs) (hg : g.fromSourceTs < g.toSourceTs) :
    tileLoop t cursor (g :: gaps)
      = (if cursor < g.fromSourceTs then [.covered cursor g.fromSourceTs] else [])
        ++ .gap g.fromSourceTs g.toSourceTs :: tileLoop t g.toSourceTs gaps := by
  rw [tileLoop, if_pos hg, max_eq_right (hcursor.trans hg.le), List.append_assoc]
  rfl

/-- A plan whose first segment is covered goes on from the end of that segment. -/
theorem tileLoop_covered {u t cursor a b : Timestamp} {gaps : List GapSpan} {segs : List Segment}
    (hgaps : GapsWithin u cursor gaps) (hproper : ProperGaps gaps) (htu : t ≤ u)
    (h : tileLoop t cursor gaps = .covered a b :: segs) :
    a = cursor ∧ cursor ≤ b ∧ segs = tileLoop t b gaps ∧ GapsWithin u b gaps := by
  cases gaps with
  | nil =>
      rw [tileLoop] at h
      split_ifs at h with hlt
      obtain ⟨hab, rfl⟩ := List.cons.inj h
      obtain ⟨rfl, rfl⟩ := Segment.covered.inj hab
      refine ⟨rfl, hlt.le, ?_, htu⟩
      rw [tileLoop, if_neg (lt_irrefl t)]
  | cons g gaps =>
      obtain ⟨hcursor, hle, hrest⟩ := hgaps
      have hg := hproper g List.mem_cons_self
      rw [tileLoop_cons hcursor hg] at h
      split_ifs at h with hlt
      · obtain ⟨hab, rfl⟩ := List.cons.inj h
        obtain ⟨rfl, rfl⟩ := Segment.covered.inj hab
        refine ⟨rfl, hcursor, ?_, le_rfl, hle, hrest⟩
        rw [tileLoop_cons le_rfl hg, if_neg (lt_irrefl _)]
        rfl
      · cases (List.cons.inj h).1

/-- A plan whose first segment is a gap starts at its first gap span. -/
theorem tileLoop_gap {u t cursor a b : Timestamp} {gaps : List GapSpan} {segs : List Segment}
    (hgaps : GapsWithin u cursor gaps) (hproper : ProperGaps gaps)
    (h : tileLoop t cursor gaps = .gap a b :: segs) :
    ∃ rest, gaps = ⟨a, b⟩ :: rest ∧ a = cursor ∧ segs = tileLoop t b rest
      ∧ GapsWithin u b rest := by
  cases gaps with
  | nil =>
      rw [tileLoop] at h
      split_ifs at h
      cases (List.cons.inj h).1
  | cons g gaps =>
      obtain ⟨hcursor, hle, hrest⟩ := hgaps
      rw [tileLoop_cons hcursor (hproper g List.mem_cons_self)] at h
      split_ifs at h with hlt
      · cases (List.cons.inj h).1
      · obtain ⟨hab, rfl⟩ := List.cons.inj h
        obtain ⟨rfl, rfl⟩ := Segment.gap.inj hab
        exact ⟨gaps, rfl, le_antisymm (not_lt.mp hlt) hcursor, rfl, hrest⟩

/-- A plan with nothing left has no gap span left and has reached the end. -/
theorem tileLoop_nil {u t cursor : Timestamp} {gaps : List GapSpan}
    (hgaps : GapsWithin u cursor gaps) (hproper : ProperGaps gaps)
    (h : tileLoop t cursor gaps = []) :
    gaps = [] ∧ t ≤ cursor := by
  cases gaps with
  | nil =>
      rw [tileLoop] at h
      split_ifs at h with hlt
      exact ⟨rfl, not_lt.mp hlt⟩
  | cons g gaps =>
      rw [tileLoop_cons hgaps.1 (hproper g List.mem_cons_self)] at h
      simp at h

end Datamancer
