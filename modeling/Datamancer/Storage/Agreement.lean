import Datamancer.Storage.Timeline

/-!
# Datamancer.Storage.Agreement

A cache that agrees with a list of events: at every instant of a set the cache
holds exactly what the list has there (`Agrees`). Where it does, a replay is the
slice of the list (`Agrees.replay`), and storing what a provider serves of the list
keeps it so (`Agrees.store`), on the claimed range as well where the list has at
most one event per instant.

What is compared of an event is a parameter (`View`): a fetch repeats an event with
the same payload, but not always with the same receive time.
-/

namespace Datamancer

open HalfOpen TursoCache

/-- The part of an event that is compared: its instant belongs to it, its `seq` does
not. -/
structure View where
  norm : MarketEvent → MarketEvent
  sourceTs_norm : ∀ ev, (norm ev).sourceTs = ev.sourceTs
  norm_stampSeq : ∀ s ev, norm (ev.stampSeq s) = norm ev

namespace View

/-- All fields but `seq`. -/
def unstamped : View where
  norm := MarketEvent.stampSeq ⟨0⟩
  sourceTs_norm := MarketEvent.sourceTs_stampSeq ⟨0⟩
  norm_stampSeq := fun s ev => MarketEvent.stampSeq_stampSeq ⟨0⟩ s ev

/-- Equal lists, as far as is compared. -/
def Same (v : View) (evs evs' : List MarketEvent) : Prop := evs.map v.norm = evs'.map v.norm

theorem Same.mem {v : View} {evs evs' : List MarketEvent} (h : v.Same evs evs') {ev : MarketEvent}
    (hev : ev ∈ evs) : ∃ ev' ∈ evs', v.norm ev' = v.norm ev ∧ ev'.sourceTs = ev.sourceTs := by
  have hmem : v.norm ev ∈ evs'.map v.norm := h ▸ List.mem_map_of_mem hev
  obtain ⟨ev', hev', heq⟩ := List.mem_map.mp hmem
  refine ⟨ev', hev', heq, ?_⟩
  rw [← v.sourceTs_norm ev', heq, v.sourceTs_norm]

theorem Same.symm {v : View} {evs evs' : List MarketEvent} (h : v.Same evs evs') :
    v.Same evs' evs := Eq.symm h

theorem Same.length_eq {v : View} {evs evs' : List MarketEvent} (h : v.Same evs evs') :
    evs.length = evs'.length := by
  simpa using congrArg List.length h

theorem Same.append {v : View} {evs evs' out out' : List MarketEvent} (h : v.Same evs evs')
    (h' : v.Same out out') : v.Same (evs ++ out) (evs' ++ out') := by
  unfold Same at *
  rw [List.map_append, List.map_append, h, h']

end View

variable {v : View} {s : CacheStream} {D : List MarketEvent} {S : Set Timestamp} {c : TursoCache}

/-- The events of a list at an instant. -/
def eventsOf (D : List MarketEvent) (x : Timestamp) : List MarketEvent :=
  D.filter fun ev => ev.sourceTs = x

@[simp] theorem mem_eventsOf {x : Timestamp} {ev : MarketEvent} :
    ev ∈ eventsOf D x ↔ ev ∈ D ∧ ev.sourceTs = x := by
  simp [eventsOf]

/-- A strictly increasing list has no two events at one instant. -/
theorem length_eventsOf_of_strict (h : D.Pairwise fun a b => a.sourceTs < b.sourceTs)
    (x : Timestamp) : (eventsOf D x).length ≤ 1 := by
  have hstrict : (eventsOf D x).Pairwise fun a b => a.sourceTs < b.sourceTs :=
    h.filter _
  have hts : ∀ ev ∈ eventsOf D x, ev.sourceTs = x := fun ev hev => (mem_eventsOf.mp hev).2
  cases hl : eventsOf D x with
  | nil => simp
  | cons a l =>
      cases l with
      | nil => simp
      | cons b l =>
          rw [hl] at hstrict hts
          have hab := (List.pairwise_cons.mp hstrict).1 b List.mem_cons_self
          rw [hts a List.mem_cons_self, hts b (by simp)] at hab
          exact absurd hab (lt_irrefl x)

/-- At every instant of `S` the cache holds exactly the events of `D`. -/
def Agrees (v : View) (s : CacheStream) (D : List MarketEvent) (S : Set Timestamp)
    (c : TursoCache) : Prop :=
  ∀ x ∈ S, v.Same (eventsOf D x) (c.held (s.key 0 0) x).toList

/-- The cache has room for one event per instant, so the list has no more there. -/
theorem Agrees.length_le (h : Agrees v s D S c) {x : Timestamp} (hx : x ∈ S) :
    (eventsOf D x).length ≤ 1 := by
  rw [(h x hx).length_eq]
  cases c.held (s.key 0 0) x <;> simp

/-! ### Replay -/

/-- A replay of instants the cache agrees on is the slice of the list. -/
theorem Agrees.replay (h : Agrees v s D S c)
    (hD : D.Pairwise fun a b => a.sourceTs ≤ b.sourceTs) {f t : Timestamp}
    (hsub : Set.Ico f t ⊆ S) :
    v.Same (c.replay (s.key f t) (s.key f t).request) (slice MarketEvent.sourceTs f t D) := by
  have hslice : (slice MarketEvent.sourceTs f t D).Pairwise fun a b => a.sourceTs < b.sourceTs :=
    slice_strict _ hD fun x hf ht => h.length_le (hsub ⟨hf, ht⟩)
  -- Both sides are strictly increasing, so only their members matter.
  refine eq_of_strictly_increasing MarketEvent.sourceTs ?_ ?_ fun e => ?_
  · rw [List.pairwise_map]
    simpa only [v.sourceTs_norm] using replay_strict c (s.key f t) (s.key f t).request
  · rw [List.pairwise_map]
    simpa only [v.sourceTs_norm] using hslice
  · rw [List.mem_map, List.mem_map]
    constructor
    · intro ⟨ev, hev, he⟩
      obtain ⟨x, hf, ht, hheld⟩ := mem_replay.mp hev
      have hmem : ev ∈ (c.held (s.key 0 0) x).toList := Option.mem_toList.mpr hheld
      obtain ⟨d, hd, hnorm, -⟩ := (h x (hsub ⟨hf, ht⟩)).symm.mem hmem
      obtain ⟨hdD, rfl⟩ := mem_eventsOf.mp hd
      exact ⟨d, (mem_slice _).mpr ⟨hdD, hf, ht⟩, hnorm.trans he⟩
    · intro ⟨d, hd, he⟩
      obtain ⟨hdD, hf, ht⟩ := (mem_slice _).mp hd
      obtain ⟨ev, hev, hnorm, -⟩ := (h d.sourceTs (hsub ⟨hf, ht⟩)).mem
        (mem_eventsOf.mpr ⟨hdD, rfl⟩)
      exact ⟨ev, mem_replay.mpr ⟨d.sourceTs, hf, ht, Option.mem_toList.mp hev⟩, hnorm.trans he⟩

/-! ### Store -/

theorem lastAt_eq_some {evs : List MarketEvent} {x : Timestamp} {ev : MarketEvent}
    (h : lastAt evs x = some ev) : ev ∈ evs ∧ ev.sourceTs = x := by
  have hmem := List.mem_of_find?_eq_some h
  have hx := List.find?_some h
  exact ⟨List.mem_reverse.mp hmem, by simpa using hx⟩

theorem lastAt_eq_none {evs : List MarketEvent} {x : Timestamp} :
    lastAt evs x = none ↔ ∀ ev ∈ evs, ev.sourceTs ≠ x := by
  simp [lastAt]

/-- Storing what a provider serves of the list over a window that contains the claimed
range keeps the cache in agreement, also on the instants claimed where the list has at
most one event. -/
theorem Agrees.store (h : Agrees v s D S c) {f u : Timestamp} {evs : List MarketEvent}
    (hroute : ∀ ev ∈ evs, ev.routeKey = some (s.instrument, s.kind))
    {window : MarketEvent → Bool} (hevs : v.Same evs (D.filter window))
    (hwindow : ∀ d ∈ D, f ≤ d.sourceTs → d.sourceTs < u → window d = true) {S' : Set Timestamp}
    (hS' : ∀ x ∈ S', x ∈ S ∨ (f ≤ x ∧ x < u) ∧ (eventsOf D x).length ≤ 1) :
    Agrees v s D S' (c.store (s.key f u) evs).2 := by
  intro x hx
  have hone : (eventsOf D x).length ≤ 1 := (hS' x hx).elim h.length_le And.right
  have hheld : (c.store (s.key f u) evs).2.held (s.key 0 0) x
      = ((lastAt evs x).map (MarketEvent.stampSeq ⟨0⟩)).or
        (if f ≤ x ∧ x < u then none else c.held (s.key 0 0) x) :=
    @held_store (s.key f u) evs hroute c x
  rw [hheld]
  cases hlast : lastAt evs x with
  | some ev =>
      -- The batch has an event there, so the list has exactly that one.
      obtain ⟨hev, rfl⟩ := lastAt_eq_some hlast
      obtain ⟨d, hd, hnorm, hts⟩ := hevs.mem hev
      obtain ⟨d', hd'⟩ := List.length_eq_one_iff.mp (Nat.le_antisymm hone
        (List.length_pos_of_mem (mem_eventsOf.mpr ⟨List.mem_of_mem_filter hd, hts⟩)))
      have hdd' : d = d' := by
        have hmem : d ∈ eventsOf D ev.sourceTs := mem_eventsOf.mpr ⟨List.mem_of_mem_filter hd, hts⟩
        rw [hd'] at hmem
        exact List.mem_singleton.mp hmem
      rw [hd', ← hdd']
      simp [View.Same, v.norm_stampSeq, hnorm]
  | none =>
      have hnone := lastAt_eq_none.mp hlast
      by_cases hin : f ≤ x ∧ x < u
      · -- Nothing was served there, so the list has nothing there.
        have hempty : eventsOf D x = [] := by
          refine List.eq_nil_iff_forall_not_mem.mpr fun d hd => ?_
          obtain ⟨hdD, rfl⟩ := mem_eventsOf.mp hd
          obtain ⟨ev, hev, -, hts⟩ := hevs.symm.mem
            (List.mem_filter.mpr ⟨hdD, hwindow d hdD hin.1 hin.2⟩)
          exact hnone ev hev hts
        simp [hin, hempty, View.Same]
      · have hkept := h x ((hS' x hx).resolve_right fun hclaim => hin hclaim.1)
        simpa [hin] using hkept

/-! ### Replay after a store -/

/-- A store of events of its own range leaves the replay of an earlier range alone. -/
theorem replay_store_of_le {f u a b : Timestamp} {evs : List MarketEvent}
    (hroute : ∀ ev ∈ evs, ev.routeKey = some (s.instrument, s.kind))
    (hin : ∀ ev ∈ evs, a ≤ ev.sourceTs) (hu : u ≤ a) :
    (c.store (s.key a b) evs).2.replay (s.key f u) (s.key f u).request
      = c.replay (s.key f u) (s.key f u).request := by
  refine eq_of_strictly_increasing MarketEvent.sourceTs (replay_strict _ _ _)
    (replay_strict _ _ _) fun ev => ?_
  rw [mem_replay, mem_replay]
  refine exists_congr fun x => and_congr_right fun _ => and_congr_right fun hx => ?_
  have hxa : x < a := lt_of_lt_of_le (show x < u from hx) hu
  have hlast : lastAt evs x = none :=
    lastAt_eq_none.mpr fun ev hev heq => absurd (heq ▸ hin ev hev) (not_le.mpr hxa)
  have hheld : (c.store (s.key a b) evs).2.held (s.key f u) x = c.held (s.key f u) x := by
    have hstore := @held_store (s.key a b) evs hroute c x
    rw [hlast, if_neg (fun h => absurd h.1 (not_le.mpr hxa))] at hstore
    exact hstore
  rw [hheld]

/-- Events of a range in order are what a replay yields of it once they are stored. -/
theorem replay_store_self {a b : Timestamp} {evs : List MarketEvent}
    (hroute : ∀ ev ∈ evs, ev.routeKey = some (s.instrument, s.kind))
    (hin : ∀ ev ∈ evs, a ≤ ev.sourceTs ∧ ev.sourceTs < b)
    (hstrict : evs.Pairwise fun e e' => e.sourceTs < e'.sourceTs) :
    View.unstamped.Same evs
      ((c.store (s.key a b) evs).2.replay (s.key a b) (s.key a b).request) := by
  have hnone : Agrees View.unstamped s evs ∅ c := fun x hx => absurd hx (Set.notMem_empty x)
  have hall : evs = evs.filter fun _ => true := by simp
  have hagrees : Agrees View.unstamped s evs (Set.Ico a b) (c.store (s.key a b) evs).2 :=
    hnone.store hroute (congrArg _ hall) (fun _ _ _ _ => rfl) fun x hx =>
      .inr ⟨hx, length_eventsOf_of_strict hstrict x⟩
  have hslice : slice MarketEvent.sourceTs a b evs = evs :=
    List.filter_eq_self.mpr fun ev hev => by simpa using hin ev hev
  have hreplay := hagrees.replay (hstrict.imp le_of_lt) (f := a) (t := b) subset_rfl
  rw [hslice] at hreplay
  exact hreplay.symm

end Datamancer
