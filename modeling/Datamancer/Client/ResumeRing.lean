import Datamancer.Client.Ledger
import Datamancer.Session.Live

/-!
# Datamancer.Client.ResumeRing

The rings that hold what is pushed while nobody takes: what is left of any sequence of pushes,
and what is recorded of the rest. The client ring keeps one record per instrument
(`client_ring_law`), the session ring one in all (`event_ring_law`); each record spans exactly
what the evictions it stands for cost.
-/

namespace Datamancer

/-! ### What an eviction is charged to -/

/-- The instrument of a data event or a `Gap`. -/
def MarketEvent.lostInstrument : MarketEvent → Option Instrument
  | .control ⟨_, _, _, .gap _ instrument _⟩ => some instrument
  | ev => ev.dataInstrument

/-- What a sequence of events costs, event by event. -/
def costs (evs : List MarketEvent) : List GapSpan := evs.filterMap MarketEvent.lossSpan

theorem lossCoords_eq (provider : Instrument → String) (ev : MarketEvent) :
    (ev.lossCoords provider).map LossCoords.instrument = ev.lostInstrument
      ∧ (ev.lossCoords provider).map LossCoords.span = ev.lossSpan := by
  cases ev with
  | control c =>
      obtain ⟨_, _, _, kind⟩ := c
      cases kind <;> exact ⟨rfl, rfl⟩
  | _ => exact ⟨rfl, rfl⟩

/-! ### The client ring -/

/-- One push after another. -/
def ClientRing.pushAll (r : ClientRing) (xs : List (MarketEvent × String)) : ClientRing :=
  xs.foldl (fun r x => (r.push x).1) r

/-- The events that are charged to an instrument. -/
def chargedTo (i : Instrument) (xs : List (MarketEvent × String)) : List MarketEvent :=
  (xs.map Prod.fst).filter fun ev => ev.lostInstrument = some i

theorem chargedTo_cons (i : Instrument) (x : MarketEvent × String)
    (xs : List (MarketEvent × String)) :
    chargedTo i (x :: xs)
      = if x.1.lostInstrument = some i then x.1 :: chargedTo i xs else chargedTo i xs := by
  rw [chargedTo, List.map_cons, List.filter_cons]
  simp only [decide_eq_true_eq]
  rfl

/-- The record of the charges to an instrument. -/
structure Accounts (record : Option DroppedSpan) (charges : List MarketEvent) : Prop where
  none_iff : record = none ↔ charges = []
  span : record.map DroppedSpan.span = GapSpan.hull (costs charges)
  first : record.map DroppedSpan.firstSeq = charges.head?.map MarketEvent.seq

theorem accounts_nil : Accounts none [] := ⟨Iff.rfl.trans ⟨fun _ => rfl, fun _ => rfl⟩, rfl, rfl⟩

variable {dropped : AList fun _ : Instrument => DroppedSpan} {i : Instrument}
  {charges : List MarketEvent}

theorem chargedTo_single (i : Instrument) (x : MarketEvent × String) :
    chargedTo i [x] = if x.1.lostInstrument = some i then [x.1] else [] := chargedTo_cons i x []

/-- A record grows over what is charged to it. -/
theorem Accounts.charge {record : Option DroppedSpan} (h : Accounts record charges)
    {ev : MarketEvent} {c : LossCoords} (hspan : ev.lossSpan = some c.span) :
    Accounts (some (record.elim ⟨c.span, ev.seq, c.provider⟩ fun d =>
      { d with span := d.span.absorb c.span })) (charges ++ [ev]) := by
  have hcosts : costs (charges ++ [ev]) = costs charges ++ [c.span] := by simp [costs, hspan]
  refine ⟨by simp, ?_, ?_⟩
  · rw [hcosts, GapSpan.hull_append_singleton, ← h.span]
    cases record <;> rfl
  · cases record with
    | none =>
        obtain rfl := h.none_iff.mp rfl
        rfl
    | some d =>
        cases charges with
        | nil => exact absurd (h.none_iff.mpr rfl) (by simp)
        | cons a charges => exact h.first

/-- One more eviction is charged to its instrument and to no other. -/
theorem Accounts.noteDrop (h : Accounts (dropped.lookup i) charges) (x : MarketEvent × String) :
    Accounts ((noteDrop dropped x).lookup i) (charges ++ chargedTo i [x]) := by
  obtain ⟨hinst, hspan⟩ := lossCoords_eq (fun _ => x.2) x.1
  unfold Datamancer.noteDrop
  rw [chargedTo_single, ← hinst]
  cases hc : x.1.lossCoords fun _ => x.2 with
  | none => simpa using h
  | some c =>
      rw [hc] at hspan
      by_cases hi : c.instrument = i
      · subst hi
        have hcharge := h.charge hspan.symm
        cases hd : dropped.lookup c.instrument with
        | none => simpa [hd] using hcharge
        | some d => simpa [hd] using hcharge
      · have hne : i ≠ c.instrument := Ne.symm hi
        cases hd : dropped.lookup c.instrument with
        | none => simpa [hi, hd, AList.lookup_insert_ne hne] using h
        | some d => simpa [hi, hd, AList.lookup_insert_ne hne] using h

theorem ring_pushAll (r : ClientRing) (xs : List (MarketEvent × String)) :
    (r.pushAll xs).ring = r.ring.pushAll xs := by
  induction xs generalizing r with
  | nil => rfl
  | cons x xs ih => exact ih (r.push x).1

/-- Whatever a run of pushes evicts is charged. -/
theorem accounts_pushAll {r : ClientRing} (h : Accounts (r.dropped.lookup i) charges)
    (xs : List (MarketEvent × String)) :
    Accounts ((r.pushAll xs).dropped.lookup i)
      (charges ++ chargedTo i (r.ring.evictions xs)) := by
  induction xs generalizing r charges with
  | nil => simpa [ClientRing.pushAll, EvictRing.evictions, chargedTo] using h
  | cons x xs ih =>
      have happend : ∀ ys zs, chargedTo i (ys ++ zs) = chargedTo i ys ++ chargedTo i zs :=
        fun ys zs => by simp [chargedTo]
      show Accounts (((r.push x).1.pushAll xs).dropped.lookup i) _
      rw [EvictRing.evictions, happend, ← List.append_assoc]
      refine ih (r := (r.push x).1) ?_
      cases hev : r.ring.evicted with
      | none => simpa [ClientRing.push, hev, chargedTo] using h
      | some out => simpa [ClientRing.push, hev] using h.noteDrop out

/-- The records that a ring lists are those of its map. -/
theorem mem_gaps {r : ClientRing} {g : InstrumentGap} :
    g ∈ r.gaps ↔ r.dropped.lookup g.instrument = some ⟨g.span, g.firstSeq, g.provider⟩ := by
  rw [ClientRing.gaps, List.mem_map]
  constructor
  · rintro ⟨e, he, rfl⟩
    exact AList.mem_lookup_iff.mpr he
  · exact fun he => ⟨_, AList.mem_lookup_iff.mp he, rfl⟩

/-- What a client ring keeps of a sequence of pushes: the last of them, as many as its capacity
and one at least, and one record for each instrument that an eviction is charged to, with the
exact hull of the charges and the `seq` of the first. -/
structure ClientRing.Retains (r : ClientRing) (capacity : Nat) (xs : List (MarketEvent × String)) :
    Prop where
  survivors : r.ring.buf = xs.drop (xs.length - max capacity 1)
  unique : (r.gaps.map InstrumentGap.instrument).Nodup
  uncharged : ∀ i, chargedTo i (xs.take (xs.length - max capacity 1)) = [] →
    ∀ g ∈ r.gaps, g.instrument ≠ i
  charged : ∀ i first rest, chargedTo i (xs.take (xs.length - max capacity 1)) = first :: rest →
    ∃ g ∈ r.gaps, g.instrument = i ∧ g.firstSeq = first.seq
      ∧ g.span.IsHull (costs (first :: rest))

theorem retains_clientRing (capacity : Nat) (xs : List (MarketEvent × String)) :
    ((ClientRing.new capacity).pushAll xs).Retains capacity xs := by
  obtain ⟨hbuf, hevictions⟩ := EvictRing.buf_pushAll capacity xs
  have haccounts : ∀ i, Accounts (((ClientRing.new capacity).pushAll xs).dropped.lookup i)
      (chargedTo i (xs.take (xs.length - max capacity 1))) := fun i => by
    rw [← hevictions]
    exact accounts_pushAll (r := .new capacity) accounts_nil xs
  refine ⟨by rw [ring_pushAll]; exact hbuf, nodup_gaps _, fun i hnil g hg hi => ?_,
    fun i first rest hcons => ?_⟩
  · have hnone := (haccounts i).none_iff.mpr hnil
    rw [mem_gaps, hi, hnone] at hg
    cases hg
  · have hi := haccounts i
    rw [hcons] at hi
    cases hd : ((ClientRing.new capacity).pushAll xs).dropped.lookup i with
    | none => exact absurd (hi.none_iff.mp hd) (by simp)
    | some d =>
        rw [hd] at hi
        exact ⟨⟨d.firstSeq, i, d.span, d.provider⟩, mem_gaps.mpr hd, rfl,
          Option.some.inj hi.first, GapSpan.isHull_of_hull hi.span.symm⟩

/-! ### The session ring -/

theorem droppedFirstSeq_pushAll (r : EventRing) (evs : List MarketEvent) :
    (r.pushAll evs).droppedFirstSeq
      = r.droppedFirstSeq.or ((r.ring.evictions evs).head?.map MarketEvent.seq) := by
  induction evs generalizing r with
  | nil => simp [EventRing.pushAll, EvictRing.evictions]
  | cons ev evs ih =>
      refine (ih (r.push ev)).trans ?_
      cases hev : r.ring.evicted with
      | none => simp [EventRing.push, hev, EvictRing.evictions]
      | some out =>
          cases hfirst : r.droppedFirstSeq <;>
            simp [EventRing.push, EventRing.noteDrop, hev, hfirst, EvictRing.evictions]

/-- What a session ring keeps: the same survivors and one record in all, over the evicted data
events and `Gap`s, with the `seq` of the first event evicted. -/
structure EventRing.Retains (r : EventRing) (capacity : Nat) (evs : List MarketEvent) : Prop where
  survivors : r.ring.buf = evs.drop (evs.length - max capacity 1)
  uncharged : r.dropped = none ↔
    ∀ ev ∈ evs.take (evs.length - max capacity 1), (ev.isData || ev.isGap) = false
  charged : ∀ g, r.dropped = some g →
    g.IsHull (costs (evs.take (evs.length - max capacity 1)))
  first : r.droppedFirstSeq
    = (evs.take (evs.length - max capacity 1)).head?.map MarketEvent.seq

theorem retains_eventRing (capacity : Nat) (evs : List MarketEvent) :
    ((EventRing.new capacity).pushAll evs).Retains capacity evs := by
  obtain ⟨hbuf, hevictions⟩ := EvictRing.buf_pushAll capacity evs
  have hdropped := EventRing.dropped_pushAll (EventRing.new capacity) evs [] rfl
  have hfirst := droppedFirstSeq_pushAll (EventRing.new capacity) evs
  rw [List.nil_append, show (EventRing.new capacity).ring = .new capacity from rfl,
    hevictions] at hdropped
  rw [show (EventRing.new capacity).ring = .new capacity from rfl, hevictions] at hfirst
  refine ⟨by rw [EventRing.ring_pushAll]; exact hbuf, ?_, fun g hg => ?_, hfirst⟩
  · rw [hdropped, GapSpan.hull_eq_none, List.filterMap_eq_nil_iff]
    refine forall_congr' fun ev => imp_congr_right fun _ => ?_
    rw [← ev.lossSpan_isSome]
    simp
  · exact GapSpan.isHull_of_hull (hdropped.symm.trans hg)

/-- Over any capacity and any pushes, both rings. -/
theorem resume_ring_law (capacity : Nat) (xs : List (MarketEvent × String))
    (evs : List MarketEvent) :
    ((ClientRing.new capacity).pushAll xs).Retains capacity xs
      ∧ ((EventRing.new capacity).pushAll evs).Retains capacity evs :=
  ⟨retains_clientRing capacity xs, retains_eventRing capacity evs⟩

end Datamancer
