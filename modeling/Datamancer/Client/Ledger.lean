import Datamancer.Client.Sink

/-!
# Datamancer.Client.Ledger

What becomes of the events handed to a client's sink.

The events are numbered as they are handed in. Their `line` is what consumers have
accepted, then the eviction gaps the ring owes, then what the ring and the replay under
way hold, each entry either an event of that number or the gap of a run of evictions
that starts at that number. An event that is in the line no more was evicted, and the
line keeps a gap at its place that covers it, if it is one a gap can stand for. A gap
may itself be buffered and evicted again: it is absorbed by the gap its instrument is
owed then, which stands at the same place or before it.
-/

namespace Datamancer

/-! ### Entries -/

/-- The coordinates with which the ring files an evicted event. -/
def ringCoords (x : MarketEvent × String) : Option LossCoords := x.1.lossCoords fun _ => x.2

theorem ringCoords_isSome (x : MarketEvent × String) :
    (ringCoords x).isSome = (x.1.isData || x.1.isGap) := x.1.lossCoords_isSome _

inductive Entry
  | original (n : Nat) (x : MarketEvent × String)
  | eviction (n : Nat) (g : InstrumentGap)

namespace Entry

def idx : Entry → Nat
  | original n _ => n
  | eviction n _ => n

/-- What is handed to the sink for an entry. -/
def event : Entry → MarketEvent × String
  | original _ x => x
  | eviction _ g => (g.toEvent, g.provider)

/-- The number of an event that is itself in the line. -/
def original? : Entry → Option Nat
  | original n _ => some n
  | eviction _ _ => none

/-- The order of the line. The gaps of different instruments that one ring owes stand in
no particular order. -/
def Before : Entry → Entry → Prop
  | eviction m g, eviction n h => g.instrument = h.instrument → m < n
  | e, f => e.idx < f.idx

theorem Before.idx_lt_of_original {e : Entry} {n : Nat} {x : MarketEvent × String}
    (h : Before e (original n x)) : e.idx < n := by
  cases e <;> exact h

theorem Before.original_lt {e : Entry} {n : Nat} {x : MarketEvent × String}
    (h : Before (original n x) e) : n < e.idx := by
  cases e <;> exact h

/-- Two entries of one instrument stand in the order of their numbers. -/
theorem Before.idx_lt {e f : Entry} {c d : LossCoords} (h : Before e f)
    (he : ringCoords e.event = some c) (hf : ringCoords f.event = some d)
    (hinst : c.instrument = d.instrument) : e.idx < f.idx := by
  cases e with
  | original m x => exact h.original_lt
  | eviction m g =>
      cases f with
      | original n x => exact h.idx_lt_of_original
      | eviction n k =>
          obtain rfl := Option.some.inj he
          obtain rfl := Option.some.inj hf
          exact h hinst

/-- A gap of the instrument can take the place of an entry. -/
theorem Before.to_eviction {e f : Entry} {c : LossCoords} (h : Before e f)
    (hf : ringCoords f.event = some c) {g : InstrumentGap} (hg : g.instrument = c.instrument) :
    Before e (eviction f.idx g) := by
  cases e with
  | original m x => exact h.original_lt
  | eviction m k =>
      intro hk
      exact h.idx_lt rfl hf (hk.trans hg)

theorem Before.of_eviction {e f : Entry} {c : LossCoords} (h : Before f e)
    (hf : ringCoords f.event = some c) {g : InstrumentGap} (hg : g.instrument = c.instrument) :
    Before (eviction f.idx g) e := by
  cases e with
  | original m x => exact h.idx_lt_of_original
  | eviction m k =>
      intro hk
      exact h.idx_lt hf rfl (hg.symm.trans hk)

end Entry

/-- The entries of the gaps a ring owes. -/
def owes (drops : List (Nat × InstrumentGap)) : List Entry :=
  drops.map fun p => .eviction p.1 p.2

@[simp] theorem filterMap_original?_owes (drops : List (Nat × InstrumentGap)) :
    (owes drops).filterMap Entry.original? = [] := by
  induction drops with
  | nil => rfl
  | cons p drops ih => exact ih

/-- The gap `g`, standing at `m`, covers the event of number `n` at its place: no event
that is still in the line falls between them. -/
def CoveredBy (line : List Entry) (n : Nat) (c : LossCoords) (m : Nat) (g : InstrumentGap) : Prop :=
  .eviction m g ∈ line ∧ m ≤ n ∧ g.instrument = c.instrument ∧ g.span.Contains c.span ∧
  ∀ k x, .original k x ∈ line → k < m ∨ n < k

/-- The line of the events `handed` in, of which `lost` were evicted. -/
structure Line (handed : List (MarketEvent × String)) (line : List Entry) (lost : List Nat) :
    Prop where
  ordered : line.Pairwise Entry.Before
  original : ∀ n x, .original n x ∈ line → handed[n]? = some x
  /-- A gap starts at an evicted event of its instrument and carries its `seq`. -/
  eviction : ∀ n g, .eviction n g ∈ line → n ∈ lost ∧ ∃ x c, handed[n]? = some x ∧
    ringCoords x = some c ∧ x.1.seq = g.firstSeq ∧ c.instrument = g.instrument
  /-- Every event is in the line or evicted, and not both. -/
  partition : (line.filterMap Entry.original? ++ lost).Perm (List.range handed.length)
  covered : ∀ n ∈ lost, ∀ x c, handed[n]? = some x → ringCoords x = some c →
    ∃ m g, CoveredBy line n c m g

namespace Line

variable {handed : List (MarketEvent × String)} {line acc rest : List Entry} {lost : List Nat}
  {f : Entry}

theorem init : Line [] [] [] :=
  ⟨.nil, by simp, by simp, by simp, by simp⟩

theorem lt_length (h : Line handed line lost) {e : Entry} (he : e ∈ line) :
    e.idx < handed.length := by
  cases e with
  | original n x => exact (List.getElem?_eq_some_iff.mp (h.original n x he)).1
  | eviction n g =>
      obtain ⟨-, x, -, hx, -⟩ := h.eviction n g he
      exact (List.getElem?_eq_some_iff.mp hx).1

theorem getElem?_append_of_some {xs : List (MarketEvent × String)} {n : Nat}
    {x : MarketEvent × String} (h : xs[n]? = some x) (ys : List (MarketEvent × String)) :
    (xs ++ ys)[n]? = some x := by
  rw [List.getElem?_append_left (List.getElem?_eq_some_iff.mp h).1, h]

/-- One more event is handed in: it is the last of the line. -/
theorem handIn (h : Line handed line lost) (x : MarketEvent × String) :
    Line (handed ++ [x]) (line ++ [.original handed.length x]) lost := by
  have hlost : ∀ n ∈ lost, n < handed.length := by
    intro n hn
    have hmem := h.partition.mem_iff.mp (List.mem_append_right _ hn)
    exact List.mem_range.mp hmem
  refine ⟨?_, ?_, ?_, ?_, ?_⟩
  · refine List.pairwise_append.mpr ⟨h.ordered, List.pairwise_singleton _ _, ?_⟩
    intro e he b hb
    obtain rfl := List.mem_singleton.mp hb
    -- whatever stands in the line is of an event handed in before
    have hlt := h.lt_length he
    cases e <;> exact hlt
  · intro n y hn
    rcases List.mem_append.mp hn with hn | hn
    · exact getElem?_append_of_some (h.original n y hn) _
    · obtain ⟨rfl, rfl⟩ := Entry.original.inj (List.mem_singleton.mp hn)
      simp
  · intro n g hn
    rcases List.mem_append.mp hn with hn | hn
    · obtain ⟨hmem, y, c, hy, hrest⟩ := h.eviction n g hn
      exact ⟨hmem, y, c, getElem?_append_of_some hy _, hrest⟩
    · cases List.mem_singleton.mp hn
  · rw [List.filterMap_append, List.length_append, List.length_singleton, List.range_succ]
    have hswap : (line.filterMap Entry.original? ++ [handed.length] ++ lost).Perm
        ((line.filterMap Entry.original? ++ lost) ++ [handed.length]) := by
      rw [List.append_assoc, List.append_assoc]
      exact (List.perm_append_comm).append_left _
    exact hswap.trans (h.partition.append_right _)
  · intro n hn y c hy hc
    rw [List.getElem?_append_left (hlost n hn)] at hy
    obtain ⟨m, g, hmem, hle, hinst, hspan, horig⟩ := h.covered n hn y c hy hc
    refine ⟨m, g, List.mem_append_left _ hmem, hle, hinst, hspan, ?_⟩
    intro k z hk
    rcases List.mem_append.mp hk with hk | hk
    · exact horig k z hk
    · obtain ⟨rfl, -⟩ := Entry.original.inj (List.mem_singleton.mp hk)
      exact .inr (hlost n hn)

/-- An entry that is one of the events leaves the line as lost. -/
theorem partition_forget {l₁ l₂ : List Entry}
    (h : ((l₁ ++ f :: l₂).filterMap Entry.original? ++ lost).Perm (List.range handed.length)) :
    ((l₁ ++ l₂).filterMap Entry.original? ++ (f.original?.toList ++ lost)).Perm
      (List.range handed.length) := by
  refine List.Perm.trans ?_ h
  rw [List.filterMap_append, List.filterMap_append, List.filterMap_cons, ← List.append_assoc]
  refine List.Perm.append_right lost ?_
  cases f.original? with
  | none => simp
  | some n =>
      simp only [Option.toList_some, List.append_assoc]
      exact List.perm_append_comm.append_left _

/-- A control that no gap can stand for is evicted: it is gone. -/
theorem forget {l₁ l₂ : List Entry} (h : Line handed (l₁ ++ f :: l₂) lost)
    (hf : ringCoords f.event = none) :
    Line handed (l₁ ++ l₂) (f.original?.toList ++ lost) := by
  have hsub : ∀ e ∈ l₁ ++ l₂, e ∈ l₁ ++ f :: l₂ := by
    intro e he
    simp only [List.mem_append, List.mem_cons] at he ⊢
    exact he.imp_right .inr
  cases f with
  | eviction n g => cases hf
  | original n x =>
      refine ⟨?_, fun k y hk => h.original k y (hsub _ hk), ?_, partition_forget h.partition, ?_⟩
      · exact h.ordered.sublist ((List.sublist_cons_self _ _).append_left _)
      · intro k g hk
        obtain ⟨hmem, hrest⟩ := h.eviction k g (hsub _ hk)
        exact ⟨List.mem_append_right _ hmem, hrest⟩
      · intro k hk y c hy hc
        rcases List.mem_append.mp hk with hk | hk
        · obtain rfl : k = n := by simpa [Entry.original?] using hk
          have hx := h.original k x (by simp)
          rw [hx] at hy
          obtain rfl := Option.some.inj hy
          cases hf.symm.trans hc
        · obtain ⟨m, g, hmem, hrest⟩ := h.covered k hk y c hy hc
          have hmem' : Entry.eviction m g ∈ l₁ ++ l₂ := by simpa using hmem
          exact ⟨m, g, hmem', hrest.1, hrest.2.1, hrest.2.2.1,
            fun j z hj => hrest.2.2.2 j z (hsub _ hj)⟩

/-- An entry `f` of coordinates `c` is evicted, and the gap `g` of its instrument stands for
it: at its own place, or at that of the gap `s` which the ring owes for the instrument
already. -/
structure Evicts (handed : List (MarketEvent × String)) (acc rest : List Entry) (lost : List Nat)
    (drops : List (Nat × InstrumentGap)) (f s : Entry) (c cs : LossCoords) (g : InstrumentGap) :
    Prop where
  line : Line handed (acc ++ owes drops ++ f :: rest) lost
  evicted : ringCoords f.event = some c
  place : s = f ∨ s ∈ owes drops
  unique : ∀ p ∈ drops, p.2.instrument = c.instrument → s = .eviction p.1 p.2
  coords : ringCoords s.event = some cs
  same : cs.instrument = c.instrument
  instrument : g.instrument = c.instrument
  firstSeq : g.firstSeq = s.event.1.seq
  spans : ∀ e ce, e = f ∨ e ∈ owes drops → ringCoords e.event = some ce →
    ce.instrument = c.instrument → g.span.Contains ce.span

/-- The line with the new gap, and without what it takes in. -/
def replaced (acc rest : List Entry) (drops : List (Nat × InstrumentGap)) (s : Entry)
    (c : LossCoords) (g : InstrumentGap) : List Entry :=
  acc ++ owes ((s.idx, g) :: drops.filter fun p => p.2.instrument ≠ c.instrument) ++ rest

namespace Evicts

variable {drops : List (Nat × InstrumentGap)} {s : Entry} {c cs : LossCoords} {g : InstrumentGap}

theorem mem_old {e : Entry} (he : e ∈ replaced acc rest drops s c g) :
    e = .eviction s.idx g ∨ e ∈ acc ++ owes drops ++ f :: rest := by
  simp only [replaced, owes, List.map_cons, List.mem_append, List.mem_cons, List.mem_map] at he ⊢
  rcases he with (he | he | ⟨p, hp, rfl⟩) | he
  · exact .inr (.inl (.inl he))
  · exact .inl he
  · exact .inr (.inl (.inr ⟨p, List.mem_of_mem_filter hp, rfl⟩))
  · exact .inr (.inr (.inr he))

theorem mem_new : .eviction s.idx g ∈ replaced acc rest drops s c g := by
  simp [replaced, owes]

/-! ### The place of the new gap -/

theorem before (h : Evicts handed acc rest lost drops f s c cs g) :
    ∀ e ∈ acc, Entry.Before e (.eviction s.idx g) := by
  obtain ⟨hfront, -, hcross⟩ := List.pairwise_append.mp h.line.ordered
  obtain ⟨-, -, haccdrops⟩ := List.pairwise_append.mp hfront
  intro e he
  refine Entry.Before.to_eviction ?_ h.coords (h.instrument.trans h.same.symm)
  rcases h.place with rfl | hs
  · exact hcross e (List.mem_append_left _ he) s List.mem_cons_self
  · exact haccdrops e he s hs

theorem after (h : Evicts handed acc rest lost drops f s c cs g) :
    ∀ b ∈ rest, Entry.Before (.eviction s.idx g) b := by
  obtain ⟨-, hfrest, hcross⟩ := List.pairwise_append.mp h.line.ordered
  intro b hb
  refine Entry.Before.of_eviction ?_ h.coords (h.instrument.trans h.same.symm)
  rcases h.place with rfl | hs
  · exact (List.pairwise_cons.mp hfrest).1 b hb
  · exact hcross s (List.mem_append_right _ hs) b (List.mem_cons_of_mem _ hb)

theorem idx_le (h : Evicts handed acc rest lost drops f s c cs g) : s.idx ≤ f.idx := by
  obtain ⟨-, -, hcross⟩ := List.pairwise_append.mp h.line.ordered
  rcases h.place with rfl | hs
  · exact le_rfl
  · have hsf := hcross s (List.mem_append_right _ hs) f List.mem_cons_self
    exact (hsf.idx_lt h.coords h.evicted h.same).le

/-- No event of the new line falls between the new gap and what was evicted. -/
theorem apart (h : Evicts handed acc rest lost drops f s c cs g) {k : Nat}
    {x : MarketEvent × String} (hk : .original k x ∈ replaced acc rest drops s c g) :
    k < s.idx ∨ f.idx < k := by
  obtain ⟨-, hfrest, -⟩ := List.pairwise_append.mp h.line.ordered
  simp only [replaced, owes, List.map_cons, List.mem_append, List.mem_cons, List.mem_map] at hk
  rcases hk with (hk | hk | ⟨p, -, hp⟩) | hk
  · exact .inl (h.before _ hk).original_lt
  · cases hk
  · cases hp
  · exact .inr ((List.pairwise_cons.mp hfrest).1 _ hk).idx_lt_of_original

theorem ordered (h : Evicts handed acc rest lost drops f s c cs g) :
    (replaced acc rest drops s c g).Pairwise Entry.Before := by
  obtain ⟨hfront, hfrest, hcross⟩ := List.pairwise_append.mp h.line.ordered
  obtain ⟨hacc, hdrops, haccdrops⟩ := List.pairwise_append.mp hfront
  refine List.pairwise_append.mpr ⟨List.pairwise_append.mpr ⟨hacc, ?_, ?_⟩,
    (List.pairwise_cons.mp hfrest).2, ?_⟩
  · refine List.pairwise_cons.mpr ⟨?_, ?_⟩
    · intro b hb
      obtain ⟨p, hp, rfl⟩ := List.mem_map.mp hb
      intro hsame
      have hne : p.2.instrument ≠ c.instrument := by simpa using (List.mem_filter.mp hp).2
      exact absurd (hsame.symm.trans h.instrument) hne
    · exact hdrops.sublist (List.filter_sublist.map _)
  · intro e he b hb
    rcases List.mem_cons.mp hb with rfl | hb
    · exact h.before e he
    · refine haccdrops e he b ?_
      exact (List.filter_sublist.map _).subset hb
  · intro e he b hb
    rcases List.mem_append.mp he with he | he
    · exact hcross e (List.mem_append_left _ he) b (List.mem_cons_of_mem _ hb)
    · rcases List.mem_cons.mp he with rfl | he
      · exact h.after b hb
      · have hold := (List.filter_sublist.map _).subset he
        exact hcross e (List.mem_append_right _ hold) b (List.mem_cons_of_mem _ hb)

/-! ### What the gaps stand for -/

/-- The new gap starts where `s` did. -/
theorem starts (h : Evicts handed acc rest lost drops f s c cs g) :
    s.idx ∈ f.original?.toList ++ lost ∧ ∃ x d, handed[s.idx]? = some x ∧
      ringCoords x = some d ∧ x.1.seq = g.firstSeq ∧ d.instrument = g.instrument := by
  have hseq := h.firstSeq
  have hcoords := h.coords
  cases s with
  | original j x =>
      rcases h.place with rfl | hs
      · exact ⟨by simp [Entry.original?, Entry.idx], x, cs, h.line.original j x (by simp),
          hcoords, hseq.symm, h.same.trans h.instrument.symm⟩
      · obtain ⟨p, -, hp⟩ := List.mem_map.mp hs
        cases hp
  | eviction j k =>
      have hin : Entry.eviction j k ∈ acc ++ owes drops ++ f :: rest := by
        rcases h.place with rfl | hs
        · simp
        · simp [hs]
      obtain ⟨hj, x, d, hx, hd, hfirst, hdk⟩ := h.line.eviction j k hin
      obtain rfl := Option.some.inj hcoords
      exact ⟨List.mem_append_right _ hj, x, d, hx, hd, hfirst.trans hseq.symm,
        hdk.trans (h.same.trans h.instrument.symm)⟩

/-- A gap of the instrument among those of the ring is taken in by the new one. -/
theorem absorbs (h : Evicts handed acc rest lost drops f s c cs g) {m : Nat} {k : InstrumentGap}
    (hkc : k.instrument = c.instrument)
    (hwhere : Entry.eviction m k = f ∨ Entry.eviction m k ∈ owes drops) :
    g.span.Contains k.span ∧ s.idx ≤ m ∧ m ≤ f.idx := by
  obtain ⟨-, -, hcross⟩ := List.pairwise_append.mp h.line.ordered
  have hspan : g.span.Contains k.span :=
    h.spans (.eviction m k) ⟨k.instrument, k.span, k.provider⟩ hwhere rfl hkc
  refine ⟨hspan, ?_⟩
  have hle := h.idx_le
  rcases hwhere with heq | hmem
  · rw [← heq] at hle ⊢
    exact ⟨hle, le_rfl⟩
  · have hbefore := hcross _ (List.mem_append_right _ hmem) f List.mem_cons_self
    obtain ⟨p, hp, hpe⟩ := List.mem_map.mp hmem
    obtain ⟨rfl, rfl⟩ := Entry.eviction.inj hpe
    rw [h.unique p hp hkc]
    exact ⟨le_rfl, (hbefore.idx_lt rfl h.evicted hkc).le⟩

/-- A gap that is not taken in is still there. -/
theorem mem_of_not_absorbed (h : Evicts handed acc rest lost drops f s c cs g) {m : Nat}
    {k : InstrumentGap} (hk : .eviction m k ∈ acc ++ owes drops ++ f :: rest)
    (hnot : ¬ (k.instrument = c.instrument ∧
      (Entry.eviction m k = f ∨ Entry.eviction m k ∈ owes drops))) :
    .eviction m k ∈ replaced acc rest drops s c g := by
  simp only [List.mem_append, List.mem_cons] at hk
  rcases hk with (hk | hk) | hk | hk
  · simp [replaced, hk]
  · obtain ⟨p, hp, hpe⟩ := List.mem_map.mp hk
    obtain ⟨rfl, rfl⟩ := Entry.eviction.inj hpe
    have hne : p.2.instrument ≠ c.instrument := fun hpc => hnot ⟨hpc, .inr hk⟩
    have hin : p ∈ drops.filter fun p => p.2.instrument ≠ c.instrument :=
      List.mem_filter.mpr ⟨hp, by simpa using hne⟩
    simp only [replaced, owes, List.map_cons, List.mem_append, List.mem_cons, List.mem_map]
    exact .inl (.inr (.inr ⟨p, hin, rfl⟩))
  · have hf := h.evicted
    rw [← hk] at hf
    obtain rfl := Option.some.inj hf
    exact absurd ⟨rfl, .inl hk⟩ hnot
  · simp [replaced, hk]

/-- The event that is evicted now is covered by the new gap. -/
theorem covers_evicted (h : Evicts handed acc rest lost drops f s c cs g) {n : Nat}
    (hn : n ∈ f.original?.toList) {x : MarketEvent × String} {d : LossCoords}
    (hx : handed[n]? = some x) (hd : ringCoords x = some d) :
    CoveredBy (replaced acc rest drops s c g) n d s.idx g := by
  have hle := h.idx_le
  have hevicted := h.evicted
  have hspan := h.spans f c (.inl rfl) hevicted rfl
  have hapart := @h.apart
  cases f with
  | eviction j k => simp [Entry.original?] at hn
  | original j y =>
      obtain rfl : n = j := by simpa [Entry.original?] using hn
      rw [h.line.original n y (by simp)] at hx
      obtain rfl := Option.some.inj hx
      obtain rfl := Option.some.inj (hevicted.symm.trans hd)
      exact ⟨mem_new, hle, h.instrument, hspan, fun k x hk => hapart hk⟩

/-- An event lost before is covered by the gap that covered it, or by the one that took it
in. -/
theorem covers_lost (h : Evicts handed acc rest lost drops f s c cs g) {n m : Nat}
    {d : LossCoords} {k : InstrumentGap}
    (hcovered : CoveredBy (acc ++ owes drops ++ f :: rest) n d m k) :
    ∃ m' g', CoveredBy (replaced acc rest drops s c g) n d m' g' := by
  obtain ⟨hk, hmn, hki, hks, horig⟩ := hcovered
  have hold : ∀ j z, .original j z ∈ replaced acc rest drops s c g → j < m ∨ n < j := fun j z hj =>
    horig j z ((mem_old hj).resolve_left fun hsame => (by cases hsame))
  by_cases hsame : k.instrument = c.instrument ∧
      (Entry.eviction m k = f ∨ Entry.eviction m k ∈ owes drops)
  · obtain ⟨hcontains, hsm, hmf⟩ := h.absorbs hsame.1 hsame.2
    refine ⟨s.idx, g, mem_new, hsm.trans hmn, h.instrument.trans (hsame.1.symm.trans hki),
      hcontains.trans hks, fun j z hj => ?_⟩
    rcases hold j z hj with hlt | hlt
    · exact (h.apart hj).imp_right fun hfj => by omega
    · exact .inr hlt
  · exact ⟨m, k, h.mem_of_not_absorbed hk hsame, hmn, hki, hks, hold⟩

theorem toLine (h : Evicts handed acc rest lost drops f s c cs g) :
    Line handed (replaced acc rest drops s c g) (f.original?.toList ++ lost) := by
  refine ⟨h.ordered, fun n x hn => ?_, fun n k hn => ?_, ?_, fun n hn x d hx hd => ?_⟩
  · exact h.line.original n x ((mem_old hn).resolve_left fun hsame => (by cases hsame))
  · rcases mem_old hn with hn | hn
    · obtain ⟨rfl, rfl⟩ := Entry.eviction.inj hn
      exact h.starts
    · obtain ⟨hlost, hrest⟩ := h.line.eviction n k hn
      exact ⟨List.mem_append_right _ hlost, hrest⟩
  · have hpart := partition_forget h.line.partition
    simp only [replaced, List.filterMap_append, filterMap_original?_owes] at hpart ⊢
    exact hpart
  · rcases List.mem_append.mp hn with hn | hn
    · exact ⟨s.idx, g, h.covers_evicted hn hx hd⟩
    · obtain ⟨m, k, hcovered⟩ := h.line.covered n hn x d hx hd
      exact h.covers_lost hcovered

end Evicts

/-- The gaps a ring owes may be listed in any order. -/
theorem permute {drops drops' : List (Nat × InstrumentGap)} {lost : List Nat}
    (h : Line handed (acc ++ owes drops ++ rest) lost) (hperm : drops'.Perm drops)
    (hdistinct : (drops.map fun p => p.2.instrument).Nodup) :
    Line handed (acc ++ owes drops' ++ rest) lost := by
  have howes : (owes drops').Perm (owes drops) := hperm.map _
  have hmem : ∀ e, e ∈ acc ++ owes drops' ++ rest ↔ e ∈ acc ++ owes drops ++ rest := by
    intro e
    simp only [List.mem_append, howes.mem_iff]
  obtain ⟨hfront, hrest, hcross⟩ := List.pairwise_append.mp h.ordered
  obtain ⟨hacc, -, haccdrops⟩ := List.pairwise_append.mp hfront
  refine ⟨?_, fun n x hn => h.original n x ((hmem _).mp hn),
    fun n g hn => h.eviction n g ((hmem _).mp hn), ?_, ?_⟩
  · refine List.pairwise_append.mpr ⟨List.pairwise_append.mpr ⟨hacc, ?_, ?_⟩, hrest, ?_⟩
    · have hdistinct' : (drops'.map fun p => p.2.instrument).Nodup :=
        (hperm.map _).nodup_iff.mpr hdistinct
      refine List.pairwise_map.mpr ?_
      refine (List.pairwise_map.mp hdistinct').imp ?_
      intro p q hne hsame
      exact absurd hsame hne
    · intro e he b hb
      exact haccdrops e he b (howes.mem_iff.mp hb)
    · intro e he b hb
      refine hcross e ?_ b hb
      simpa only [List.mem_append, howes.mem_iff] using he
  · simpa only [List.filterMap_append, filterMap_original?_owes] using h.partition
  · intro n hn x c hx hc
    obtain ⟨m, g, hg, hrest⟩ := h.covered n hn x c hx hc
    exact ⟨m, g, (hmem _).mpr hg, hrest.1, hrest.2.1, hrest.2.2.1,
      fun k z hk => hrest.2.2.2 k z ((hmem _).mp hk)⟩

end Line

/-! ### The account of a sink -/

namespace ClientOutput

/-- The gaps the ring owes. -/
def gapRecords (o : ClientOutput) : List InstrumentGap := o.ring.elim [] ClientRing.gaps

end ClientOutput

/-- The line of a sink's events: what consumer channels have accepted, the gaps its ring
owes, what its ring holds and what is being replayed. -/
structure Ledger (handed : List (MarketEvent × String)) (o : ClientOutput) (acc : List Entry)
    (drops : List (Nat × InstrumentGap)) (buf todo : List Entry) (lost : List Nat) : Prop where
  accepted : o.accepted = acc.map fun e => e.event.1
  owed : drops.map Prod.snd = o.gapRecords
  buffered : buf.map Entry.event = o.buffered
  replay : todo.map Entry.event = o.replay
  line : Line handed (acc ++ owes drops ++ (buf ++ todo)) lost

/-- The records of the gaps owed after one more eviction: that of its instrument is new,
or it has grown. -/
theorem gaps_noteDrop (r : ClientRing) {x : MarketEvent × String} {c : LossCoords}
    (hc : ringCoords x = some c) :
    ∃ g, (ClientRing.mk r.ring (noteDrop r.dropped x)).gaps =
        g :: r.gaps.filter (fun k => k.instrument ≠ c.instrument) ∧
      g.instrument = c.instrument ∧ g.span.Contains c.span ∧
      ((∀ k ∈ r.gaps, k.instrument ≠ c.instrument) ∧ g.firstSeq = x.1.seq ∨
        ∃ k ∈ r.gaps, k.instrument = c.instrument ∧ g.firstSeq = k.firstSeq ∧
          g.span.Contains k.span) := by
  have hfilter : (r.dropped.entries.filter fun e => e.1 ≠ c.instrument).map
        (fun e => (⟨e.2.firstSeq, e.1, e.2.span, e.2.provider⟩ : InstrumentGap)) =
      r.gaps.filter fun k => k.instrument ≠ c.instrument := by
    rw [ClientRing.gaps, List.filter_map]
    rfl
  unfold noteDrop
  have hcoords : x.1.lossCoords (fun _ => x.2) = some c := hc
  cases hd : r.dropped.lookup c.instrument with
  | none =>
      refine ⟨⟨x.1.seq, c.instrument, c.span, c.provider⟩, ?_, rfl, .refl _, .inl ⟨?_, rfl⟩⟩
      · simp only [hcoords, hd, ClientRing.gaps, AList.entries_insert_eq_filter, List.map_cons]
        rw [hfilter]
        rfl
      -- a record of the instrument would be an entry of the map
      · intro k hk heq
        obtain ⟨e, he, rfl⟩ := List.mem_map.mp hk
        have hkeys : c.instrument ∈ r.dropped.keys := by
          have hmem := List.mem_keys_of_mem he
          rwa [show e.1 = c.instrument from heq] at hmem
        exact absurd hkeys (AList.lookup_eq_none.mp hd)
  | some d =>
      refine ⟨⟨d.firstSeq, c.instrument, d.span.absorb c.span, d.provider⟩, ?_, rfl,
        GapSpan.absorb_contains_right _ _, .inr ⟨⟨d.firstSeq, c.instrument, d.span, d.provider⟩,
          ?_, rfl, rfl, GapSpan.absorb_contains_left _ _⟩⟩
      · simp only [hcoords, hd, ClientRing.gaps, AList.entries_insert_eq_filter, List.map_cons]
        rw [hfilter]
        rfl
      · exact List.mem_map.mpr ⟨⟨c.instrument, d⟩, AList.mem_lookup_iff.mp hd, rfl⟩

theorem nodup_gaps (r : ClientRing) : (r.gaps.map InstrumentGap.instrument).Nodup := by
  rw [ClientRing.gaps, List.map_map]
  exact r.dropped.nodupKeys

namespace Ledger

variable {handed : List (MarketEvent × String)} {o o' : ClientOutput} {acc : List Entry}
  {drops : List (Nat × InstrumentGap)} {buf todo : List Entry} {lost : List Nat}

/-- The front of the ring is evicted. -/
theorem evictFront {r : ClientRing} {f : Entry} {rest : List Entry}
    (hline : Line handed (acc ++ owes drops ++ f :: rest) lost)
    (howed : drops.map Prod.snd = r.gaps) :
    ∃ drops' lost', drops'.map Prod.snd = (ClientRing.mk r.ring (noteDrop r.dropped f.event)).gaps ∧
      Line handed (acc ++ owes drops' ++ rest) lost' := by
  cases hc : ringCoords f.event with
  | none =>
      refine ⟨drops, _, ?_, hline.forget hc⟩
      have hcoords : f.event.1.lossCoords (fun _ => f.event.2) = none := hc
      simp only [noteDrop, hcoords]
      exact howed
  | some c =>
      obtain ⟨g, hgaps, hinst, hspan, hcase⟩ := gaps_noteDrop r hc
      have hrecord : ∀ p ∈ drops, p.2 ∈ r.gaps := fun p hp => howed ▸ List.mem_map_of_mem hp
      -- one record for each instrument
      have hone : ∀ k ∈ r.gaps, ∀ k' ∈ r.gaps, k.instrument = k'.instrument → k = k' :=
        fun k hk k' hk' heq => List.inj_on_of_nodup_map (nodup_gaps r) hk hk' heq
      have howed' : ∀ i : Nat, (((i, g) :: drops.filter fun p =>
          p.2.instrument ≠ c.instrument).map Prod.snd) =
          (ClientRing.mk r.ring (noteDrop r.dropped f.event)).gaps := by
        intro i
        rw [hgaps, List.map_cons, ← howed, List.filter_map]
        rfl
      -- the new gap spans the event, and the records it takes in
      have hspans : (∀ p ∈ drops, p.2.instrument = c.instrument → g.span.Contains p.2.span) →
          ∀ e ce, e = f ∨ e ∈ owes drops → ringCoords e.event = some ce →
            ce.instrument = c.instrument → g.span.Contains ce.span := by
        intro hold e ce he hce heq
        rcases he with rfl | he
        · obtain rfl := Option.some.inj (hc.symm.trans hce)
          exact hspan
        · obtain ⟨p, hp, rfl⟩ := List.mem_map.mp he
          obtain rfl := Option.some.inj hce
          exact hold p hp heq
      rcases hcase with ⟨hnew, hseq⟩ | ⟨k, hk, hki, hseq, hks⟩
      · have hevicts : Line.Evicts handed acc rest lost drops f f c c g := by
          refine ⟨hline, hc, .inl rfl, ?_, hc, rfl, hinst, hseq,
            hspans fun p hp hpc => absurd hpc (hnew p.2 (hrecord p hp))⟩
          intro p hp hpc
          exact absurd hpc (hnew p.2 (hrecord p hp))
        exact ⟨_, _, howed' f.idx, hevicts.toLine⟩
      · obtain ⟨q, hq, hqk⟩ : ∃ q ∈ drops, q.2 = k := by
          rw [← howed] at hk
          exact List.mem_map.mp hk
        subst hqk
        have hevicts : Line.Evicts handed acc rest lost drops f (.eviction q.1 q.2) c
            ⟨q.2.instrument, q.2.span, q.2.provider⟩ g := by
          refine ⟨hline, hc, .inr (List.mem_map_of_mem hq), ?_, rfl, hki, hinst, hseq, hspans ?_⟩
          · intro p hp hpc
            have hnodup : (drops.map fun p => p.2.instrument).Nodup := by
              have hgapsNodup := nodup_gaps r
              rwa [← howed, List.map_map] at hgapsNodup
            rw [List.inj_on_of_nodup_map hnodup hp hq (hpc.trans hki.symm)]
          · intro p hp hpc
            rw [hone p.2 (hrecord p hp) q.2 hk (hpc.trans hki.symm)]
            exact hks
        exact ⟨_, _, howed' q.1, hevicts.toLine⟩

/-- The next event of the replay goes into the ring. -/
theorem pushRing {r : ClientRing} {e : Entry} (haccepted : o'.accepted = acc.map fun e => e.event.1)
    (howed : drops.map Prod.snd = r.gaps) (hbuffered : buf.map Entry.event = r.ring.buf)
    (hreplay : todo.map Entry.event = o'.replay) (hring : o'.ring = some (r.push e.event).1)
    (hline : Line handed (acc ++ owes drops ++ (buf ++ e :: todo)) lost) :
    ∃ drops' buf' lost', Ledger handed o' acc drops' buf' todo lost' := by
  have hgaps : o'.gapRecords = (r.push e.event).1.gaps := by
    rw [ClientOutput.gapRecords, hring]
    rfl
  have hbuf : o'.buffered = (r.ring.push e.event).buf := by
    rw [ClientOutput.buffered, hring]
    rfl
  rcases r.ring.push_cases e.event with ⟨b, rest, hb, hev, hpush⟩ | ⟨hev, hpush, -⟩
  · obtain ⟨f, buf', rfl, rfl, hrest⟩ := List.map_eq_cons_iff.mp (hbuffered.trans hb)
    have hfront : Line handed (acc ++ owes drops ++ f :: (buf' ++ e :: todo)) lost := hline
    obtain ⟨drops', lost', howed', hline'⟩ := evictFront hfront howed
    refine ⟨drops', buf' ++ [e], lost', haccepted, ?_, ?_, hreplay, by simpa using hline'⟩
    · rw [hgaps, howed']
      simp only [ClientRing.push, hev]
      rfl
    · rw [hbuf, hpush, List.map_append, hrest]
      rfl
  · refine ⟨drops, buf ++ [e], lost, haccepted, ?_, ?_, hreplay, by simpa using hline⟩
    · rw [hgaps, howed]
      simp only [ClientRing.push, hev]
      rfl
    · rw [hbuf, hpush, List.map_append, hbuffered]
      rfl

/-- Without a ring nothing is owed and nothing is buffered. -/
theorem of_attached {tx : Channel MarketEvent} (h : Ledger handed o acc drops buf todo lost)
    (hsink : o.sink = .attached tx) : drops = [] ∧ buf = [] := by
  have howed := h.owed
  have hbuf := h.buffered
  simp only [ClientOutput.gapRecords, ClientOutput.buffered, ClientOutput.ring, hsink,
    Option.elim_none, List.map_eq_nil_iff] at howed hbuf
  exact ⟨howed, hbuf⟩

theorem of_detached {r : ClientRing} (h : Ledger handed o acc drops buf todo lost)
    (hsink : o.sink = .detached r) :
    drops.map Prod.snd = r.gaps ∧ buf.map Entry.event = r.ring.buf := by
  have howed := h.owed
  have hbuf := h.buffered
  simp only [ClientOutput.gapRecords, ClientOutput.buffered, ClientOutput.ring, hsink,
    Option.elim_some] at howed hbuf
  exact ⟨howed, hbuf⟩

theorem accepted_attached {tx : Channel MarketEvent} (hsink : o.sink = .attached tx) :
    o.accepted = o.former.flatMap Channel.accepted ++ tx.accepted := by
  simp [ClientOutput.accepted, ClientOutput.streams, hsink]

theorem accepted_detached {r : ClientRing} (hsink : o.sink = .detached r) :
    o.accepted = o.former.flatMap Channel.accepted := by
  simp [ClientOutput.accepted, ClientOutput.streams, hsink]

/-- A permutation of the values of a list comes from one of the list. -/
theorem exists_perm_map {α β : Type*} {f : α → β} {ys zs : List β} (h : ys.Perm zs) :
    ∀ {xs : List α}, xs.map f = ys → ∃ xs' : List α, xs'.Perm xs ∧ xs'.map f = zs := by
  induction h with
  | nil => exact fun {xs} hxs => ⟨xs, .refl xs, hxs⟩
  | cons y _ ih =>
      intro xs hxs
      obtain ⟨a, as, rfl, rfl, has⟩ := List.map_eq_cons_iff.mp hxs
      obtain ⟨bs, hperm, hbs⟩ := ih has
      exact ⟨a :: bs, hperm.cons a, by rw [List.map_cons, hbs]⟩
  | swap y z l =>
      intro xs hxs
      obtain ⟨a, as, rfl, rfl, has⟩ := List.map_eq_cons_iff.mp hxs
      obtain ⟨b, bs, rfl, rfl, rfl⟩ := List.map_eq_cons_iff.mp has
      exact ⟨b :: a :: bs, .swap a b bs, rfl⟩
  | trans _ _ ih₁ ih₂ =>
      intro xs hxs
      obtain ⟨as, has, hmap⟩ := ih₁ hxs
      obtain ⟨bs, hbs, hmap'⟩ := ih₂ hmap
      exact ⟨bs, hbs.trans has, hmap'⟩

/-- Every step keeps the account. -/
theorem step {a : SinkAction} (h : Ledger handed o acc drops buf todo lost)
    (hstep : o.step a = some o') :
    ∃ acc' drops' buf' todo' lost',
      Ledger (handed ++ handedIn [a]) o' acc' drops' buf' todo' lost' := by
  cases ClientOutput.step_cases hstep with
  | @deliver x hidle =>
      obtain rfl : todo = [] := by
        have hreplay := h.replay
        rw [hidle] at hreplay
        exact List.map_eq_nil_iff.mp hreplay
      refine ⟨acc, drops, buf, [.original handed.length x], lost, h.accepted, h.owed, h.buffered,
        rfl, ?_⟩
      have hline := h.line.handIn x
      rw [List.append_nil, List.append_assoc] at hline
      exact hline
  | @send x replay tx tx' hreplay hsink hsend =>
      obtain ⟨rfl, rfl⟩ := h.of_attached hsink
      obtain ⟨e, todo', rfl, rfl, htodo⟩ := List.map_eq_cons_iff.mp (h.replay.trans hreplay)
      refine ⟨acc ++ [e], [], [], todo', lost, ?_, rfl, rfl, htodo, ?_⟩
      · rw [accepted_attached rfl, List.map_append, ← h.accepted, accepted_attached hsink,
          Channel.accepted_sent hsend, List.append_assoc]
        rfl
      · simpa [handedIn, owes] using h.line
  -- the event that the closed channel refused is the first of the new ring
  | @detach x replay tx hreplay hsink hsend =>
      obtain ⟨rfl, rfl⟩ := h.of_attached hsink
      obtain ⟨e, todo', rfl, rfl, htodo⟩ := List.map_eq_cons_iff.mp (h.replay.trans hreplay)
      have haccepted : ({ o with replay, former := o.former ++ [tx] }.pushRing
          (.new o.ringCapacity) e.event).accepted = acc.map fun e => e.event.1 := by
        rw [← h.accepted, accepted_attached hsink, accepted_detached rfl]
        simp [ClientOutput.pushRing]
      have hline : Line handed (acc ++ owes [] ++ ([] ++ e :: todo')) lost := h.line
      obtain ⟨drops', buf', lost', hledger⟩ :=
        pushRing (r := .new o.ringCapacity) haccepted rfl rfl htodo rfl hline
      exact ⟨acc, drops', buf', todo', lost', by simpa [handedIn] using hledger⟩
  | @push x replay r hreplay hsink =>
      obtain ⟨howed, hbuf⟩ := h.of_detached hsink
      obtain ⟨e, todo', rfl, rfl, htodo⟩ := List.map_eq_cons_iff.mp (h.replay.trans hreplay)
      have haccepted : ({ o with replay }.pushRing r e.event).accepted =
          acc.map fun e => e.event.1 := by
        rw [← h.accepted, accepted_detached hsink, accepted_detached rfl]
        rfl
      obtain ⟨drops', buf', lost', hledger⟩ := pushRing haccepted howed hbuf htodo rfl h.line
      exact ⟨acc, drops', buf', todo', lost', by simpa [handedIn] using hledger⟩
  | taken hidle hsink hopen =>
      exact ⟨acc, drops, buf, todo, lost, by simpa [handedIn] using h⟩
  | @attach gaps tx hidle hsink hclosed =>
      obtain ⟨rfl, rfl⟩ := h.of_attached hsink
      refine ⟨acc, [], [], todo, lost, ?_, rfl, rfl, h.replay, by simpa [handedIn] using h.line⟩
      rw [← h.accepted, accepted_attached hsink, accepted_attached rfl]
      simp
  | @flush gaps r hidle hsink hgaps =>
      obtain ⟨howed, hbuf⟩ := h.of_detached hsink
      obtain rfl : todo = [] := by
        have hreplay := h.replay
        rw [hidle] at hreplay
        exact List.map_eq_nil_iff.mp hreplay
      -- the gaps are listed in any order of the map, and no two of them are of one instrument
      obtain ⟨drops', hperm, hmap⟩ := exists_perm_map hgaps.1.symm howed
      have hnodup : (drops.map fun p => p.2.instrument).Nodup := by
        have hgapsNodup := nodup_gaps r
        rwa [← howed, List.map_map] at hgapsNodup
      have hline := h.line.permute hperm hnodup
      refine ⟨acc, [], [], owes drops' ++ buf, lost, ?_, rfl, rfl, ?_, ?_⟩
      · rw [← h.accepted, accepted_detached hsink, accepted_attached rfl]
        simp
      · rw [List.map_append, hbuf, ← hmap]
        simp [owes, Entry.event]
      · simpa [handedIn, owes] using hline
  | @consume tx tx' hsink hrecv =>
      obtain ⟨rfl, rfl⟩ := h.of_attached hsink
      refine ⟨acc, [], [], todo, lost, ?_, rfl, rfl, h.replay, by simpa [handedIn] using h.line⟩
      rw [← h.accepted, accepted_attached hsink, accepted_attached rfl,
        Channel.accepted_recv hrecv]
  | @dropStream tx hsink hopen =>
      obtain ⟨rfl, rfl⟩ := h.of_attached hsink
      refine ⟨acc, [], [], todo, lost, ?_, rfl, rfl, h.replay, by simpa [handedIn] using h.line⟩
      rw [← h.accepted, accepted_attached hsink, accepted_attached rfl]
      rfl

theorem init (ringCapacity buffer : Nat) :
    Ledger [] (.init ringCapacity buffer) [] [] [] [] [] := ⟨rfl, rfl, rfl, rfl, .init⟩

theorem of_run {ringCapacity buffer : Nat} {as : List SinkAction}
    (h : ActionSystem.run ClientOutput.step (.init ringCapacity buffer) as = some o) :
    ∃ acc drops buf todo lost, Ledger (handedIn as) o acc drops buf todo lost := by
  refine ActionSystem.history_invariant (P := fun past o =>
    ∃ acc drops buf todo lost, Ledger (handedIn past) o acc drops buf todo lost) [] ?_ ?_ h
  · intro past o a o' hP hstep
    obtain ⟨acc, drops, buf, todo, lost, hledger⟩ := hP
    rw [handedIn_append]
    exact hledger.step hstep
  · exact ⟨[], [], [], [], [], .init ringCapacity buffer⟩

end Ledger

/-! ### The fate of every event -/

theorem mem_originals {line : List Entry} {n : Nat} :
    n ∈ line.filterMap Entry.original? ↔ ∃ x, .original n x ∈ line := by
  rw [List.mem_filterMap]
  refine ⟨?_, ?_⟩
  · intro h
    obtain ⟨e, he, hn⟩ := h
    cases e with
    | original k x =>
        obtain rfl := Option.some.inj hn
        exact ⟨x, he⟩
    | eviction k g => cases hn
  · intro h
    obtain ⟨x, hx⟩ := h
    exact ⟨_, hx, rfl⟩

namespace ClientOutput

/-- An event is accepted, held or evicted, one of the three. -/
def OneFate (accepted held evicted : Prop) : Prop :=
  (accepted ∧ ¬ held ∧ ¬ evicted) ∨ (¬ accepted ∧ held ∧ ¬ evicted) ∨
    (¬ accepted ∧ ¬ held ∧ evicted)

theorem oneFate_of_line {handed : List (MarketEvent × String)} {acc rest : List Entry}
    {drops : List (Nat × InstrumentGap)} {lost : List Nat}
    (h : Line handed (acc ++ owes drops ++ rest) lost) {n : Nat} {x : MarketEvent × String}
    (hx : handed[n]? = some x) :
    OneFate (.original n x ∈ acc) (.original n x ∈ rest) (n ∈ lost) := by
  have hpart := h.partition
  rw [List.filterMap_append, List.filterMap_append, filterMap_original?_owes,
    List.append_nil] at hpart
  have hnodup := hpart.nodup_iff.mpr List.nodup_range
  have hmem := hpart.mem_iff.mpr
    (List.mem_range.mpr (List.getElem?_eq_some_iff.mp hx).1)
  obtain ⟨hline, -, hlost⟩ := List.nodup_append.mp hnodup
  obtain ⟨-, -, hrest⟩ := List.nodup_append.mp hline
  -- an entry of that number is the event
  have hself : ∀ {l : List Entry}, (∀ e ∈ l, e ∈ acc ++ owes drops ++ rest) →
      n ∈ l.filterMap Entry.original? → .original n x ∈ l := by
    intro l hl hn
    obtain ⟨y, hy⟩ := mem_originals.mp hn
    obtain rfl := Option.some.inj ((h.original n y (hl _ hy)).symm.trans hx)
    exact hy
  have hnum : ∀ {l : List Entry}, .original n x ∈ l → n ∈ l.filterMap Entry.original? :=
    fun hl => mem_originals.mpr ⟨x, hl⟩
  rcases List.mem_append.mp hmem with hn | hn
  · rcases List.mem_append.mp hn with hacc | hheld
    · refine .inl ⟨hself (fun e he => by simp [he]) hacc, ?_, ?_⟩
      · intro hr
        exact hrest n hacc n (hnum hr) rfl
      · intro hl
        exact hlost n hn n hl rfl
    · refine .inr (.inl ⟨?_, hself (fun e he => by simp [he]) hheld, ?_⟩)
      · intro ha
        exact hrest n (hnum ha) n hheld rfl
      · intro hl
        exact hlost n hn n hl rfl
  · refine .inr (.inr ⟨?_, ?_, hn⟩)
    · intro ha
      exact hlost n (List.mem_append_left _ (hnum ha)) n hn rfl
    · intro hr
      exact hlost n (List.mem_append_right _ (hnum hr)) n hn rfl

/-- Every event handed to `deliver` has one fate. It is accepted by a consumer channel,
or held, or evicted; and an evicted data event or `Gap` is covered by a gap the ring
owes, or one made of it, which stands at its place among the events that survive it. -/
theorem deliver_accounted {ringCapacity buffer : Nat} {as : List SinkAction} {o : ClientOutput}
    (h : ActionSystem.run step (init ringCapacity buffer) as = some o) :
    ∃ acc drops buf todo lost, Ledger (handedIn as) o acc drops buf todo lost ∧
      (∀ n x, (handedIn as)[n]? = some x →
        OneFate (.original n x ∈ acc) (.original n x ∈ buf ++ todo) (n ∈ lost)) ∧
      (∀ n x, (handedIn as)[n]? = some x → n ∈ lost → x.1.isData ∨ x.1.isGap →
        ∃ c m g, ringCoords x = some c ∧
          CoveredBy (acc ++ owes drops ++ (buf ++ todo)) n c m g) ∧
      ∀ m g l₁ l₂, acc ++ owes drops ++ (buf ++ todo) = l₁ ++ .eviction m g :: l₂ →
        (∀ n x, .original n x ∈ l₁ → n < m) ∧ ∀ n x, .original n x ∈ l₂ → m < n := by
  obtain ⟨acc, drops, buf, todo, lost, hledger⟩ := Ledger.of_run h
  have hline := hledger.line
  refine ⟨acc, drops, buf, todo, lost, hledger, fun n x hx => oneFate_of_line hline hx, ?_, ?_⟩
  · intro n x hx hn hkind
    have hsome : (ringCoords x).isSome = true := by
      rw [ringCoords_isSome]
      simpa using hkind
    obtain ⟨c, hc⟩ := Option.isSome_iff_exists.mp hsome
    obtain ⟨m, g, hcov⟩ := hline.covered n hn x c hx hc
    exact ⟨c, m, g, hc, hcov⟩
  · intro m g l₁ l₂ hsplit
    have hordered := hline.ordered
    rw [hsplit] at hordered
    obtain ⟨-, hright, hcross⟩ := List.pairwise_append.mp hordered
    refine ⟨fun n x hn => ?_, fun n x hn => ?_⟩
    · exact (hcross _ hn _ List.mem_cons_self).original_lt
    · exact ((List.pairwise_cons.mp hright).1 _ hn).idx_lt_of_original

/-- A ring of one: the first trade is evicted, its gap reaches the consumer, and the
consumer goes before the second does. -/
def nestedRun : List SinkAction :=
  [.deliver (testTrade "AAPL" 100 ⟨0⟩, "p"), .proceed,
    .deliver (testTrade "AAPL" 200 ⟨1⟩, "p"), .proceed,
    .take [⟨⟨0⟩, ⟨"p", .equity, "AAPL"⟩, ⟨100, Timestamp.saturatingSucc 100⟩, "p"⟩],
    .proceed, .dropStream, .proceed]

theorem deliver_accounted_nested : ∃ o,
    ActionSystem.run step (init 1 1024) nestedRun = some o ∧
    o.accepted = [.control ⟨100, 100, ⟨0⟩,
      .gap "p" ⟨"p", .equity, "AAPL"⟩ ⟨100, Timestamp.saturatingSucc 100⟩⟩] ∧
    o.buffered = [(testTrade "AAPL" 200 ⟨1⟩, "p")] ∧
    ∃ acc drops buf todo lost, Ledger [(testTrade "AAPL" 100 ⟨0⟩, "p"),
      (testTrade "AAPL" 200 ⟨1⟩, "p")] o acc drops buf todo lost := by
  have hstate : ∃ o, ActionSystem.run step (init 1 1024) nestedRun = some o ∧
      o.accepted = [.control ⟨100, 100, ⟨0⟩,
        .gap "p" ⟨"p", .equity, "AAPL"⟩ ⟨100, Timestamp.saturatingSucc 100⟩⟩] ∧
      o.buffered = [(testTrade "AAPL" 200 ⟨1⟩, "p")] := ⟨_, rfl, rfl, rfl⟩
  obtain ⟨o, hrun, haccepted, hbuffered⟩ := hstate
  refine ⟨o, hrun, haccepted, hbuffered, ?_⟩
  obtain ⟨acc, drops, buf, todo, lost, hledger, -⟩ := deliver_accounted hrun
  exact ⟨acc, drops, buf, todo, lost, hledger⟩

/-- A connection control in a ring of one is gone without a trace once a trade is
buffered after it. -/
theorem not_accounted_connection_control : ∃ o x,
    ActionSystem.run step (init 1 1024)
      [.deliver x, .proceed, .deliver (testTrade "AAPL" 100 ⟨1⟩, "p"), .proceed] = some o ∧
    x.1 ∉ o.accepted ∧ x ∉ o.buffered ∧ x ∉ o.replay ∧ o.gapRecords = [] ∧
    ∀ y ∈ o.buffered ++ o.replay, y.1.isGap = false := by
  refine ⟨_, (.control ⟨0, 0, ⟨0⟩, .providerConnected "p"⟩, "p"), rfl, ?_⟩
  decide

end ClientOutput

end Datamancer
