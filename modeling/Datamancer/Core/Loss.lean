import Datamancer.Core.Event

/-!
# Datamancer.Core.Loss

What losing an event costs, as every bounded buffer of the live path counts it: a
data event counts as the instant `[ts, ts+1)` of its instrument, a `Gap` control as
the span it reports, and any other control as nothing. Several losses are one span,
their hull.

Three buffers keep this account, each with its own extra data: the gap owed to a
fan-out referrer, the per-client ring and the session ring.
-/

namespace Datamancer

/-! ### Hulls of spans -/

namespace GapSpan

/-- Extend a span to the hull with another (`absorb`, and the ring's `note_drop`). -/
def absorb (g h : GapSpan) : GapSpan :=
  ⟨min g.fromSourceTs h.fromSourceTs, max g.toSourceTs h.toSourceTs⟩

/-- Both ends of `h` lie within `g`. -/
def Contains (g h : GapSpan) : Prop :=
  g.fromSourceTs ≤ h.fromSourceTs ∧ h.toSourceTs ≤ g.toSourceTs

instance (g h : GapSpan) : Decidable (g.Contains h) := inferInstanceAs (Decidable (_ ∧ _))

theorem Contains.refl (g : GapSpan) : g.Contains g := ⟨le_rfl, le_rfl⟩

theorem Contains.trans {g h k : GapSpan} (hgh : g.Contains h) (hhk : h.Contains k) :
    g.Contains k := ⟨hgh.1.trans hhk.1, hhk.2.trans hgh.2⟩

theorem absorb_contains_left (g h : GapSpan) : (g.absorb h).Contains g :=
  ⟨min_le_left _ _, le_max_left _ _⟩

theorem absorb_contains_right (g h : GapSpan) : (g.absorb h).Contains h :=
  ⟨min_le_right _ _, le_max_right _ _⟩

/-- The hull of a run of spans, in the order they are absorbed. -/
def hull : List GapSpan → Option GapSpan
  | [] => none
  | g :: gs => some (gs.foldl absorb g)

theorem foldl_absorb_contains (gs : List GapSpan) (g : GapSpan) :
    (gs.foldl absorb g).Contains g ∧ ∀ h ∈ gs, (gs.foldl absorb g).Contains h := by
  induction gs generalizing g with
  | nil => exact ⟨.refl g, by simp⟩
  | cons a gs ih =>
      obtain ⟨hstart, hrest⟩ := ih (g.absorb a)
      refine ⟨hstart.trans (absorb_contains_left g a), ?_⟩
      intro h hh
      rcases List.mem_cons.mp hh with rfl | hh
      · exact hstart.trans (absorb_contains_right g h)
      · exact hrest h hh

/-- The hull contains every span of the run. -/
theorem hull_contains {gs : List GapSpan} {g h : GapSpan} (hg : hull gs = some g)
    (hh : h ∈ gs) : g.Contains h := by
  cases gs with
  | nil => simp at hh
  | cons a gs =>
      obtain rfl := Option.some.inj hg
      rcases List.mem_cons.mp hh with rfl | hh
      · exact (foldl_absorb_contains gs h).1
      · exact (foldl_absorb_contains gs a).2 h hh

/-- `g` is the least span that contains all of `gs`. -/
def IsHull (g : GapSpan) (gs : List GapSpan) : Prop :=
  (∀ h ∈ gs, g.Contains h) ∧ ∀ k : GapSpan, (∀ h ∈ gs, k.Contains h) → k.Contains g

theorem isHull_of_hull {gs : List GapSpan} {g : GapSpan} (hg : hull gs = some g) :
    g.IsHull gs := by
  refine ⟨fun h hh => hull_contains hg hh, fun k hk => ?_⟩
  cases gs with
  | nil => cases hg
  | cons a gs =>
      obtain rfl := Option.some.inj hg
      obtain ⟨ha, hgs⟩ := List.forall_mem_cons.mp hk
      clear hk hg
      induction gs generalizing a with
      | nil => exact ha
      | cons b gs ih =>
          obtain ⟨hb, hgs⟩ := List.forall_mem_cons.mp hgs
          exact ih (a.absorb b) ⟨le_min ha.1 hb.1, max_le ha.2 hb.2⟩ hgs

theorem hull_append_singleton (gs : List GapSpan) (h : GapSpan) :
    hull (gs ++ [h]) = some ((hull gs).elim h fun g => g.absorb h) := by
  cases gs with
  | nil => rfl
  | cons a gs => simp [hull]

theorem hull_eq_none {gs : List GapSpan} : hull gs = none ↔ gs = [] := by
  cases gs <;> simp [hull]

end GapSpan

/-! ### The span of one event -/

/-- What a lost event leaves behind: whose loss it is and which span. -/
structure LossCoords where
  instrument : Instrument
  span : GapSpan
  provider : String
  deriving DecidableEq, Repr

namespace MarketEvent

/-- The coordinates of an event that a per-instrument `Gap` can stand for. A data
event is filed under `provider` of its instrument, a `Gap` under its own provider. -/
def lossCoords (provider : Instrument → String) : MarketEvent → Option LossCoords
  | trade t => some ⟨t.instrument, ⟨t.sourceTs, t.sourceTs.saturatingSucc⟩, provider t.instrument⟩
  | quote q => some ⟨q.instrument, ⟨q.sourceTs, q.sourceTs.saturatingSucc⟩, provider q.instrument⟩
  | bar b => some ⟨b.instrument, ⟨b.sourceTs, b.sourceTs.saturatingSucc⟩, provider b.instrument⟩
  | control ⟨_, _, _, .gap gapProvider instrument span⟩ => some ⟨instrument, span, gapProvider⟩
  | control _ => none

def isGap : MarketEvent → Bool
  | control ⟨_, _, _, .gap _ _ _⟩ => true
  | _ => false

/-- Data events and `Gap`s are what an account of losses is kept of. -/
theorem lossCoords_isSome (provider : Instrument → String) (ev : MarketEvent) :
    (ev.lossCoords provider).isSome = (ev.isData || ev.isGap) := by
  cases ev with
  | control c =>
      obtain ⟨_, _, _, kind⟩ := c
      cases kind <;> rfl
  | _ => rfl

end MarketEvent

/-- The span reports the loss of the event: the instant of a data event, the whole
span of a `Gap`. Nothing is owed for another control. -/
def GapSpan.Reports (g : GapSpan) : MarketEvent → Prop
  | .control ⟨_, _, _, .gap _ _ span⟩ => g.Contains span
  | .control _ => True
  | .trade t => g.fromSourceTs ≤ t.sourceTs ∧ t.sourceTs < g.toSourceTs
  | .quote q => g.fromSourceTs ≤ q.sourceTs ∧ q.sourceTs < g.toSourceTs
  | .bar b => g.fromSourceTs ≤ b.sourceTs ∧ b.sourceTs < g.toSourceTs

/-- A trade as the unit tests of the source build it. -/
def testTrade (symbol : String) (ts : Timestamp) (seq : Seq) : MarketEvent :=
  .trade ⟨⟨"p", .equity, symbol⟩, ts, ts, seq, ⟨1000000000⟩, ⟨1000000000⟩⟩

theorem Timestamp.lt_saturatingSucc_of_ne_max {t : Timestamp} (h : t.toInt < 2 ^ 63 - 1) :
    t < t.saturatingSucc := by
  have hlt : t < ⟨Int64.maxValue⟩ := by
    rw [lt_def]
    change t.toInt < Int64.maxValue.toInt
    rw [Int64.toInt_maxValue]
    omega
  exact lt_saturatingSucc hlt

/-- Below the top of the range of timestamps, containing the coordinates of an event
is reporting its loss. -/
theorem GapSpan.reports_of_contains {g : GapSpan} {ev : MarketEvent} {c : LossCoords}
    {provider : Instrument → String} (hc : ev.lossCoords provider = some c)
    (hmax : ∀ ts, ev.dataSourceTs = some ts → ts.toInt < 2 ^ 63 - 1) (h : g.Contains c.span) :
    g.Reports ev := by
  cases ev with
  | control ctl =>
      obtain ⟨_, _, _, kind⟩ := ctl
      cases kind with
      | gap gapProvider instrument span =>
          obtain rfl := Option.some.inj hc
          exact h
      | _ => trivial
  | _ =>
      obtain rfl := Option.some.inj hc
      exact ⟨h.1, (Timestamp.lt_saturatingSucc_of_ne_max (hmax _ rfl)).trans_le h.2⟩

end Datamancer
