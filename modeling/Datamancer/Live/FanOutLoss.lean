import Datamancer.Live.FanOut

/-!
# Datamancer.Live.FanOutLoss

What one referrer of a fan-out receives, against what it was sent since it joined.

The sent events fall into pieces, in order: events that were relayed, and holes of
consecutive losses, each of which the referrer receives as the one `Gap` at its
place. The losses after the last piece are the still-owed pending gap. A hole that
lost only connection-scoped controls leaves nothing.
-/

namespace Datamancer

/-! ### The gap owed for a run of losses -/

/-- Data events and `Gap`s, the events whose loss is accounted for. -/
def MarketEvent.isAccounted (ev : MarketEvent) : Bool := ev.isData || ev.isGap

/-- The pending gap after a run of losses. -/
def owedFor (lost : List MarketEvent) : Option PendingGap := lost.foldl absorbDrop none

/-- The spans a run of losses counts. -/
def lossSpans (lost : List MarketEvent) : List GapSpan :=
  (lost.filterMap gapCoords).map LossCoords.span

theorem gapCoords_isSome (ev : MarketEvent) : (gapCoords ev).isSome = ev.isAccounted :=
  ev.lossCoords_isSome _

theorem owedFor_append_singleton (lost : List MarketEvent) (ev : MarketEvent) :
    owedFor (lost ++ [ev]) = absorbDrop (owedFor lost) ev := by
  simp [owedFor]

theorem foldl_absorbDrop_some (lost : List MarketEvent) (p : PendingGap) :
    lost.foldl absorbDrop (some p) =
      some { p with span := (lossSpans lost).foldl GapSpan.absorb p.span } := by
  induction lost generalizing p with
  | nil => rfl
  | cons ev lost ih =>
      rw [List.foldl_cons]
      cases hc : gapCoords ev with
      | none => simp [absorbDrop, lossSpans, hc, ih]
      | some c => simp [absorbDrop, lossSpans, hc, ih, PendingGap.absorb]

theorem owedFor_cons_none {ev : MarketEvent} (h : gapCoords ev = none)
    (lost : List MarketEvent) : owedFor (ev :: lost) = owedFor lost := by
  simp [owedFor, absorbDrop, h]

theorem owedFor_cons_some {ev : MarketEvent} {c : LossCoords} (h : gapCoords ev = some c)
    (lost : List MarketEvent) :
    owedFor (ev :: lost) = some ⟨c.instrument, c.provider, ev.seq,
      (lossSpans lost).foldl GapSpan.absorb c.span⟩ := by
  rw [owedFor, List.foldl_cons]
  simp [absorbDrop, h, foldl_absorbDrop_some]

/-- The span owed is the hull of what was lost. -/
theorem hull_lossSpans (lost : List MarketEvent) :
    GapSpan.hull (lossSpans lost) = (owedFor lost).map PendingGap.span := by
  induction lost with
  | nil => rfl
  | cons ev lost ih =>
      cases hc : gapCoords ev with
      | none =>
          rw [owedFor_cons_none hc, ← ih]
          simp [lossSpans, hc]
      | some c =>
          rw [owedFor_cons_some hc]
          simp [lossSpans, hc, GapSpan.hull]

/-- The gap owed carries the `seq` of the first accounted loss. -/
theorem firstSeq_owedFor (lost : List MarketEvent) :
    (owedFor lost).map PendingGap.firstSeq =
      (lost.find? MarketEvent.isAccounted).map MarketEvent.seq := by
  induction lost with
  | nil => rfl
  | cons ev lost ih =>
      have hsome := gapCoords_isSome ev
      cases hc : gapCoords ev with
      | none =>
          rw [hc] at hsome
          rw [owedFor_cons_none hc, ih, List.find?_cons_of_neg (by simp [← hsome])]
      | some c =>
          rw [hc] at hsome
          rw [owedFor_cons_some hc, List.find?_cons_of_pos (by simp [← hsome])]
          rfl

/-- Every loss that is accounted for lies in the gap owed for it. -/
theorem owedFor_reports {lost : List MarketEvent} {ev : MarketEvent} (hev : ev ∈ lost)
    (hacc : ev.isAccounted = true)
    (hmax : ∀ ts, ev.dataSourceTs = some ts → ts.toInt < 2 ^ 63 - 1) :
    ∃ p, owedFor lost = some p ∧ p.span.Reports ev := by
  obtain ⟨c, hc⟩ := Option.isSome_iff_exists.mp ((gapCoords_isSome ev).trans hacc)
  have hmem : c.span ∈ lossSpans lost :=
    List.mem_map_of_mem (List.mem_filterMap.mpr ⟨ev, hev, hc⟩)
  cases hp : owedFor lost with
  | none =>
      have hnil := hull_lossSpans lost
      rw [hp] at hnil
      rw [GapSpan.hull_eq_none.mp hnil] at hmem
      simp at hmem
  | some p =>
      have hhull := hull_lossSpans lost
      rw [hp] at hhull
      exact ⟨p, rfl, GapSpan.reports_of_contains hc hmax (GapSpan.hull_contains hhull hmem)⟩

/-! ### Pieces of a referrer's stream -/

/-- A stretch of what a referrer was sent. -/
inductive Piece
  | relayed (ev : MarketEvent)
  | hole (lost : List MarketEvent)

namespace Piece

def sent : Piece → List MarketEvent
  | relayed ev => [ev]
  | hole lost => lost

def received : Piece → List MarketEvent
  | relayed ev => [ev]
  | hole lost => ((owedFor lost).map PendingGap.toEvent).toList

/-- The `seq`s received for a piece are among those sent, in order. -/
theorem seqs_received (p : Piece) :
    (p.received.map MarketEvent.seq).Sublist (p.sent.map MarketEvent.seq) := by
  cases p with
  | relayed ev => exact .refl _
  | hole lost =>
      have hfirst := firstSeq_owedFor lost
      cases hp : owedFor lost with
      | none => simp [received, hp]
      | some g =>
          rw [hp] at hfirst
          obtain ⟨ev, hev, hseq⟩ := Option.map_eq_some_iff.mp hfirst.symm
          have hmem : g.firstSeq ∈ lost.map MarketEvent.seq :=
            hseq ▸ List.mem_map_of_mem (List.mem_of_find?_eq_some hev)
          simpa [received, sent, hp] using hmem

end Piece

theorem seqs_pieces (ps : List Piece) :
    ((ps.flatMap Piece.received).map MarketEvent.seq).Sublist
      ((ps.flatMap Piece.sent).map MarketEvent.seq) := by
  induction ps with
  | nil => exact .refl _
  | cons p ps ih =>
      simp only [List.flatMap_cons, List.map_append]
      exact p.seqs_received.append ih

/-- What a referrer got of `sent` since it joined with `replayed` in its channel. -/
def Relays (replayed sent : List MarketEvent) (r : Referrer) (pieces : List Piece)
    (owed : List MarketEvent) : Prop :=
  sent = pieces.flatMap Piece.sent ++ owed ∧
  r.tx.accepted = replayed ++ pieces.flatMap Piece.received ∧
  r.pending = owedFor owed

/-! ### One event -/

section Step

variable {replayed sent : List MarketEvent} {r r' : Referrer} {ev : MarketEvent}
  {pieces : List Piece} {owed : List MarketEvent}

/-- A loss joins what is owed. -/
theorem Relays.lose (h : Relays replayed sent r pieces owed) :
    Relays replayed (sent ++ [ev]) { r with pending := absorbDrop r.pending ev } pieces
      (owed ++ [ev]) := by
  obtain ⟨hsent, haccepted, hpending⟩ := h
  refine ⟨by rw [hsent, List.append_assoc], haccepted, ?_⟩
  show absorbDrop r.pending ev = _
  rw [hpending, owedFor_append_singleton]

/-- What is owed becomes a hole of the stream once its gap, if any, is in the channel. -/
theorem Relays.flush {tx : Channel MarketEvent} (h : Relays replayed sent r pieces owed)
    (htx : tx.accepted = r.tx.accepted ++ ((owedFor owed).map PendingGap.toEvent).toList) :
    Relays replayed sent ⟨tx, none⟩ (pieces ++ [.hole owed]) [] := by
  obtain ⟨hsent, haccepted, -⟩ := h
  refine ⟨by simp [hsent, Piece.sent], ?_, rfl⟩
  show tx.accepted = _
  rw [htx, haccepted]
  simp [Piece.received]

theorem Relays.relay (h : Relays replayed sent r pieces owed) (hnone : r.pending = none)
    (hr : r.relay ev = some r') :
    ∃ pieces owed, Relays replayed (sent ++ [ev]) r' pieces owed := by
  unfold Referrer.relay at hr
  cases hs : r.tx.trySend ev with
  | full =>
      rw [hs] at hr
      obtain rfl := Option.some.inj hr
      exact ⟨_, _, h.lose⟩
  | closed =>
      rw [hs] at hr
      cases hr
  | sent tx =>
      rw [hs] at hr
      obtain rfl := Option.some.inj hr
      -- nothing is owed that a gap could report, so the hole so far is left empty-handed
      obtain ⟨hsent, haccepted, hpending⟩ := h
      rw [hnone] at hpending
      refine ⟨pieces ++ [.hole owed, .relayed ev], [], ?_, ?_, hnone⟩
      · simp [hsent, Piece.sent]
      · show tx.accepted = _
        rw [Channel.accepted_sent hs, haccepted]
        simp [Piece.received, ← hpending]

/-- One event at one referrer: it is relayed, or it joins the losses, after the gap owed
before it has taken its place if it fits. -/
theorem Relays.fanout (h : Relays replayed sent r pieces owed) (hr : r.fanout ev = some r') :
    ∃ pieces owed, Relays replayed (sent ++ [ev]) r' pieces owed := by
  unfold Referrer.fanout at hr
  cases hp : r.pending with
  | none =>
      rw [hp] at hr
      exact h.relay hp hr
  | some p =>
      rw [hp] at hr
      cases hs : r.tx.trySend p.toEvent with
      | full =>
          simp only [hs] at hr
          obtain rfl := Option.some.inj hr
          rw [← hp]
          exact ⟨_, _, h.lose⟩
      | closed =>
          simp only [hs] at hr
          cases hr
      | sent tx =>
          simp only [hs] at hr
          refine Relays.relay (h.flush ?_) rfl hr
          rw [Channel.accepted_sent hs, ← h.2.2, hp]
          rfl

end Step

/-! ### Whole runs -/

theorem sentBy_append (as bs : List FanOutAction) : sentBy (as ++ bs) = sentBy as ++ sentBy bs :=
  List.filterMap_append

namespace FanOut

/-- The cached activation is one that was fanned out. -/
theorem activation_of_run {f : FanOut} {as : List FanOutAction}
    (h : ActionSystem.run step new as = some f) {ev : MarketEvent}
    (hev : f.lastSubscriptionChanged = some ev) : ev ∈ sentBy as ∧ ev.isActivation = true := by
  refine ActionSystem.history_invariant
    (P := fun past f => ∀ ev, f.lastSubscriptionChanged = some ev →
      ev ∈ sentBy past ∧ ev.isActivation = true) [] ?_ ?_ h ev hev
  · intro past f a f' hP hstep ev hev
    have hold : f.lastSubscriptionChanged = some ev →
        ev ∈ sentBy (past ++ [a]) ∧ ev.isActivation = true := by
      intro hlast
      rw [sentBy_append]
      exact ⟨List.mem_append_left _ (hP ev hlast).1, (hP ev hlast).2⟩
    cases a with
    | add i cap =>
        obtain rfl := Option.some.inj hstep
        exact hold hev
    | remove i =>
        obtain rfl := Option.some.inj hstep
        exact hold hev
    | recv i => exact hold ((onReferrer_eq_some hstep).1 ▸ hev)
    | close i => exact hold ((onReferrer_eq_some hstep).1 ▸ hev)
    | fanout sent =>
        obtain rfl := Option.some.inj hstep
        change (if sent.isActivation then some sent else f.lastSubscriptionChanged) = _ at hev
        split_ifs at hev with hact
        · obtain rfl := Option.some.inj hev
          exact ⟨by simp [sentBy], hact⟩
        · exact hold hev
  · intro ev hev
    cases hev

/-- A step that is no join of the referrer keeps its account. -/
theorem relays_step {f f' : FanOut} {a : FanOutAction} {id : SubscriberId}
    {replayed sent : List MarketEvent} (hstep : f.step a = some f')
    (hjoin : ∀ cap, a ≠ .add id cap)
    (h : ∀ r, f.subscribers.lookup id = some r →
      ∃ pieces owed, Relays replayed sent r pieces owed) :
    ∀ r, f'.subscribers.lookup id = some r →
      ∃ pieces owed, Relays replayed (sent ++ sentBy [a]) r pieces owed := by
  -- what a receiver does leaves what its channel accepted as it is
  have hreceiver : ∀ {i : SubscriberId} {act : Referrer → Option Referrer},
      (∀ r r', act r = some r' → r'.tx.accepted = r.tx.accepted ∧ r'.pending = r.pending) →
      f.onReferrer i act = some f' → ∀ r, f'.subscribers.lookup id = some r →
        ∃ pieces owed, Relays replayed (sent ++ []) r pieces owed := by
    intro i act hact hon r hr
    obtain ⟨-, ⟨r₀, r₁, hr₀, hr₁, hi⟩, hother⟩ := onReferrer_eq_some hon
    rw [List.append_nil]
    by_cases hid : id = i
    · subst hid
      obtain rfl := Option.some.inj (hi.symm.trans hr)
      obtain ⟨pieces, owed, hsent, haccepted, hpending⟩ := h r₀ hr₀
      obtain ⟨htx, hpend⟩ := hact r₀ r₁ hr₁
      exact ⟨pieces, owed, hsent, htx.trans haccepted, hpend.trans hpending⟩
    · exact h r (hother id hid ▸ hr)
  cases a with
  | add i cap =>
      obtain rfl := Option.some.inj hstep
      intro r hr
      have hid : id ≠ i := fun heq => hjoin cap (by rw [heq])
      rw [lookup_add_ne f hid] at hr
      simpa [sentBy] using h r hr
  | remove i =>
      obtain rfl := Option.some.inj hstep
      intro r hr
      by_cases hid : id = i
      · subst hid
        rw [lookup_remove] at hr
        cases hr
      · rw [lookup_remove_ne f hid] at hr
        simpa [sentBy] using h r hr
  | fanout ev =>
      obtain rfl := Option.some.inj hstep
      intro r hr
      rw [lookup_fanout] at hr
      obtain ⟨r₀, hr₀, hfan⟩ := Option.bind_eq_some_iff.mp hr
      obtain ⟨pieces, owed, hrel⟩ := h r₀ hr₀
      exact hrel.fanout hfan
  | recv i =>
      refine hreceiver ?_ hstep
      intro r r' hr'
      obtain ⟨tx, htx, rfl⟩ := Option.map_eq_some_iff.mp hr'
      exact ⟨Channel.accepted_recv htx, rfl⟩
  | close i =>
      refine hreceiver ?_ hstep
      intro r r' hr'
      obtain rfl := Option.some.inj hr'
      exact ⟨rfl, rfl⟩

/-- The account of a referrer over a run in which it does not join again. -/
theorem relays_run {f f' : FanOut} {as : List FanOutAction} {id : SubscriberId}
    {replayed : List MarketEvent} {tx : Channel MarketEvent}
    (hf : f.subscribers.lookup id = some ⟨tx, none⟩) (hreplayed : tx.accepted = replayed)
    (hjoin : ∀ cap, .add id cap ∉ as) (h : ActionSystem.run step f as = some f') {r : Referrer}
    (hr : f'.subscribers.lookup id = some r) :
    ∃ pieces owed, Relays replayed (sentBy as) r pieces owed := by
  have hrun := ActionSystem.history_invariant
    (P := fun past f => (∀ cap, .add id cap ∉ past) → ∀ r, f.subscribers.lookup id = some r →
      ∃ pieces owed, Relays replayed (sentBy past) r pieces owed) [] ?_ ?_ h
  · exact hrun hjoin r hr
  · intro past f a f' hP hstep hnot
    rw [sentBy_append]
    refine relays_step hstep (fun cap heq => hnot cap (by simp [heq])) (hP fun cap hmem => ?_)
    exact hnot cap (List.mem_append_left _ hmem)
  · intro _ r hr
    obtain rfl := Option.some.inj (hf.symm.trans hr)
    exact ⟨[], [], rfl, by simp [hreplayed], rfl⟩

/-! ### One referrer by itself -/

/-- What one referrer does of each action that concerns it, with the cached activation. -/
def soloStep (s : Option MarketEvent × Option Referrer) :
    FanOutAction → Option (Option MarketEvent × Option Referrer)
  | .add _ cap => some (s.1, some ⟨FanOut.joined ⟨∅, s.1, false⟩ (.new cap), none⟩)
  | .remove _ => some (s.1, none)
  | .fanout ev => some (if ev.isActivation then some ev else s.1, s.2.bind fun r => r.fanout ev)
  | .recv _ => (s.2.bind Referrer.recv).map fun r => (s.1, some r)
  | .close _ => s.2.map fun r => (s.1, some r.close)

/-- The referrer's part of the fan-out. -/
def solo (id : SubscriberId) (f : FanOut) : Option MarketEvent × Option Referrer :=
  (f.lastSubscriptionChanged, f.subscribers.lookup id)

theorem soloStep_of_step {id : SubscriberId} {f f' : FanOut} {a : FanOutAction}
    (hkeep : a.concerns id = true) (h : f.step a = some f') :
    soloStep (solo id f) a = some (solo id f') := by
  cases a with
  | add i cap =>
      obtain rfl : i = id := by simpa [FanOutAction.concerns] using hkeep
      obtain rfl := Option.some.inj h
      simp only [solo, lookup_add]
      rfl
  | remove i =>
      obtain rfl : i = id := by simpa [FanOutAction.concerns] using hkeep
      obtain rfl := Option.some.inj h
      simp only [solo, lookup_remove]
      rfl
  | fanout ev =>
      obtain rfl := Option.some.inj h
      simp only [solo, lookup_fanout]
      rfl
  | recv i =>
      obtain rfl : i = id := by simpa [FanOutAction.concerns] using hkeep
      obtain ⟨hlast, ⟨r, r', hr, hact, hi⟩, -⟩ := onReferrer_eq_some h
      simp [soloStep, solo, hr, hact, hi, hlast]
  | close i =>
      obtain rfl : i = id := by simpa [FanOutAction.concerns] using hkeep
      obtain ⟨hlast, ⟨r, r', hr, hact, hi⟩, -⟩ := onReferrer_eq_some h
      obtain rfl := Option.some.inj hact
      simp [soloStep, solo, hr, hi, hlast]

theorem solo_of_step {id : SubscriberId} {f f' : FanOut} {a : FanOutAction}
    (hskip : a.concerns id = false) (h : f.step a = some f') : solo id f' = solo id f := by
  cases a with
  | add i cap =>
      have hid : id ≠ i := fun heq => by simp [FanOutAction.concerns, heq] at hskip
      obtain rfl := Option.some.inj h
      simp only [solo, lookup_add_ne f hid]
      rfl
  | remove i =>
      have hid : id ≠ i := fun heq => by simp [FanOutAction.concerns, heq] at hskip
      obtain rfl := Option.some.inj h
      simp only [solo, lookup_remove_ne f hid]
      rfl
  | fanout ev => cases hskip
  | recv i =>
      have hid : id ≠ i := fun heq => by simp [FanOutAction.concerns, heq] at hskip
      obtain ⟨hlast, -, hother⟩ := onReferrer_eq_some h
      simp only [solo, hlast, hother id hid]
  | close i =>
      have hid : id ≠ i := fun heq => by simp [FanOutAction.concerns, heq] at hskip
      obtain ⟨hlast, -, hother⟩ := onReferrer_eq_some h
      simp only [solo, hlast, hother id hid]

/-- Two runs in which the same actions concern a referrer leave it the same. -/
theorem lookup_eq_of_concerns_eq {id : SubscriberId} {f g : FanOut} {as bs : List FanOutAction}
    (hf : ActionSystem.run step new as = some f) (hg : ActionSystem.run step new bs = some g)
    (h : as.filter (FanOutAction.concerns id) = bs.filter (FanOutAction.concerns id)) :
    f.subscribers.lookup id = g.subscribers.lookup id := by
  have hsolo : ∀ {as : List FanOutAction} {f : FanOut}, ActionSystem.run step new as = some f →
      ActionSystem.run soloStep (solo id new) (as.filter (FanOutAction.concerns id)) =
        some (solo id f) := by
    intro as f hrun
    exact ActionSystem.run_filter soloStep_of_step solo_of_step hrun
  have heq := (hsolo hf).symm.trans ((congrArg _ h).trans (hsolo hg))
  exact congrArg Prod.snd (Option.some.inj heq)

/-! ### Nothing is lost silently -/

/-- What is owed for the losses of a hole tells of each of them, from the first one on. -/
def Surfaces (lost : List MarketEvent) (owed : Option PendingGap) : Prop :=
  (∀ ev ∈ lost, ev.isAccounted = true →
    (∀ ts, ev.dataSourceTs = some ts → ts.toInt < 2 ^ 63 - 1) →
    ∃ p, owed = some p ∧ p.span.Reports ev) ∧
  ∀ p, owed = some p →
    (lost.find? MarketEvent.isAccounted).map MarketEvent.seq = some p.firstSeq

theorem surfaces_owedFor (lost : List MarketEvent) : Surfaces lost (owedFor lost) := by
  refine ⟨fun ev hev hacc hmax => owedFor_reports hev hacc hmax, ?_⟩
  intro p hp
  rw [← firstSeq_owedFor, hp]
  rfl

/-- The `seq`s a referrer receives are among those of the run, in order. -/
theorem seqs_accepted {replayed sent before : List MarketEvent} {r : Referrer}
    {pieces : List Piece} {owed : List MarketEvent} (h : Relays replayed sent r pieces owed)
    (hreplayed : replayed.Sublist before) :
    (r.tx.accepted.map MarketEvent.seq).Sublist ((before ++ sent).map MarketEvent.seq) := by
  obtain ⟨hsent, haccepted, -⟩ := h
  rw [haccepted, hsent, List.map_append, List.map_append]
  refine (hreplayed.map _).append ?_
  rw [List.map_append]
  exact (seqs_pieces pieces).trans (List.sublist_append_left _ _)

/-- The fan-out loses nothing silently. Of all that is fanned out after a referrer
joins, each event is relayed to it in order or falls in a hole whose gap, received at
the place of the hole or still owed, reports it; what it receives has strictly
increasing `seq`s; and what becomes of it is fixed by the actions that concern it. -/
theorem fanout_surfaces_loss {as bs : List FanOutAction} {id : SubscriberId} {cap : Nat}
    {f : FanOut} {r : Referrer}
    (hseq : ((sentBy (as ++ .add id cap :: bs)).map MarketEvent.seq).Pairwise (· < ·))
    (hjoin : ∀ cap', .add id cap' ∉ bs)
    (hrun : ActionSystem.run step new (as ++ .add id cap :: bs) = some f)
    (hr : f.subscribers.lookup id = some r) :
    (∃ (replayed : List MarketEvent) (pieces : List Piece) (owed : List MarketEvent),
      (∀ ev ∈ replayed, ev ∈ sentBy as ∧ ev.isActivation = true) ∧
      sentBy bs = pieces.flatMap Piece.sent ++ owed ∧
      r.tx.accepted = replayed ++ pieces.flatMap Piece.received ∧
      r.pending = owedFor owed ∧
      ∀ lost, lost = owed ∨ .hole lost ∈ pieces → Surfaces lost (owedFor lost)) ∧
    (r.tx.accepted.map MarketEvent.seq).Pairwise (· < ·) ∧
    ∀ as' f', ActionSystem.run step new as' = some f' →
      as'.filter (FanOutAction.concerns id) =
        (as ++ .add id cap :: bs).filter (FanOutAction.concerns id) →
      f'.subscribers.lookup id = some r := by
  obtain ⟨f₁, hf₁, hrest⟩ := Option.bind_eq_some_iff.mp
    (ActionSystem.run_append new as (.add id cap :: bs) ▸ hrun)
  have hadd : ActionSystem.run step (f₁.add id (.new cap)) bs = some f := hrest
  -- the joiner starts with the cached activation in its channel, or with nothing
  have hreplayed : ∃ replayed, (f₁.joined (.new cap)).accepted = replayed ∧
      (∀ ev ∈ replayed, ev ∈ sentBy as ∧ ev.isActivation = true) ∧
      replayed.Sublist (sentBy as) := by
    unfold joined
    cases hlast : f₁.lastSubscriptionChanged with
    | none => exact ⟨[], rfl, by simp, List.nil_sublist _⟩
    | some ev =>
        have hev := activation_of_run hf₁ hlast
        rcases Channel.accepted_offer (Channel.new cap) ev with h | h
        · exact ⟨[ev], h, by simpa using hev, by simpa using hev.1⟩
        · exact ⟨[], h, by simp, List.nil_sublist _⟩
  obtain ⟨replayed, haccepted, hmem, hsub⟩ := hreplayed
  obtain ⟨pieces, owed, hrel⟩ := relays_run (lookup_add f₁ id _) haccepted hjoin hadd hr
  refine ⟨⟨replayed, pieces, owed, hmem, hrel.1, hrel.2.1, hrel.2.2,
    fun lost _ => surfaces_owedFor lost⟩, ?_, ?_⟩
  · refine List.Pairwise.sublist (seqs_accepted hrel hsub) ?_
    rwa [sentBy_append] at hseq
  · intro as' f' hrun' hsame
    exact (lookup_eq_of_concerns_eq hrun' hrun hsame).trans hr

/-- A channel of one slot: the second trade finds it full and comes back as a `Gap`
ahead of the third, which is lost in turn and still owed. -/
theorem fanout_surfaces_loss_full_channel : ∃ f r,
    ActionSystem.run step new [.add 1 1, .fanout (testTrade "AAPL" 100 ⟨0⟩),
      .fanout (testTrade "AAPL" 200 ⟨1⟩),
      .recv 1, .fanout (testTrade "AAPL" 300 ⟨2⟩)] = some f ∧
    f.subscribers.lookup 1 = some r ∧
    r.tx.taken = [testTrade "AAPL" 100 ⟨0⟩] ∧
    r.tx.queue = [.control ⟨200, 200, ⟨1⟩,
      .gap "p" ⟨"p", .equity, "AAPL"⟩ ⟨200, Timestamp.saturatingSucc 200⟩⟩] ∧
    r.pending = some ⟨⟨"p", .equity, "AAPL"⟩, "p", ⟨2⟩, ⟨300, Timestamp.saturatingSucc 300⟩⟩ ∧
    (r.tx.accepted.map MarketEvent.seq).Pairwise (· < ·) := by
  obtain ⟨f, hrun, r, hr, htaken, hqueue, hpending⟩ : ∃ f,
      ActionSystem.run step new ([] ++ .add 1 1 :: [.fanout (testTrade "AAPL" 100 ⟨0⟩),
        .fanout (testTrade "AAPL" 200 ⟨1⟩), .recv 1, .fanout (testTrade "AAPL" 300 ⟨2⟩)]) = some f ∧
      ∃ r, f.subscribers.lookup 1 = some r ∧ r.tx.taken = _ ∧ r.tx.queue = _ ∧ r.pending = _ :=
    ⟨_, rfl, _, rfl, rfl, rfl, rfl⟩
  exact ⟨f, r, hrun, hr, htaken, hqueue, hpending,
    (fanout_surfaces_loss (by decide) (by simp) hrun hr).2.1⟩

end FanOut

end Datamancer
