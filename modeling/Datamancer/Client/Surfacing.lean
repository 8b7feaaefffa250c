import Mathlib.Data.List.Chain
import Datamancer.Client.Ordering

/-!
# Datamancer.Client.Surfacing

Loss end to end, between the authoritative controller of one pair and the consumer of
one client session on it.

All that was stamped for the client falls into stretches, in order. Each is shown to the
client by one event: the event itself, or a `Gap` for a run of losses that were dropped
at the fan-out, evicted from the resume ring, or first one and then the other. The
stretches lie in a row along the way to the consumer (accepted by its streams, owed by
the ring, in the ring, being replayed, on the substream, owed by the fan-out), and a step
moves or merges neighbours. A control that is no `Gap` can be dropped without a trace;
`strict` is the account in which none is.
-/

namespace Datamancer

open ActionSystem

/-! ### Stretches -/

/-- A stretch of what was stamped for a client, with the event that shows it. -/
structure Stretch where
  sent : List MarketEvent
  shown : MarketEvent

/-- What an event shown to the client of instrument `i` can stand for, if the first event
stamped for it has the number `first`. -/
inductive Stretch.Stands (i : Instrument) (first : Nat) : List MarketEvent → MarketEvent → Prop
  /-- The event itself. -/
  | itself (ev : MarketEvent) (hseq : ev.seq ≠ Seq.synthetic)
      (hinst : ∀ c, gapCoords ev = some c → c.instrument = i) : Stands i first [ev] ev
  /-- A gap for a run of losses, numbered as the first of them. -/
  | hole (lost : List MarketEvent) (ts rxTs : Timestamp) (seq : Seq) (provider : String)
      (span : GapSpan) (hseq : lost.head?.map MarketEvent.seq = some seq)
      (hspan : ∀ ev ∈ lost, ∀ c, gapCoords ev = some c → span.Contains c.span) :
      Stands i first lost (.control ⟨ts, rxTs, seq, .gap provider i span⟩)
  /-- A control of the client's own, or one replayed to it when it joined. -/
  | extra (ev : MarketEvent) (hacc : ev.isAccounted = false)
      (hseq : ev.seq.toNat < first ∨ ev.seq = Seq.synthetic) : Stands i first [] ev

/-- What is shown for accounted events covers them, and is numbered as the first. -/
theorem Stretch.Stands.covers {i : Instrument} {first : Nat} {sent : List MarketEvent}
    {shown : MarketEvent} {c : LossCoords} (h : Stretch.Stands i first sent shown)
    (hc : gapCoords shown = some c) :
    c.instrument = i ∧ sent.head?.map MarketEvent.seq = some shown.seq ∧
    ∀ ev ∈ sent, ∀ d, gapCoords ev = some d → c.span.Contains d.span := by
  cases h with
  | itself ev hseq hinst =>
      refine ⟨hinst c hc, rfl, ?_⟩
      intro ev' hev d hd
      obtain rfl := List.mem_singleton.mp hev
      obtain rfl := Option.some.inj (hc.symm.trans hd)
      exact .refl _
  | hole lost ts rxTs seq provider span hseq hspan =>
      obtain rfl := Option.some.inj hc
      exact ⟨rfl, hseq, hspan⟩
  | extra ev hacc hseq =>
      rw [← gapCoords_isSome, hc] at hacc
      cases hacc

/-- A gap grows over what comes after its losses. -/
theorem Stretch.Stands.grow {i : Instrument} {first : Nat} {lost more : List MarketEvent}
    {seq : Seq} {span : GapSpan} (hseq : lost.head?.map MarketEvent.seq = some seq)
    (hlost : ∀ ev ∈ lost, ∀ d, gapCoords ev = some d → span.Contains d.span)
    (hmore : ∀ ev ∈ more, ∀ d, gapCoords ev = some d → span.Contains d.span)
    (ts rxTs : Timestamp) (provider : String) :
    Stretch.Stands i first (lost ++ more)
      (.control ⟨ts, rxTs, seq, .gap provider i span⟩) := by
  refine .hole _ _ _ _ _ _ ?_ ?_
  · rw [List.head?_append, Option.map_or, hseq]
    rfl
  · intro ev hev d hd
    rcases List.mem_append.mp hev with hev | hev
    · exact hlost ev hev d hd
    · exact hmore ev hev d hd

/-- The stretches of a part of the way stand for what was sent. -/
def Standing (i : Instrument) (first : Nat) (ts : List Stretch) : Prop :=
  ∀ t ∈ ts, Stretch.Stands i first t.sent t.shown

/-- Stretches that stand take the place of others in the middle of the way. -/
theorem Standing.replace {i : Instrument} {first : Nat} {acc mid new todo : List Stretch}
    (h : Standing i first (acc ++ (mid ++ todo))) (hnew : Standing i first new) :
    Standing i first (acc ++ (new ++ todo)) := by
  intro t ht
  simp only [List.mem_append] at ht
  rcases ht with ht | ht | ht
  · exact h t (List.mem_append_left _ ht)
  · exact hnew t ht
  · exact h t (List.mem_append_right _ (List.mem_append_right _ ht))

/-- What was sent of a part of the way. -/
def sentOf (ts : List Stretch) : List MarketEvent := ts.flatMap Stretch.sent

@[simp] theorem sentOf_nil : sentOf [] = [] := rfl

@[simp] theorem sentOf_cons (t : Stretch) (ts : List Stretch) :
    sentOf (t :: ts) = t.sent ++ sentOf ts := rfl

@[simp] theorem sentOf_append (ts us : List Stretch) :
    sentOf (ts ++ us) = sentOf ts ++ sentOf us := List.flatMap_append

/-- The same events, but for controls that nothing accounts for; in a strict account,
the same events. -/
def Retains (strict : Prop) (xs ys : List MarketEvent) : Prop :=
  xs.filter MarketEvent.isAccounted = ys.filter MarketEvent.isAccounted ∧ (strict → xs = ys)

namespace Retains

variable {strict : Prop} {xs ys zs : List MarketEvent}

theorem refl (strict : Prop) (xs : List MarketEvent) : Retains strict xs xs := ⟨rfl, fun _ => rfl⟩

theorem of_eq (h : xs = ys) : Retains strict xs ys := h ▸ refl strict xs

theorem trans (h : Retains strict xs ys) (h' : Retains strict ys zs) : Retains strict xs zs :=
  ⟨h.1.trans h'.1, fun hs => (h.2 hs).trans (h'.2 hs)⟩

theorem append {xs' ys' : List MarketEvent} (h : Retains strict xs ys)
    (h' : Retains strict xs' ys') :
    Retains strict (xs ++ xs') (ys ++ ys') :=
  ⟨by rw [List.filter_append, List.filter_append, h.1, h'.1],
    fun hs => by rw [h.2 hs, h'.2 hs]⟩

/-- A control is lost without a trace. -/
theorem drop {ev : MarketEvent} (hacc : ev.isAccounted = false) (hstrict : ¬ strict) :
    Retains strict [ev] [] :=
  ⟨by simp [hacc], fun hs => absurd hs hstrict⟩

end Retains

/-- The ring files an event as the fan-out does, but for the provider. -/
theorem gapCoords_of_ringCoords {x : MarketEvent × String} {c : LossCoords}
    (h : ringCoords x = some c) :
    ∃ d, gapCoords x.1 = some d ∧ d.span = c.span ∧ d.instrument = c.instrument := by
  obtain ⟨ev, provider⟩ := x
  cases ev with
  | control ctl =>
      obtain ⟨_, _, _, kind⟩ := ctl
      cases kind with
      | gap _ _ _ =>
          obtain rfl := Option.some.inj h
          exact ⟨_, rfl, rfl, rfl⟩
      | _ => cases h
  | _ =>
      obtain rfl := Option.some.inj h
      exact ⟨_, rfl, rfl, rfl⟩

/-! ### The sink's part of the way -/

namespace ClientOutput

/-- The condition at the sink: a stream is dropped only when all in it has been taken. -/
def KeepsStream (o : ClientOutput) : SinkAction → Prop
  | .dropStream => ∀ tx ∈ o.streams, tx.queue = []
  | _ => True

/-- No control is evicted without a trace: the front of a full ring is accounted for, or
something is owed already, or it is one of the client's own. -/
def KeepsControls (o : ClientOutput) : SinkAction → Prop
  | .proceed => ∀ ring ∈ o.ring, ∀ x ∈ ring.ring.evicted,
      x.1.isAccounted = true ∨ ring.dropped.entries ≠ [] ∨ x.1.seq = Seq.synthetic
  | _ => True

instance (o : ClientOutput) : DecidablePred o.KeepsStream
  | .dropStream => inferInstanceAs (Decidable (∀ tx ∈ o.streams, _))
  | .deliver .. | .proceed | .take .. | .consume => .isTrue trivial

instance (o : ClientOutput) : DecidablePred o.KeepsControls
  | .proceed => inferInstanceAs (Decidable (∀ ring ∈ o.ring, ∀ x ∈ ring.ring.evicted, _))
  | .deliver .. | .dropStream | .take .. | .consume => .isTrue trivial

end ClientOutput

/-- The sink's part of the way: what its streams have accepted, what the ring owes, what
it holds and what is being replayed. -/
structure SinkWay (i : Instrument) (first : Nat) (o : ClientOutput)
    (acc owed buf todo : List Stretch) : Prop where
  accepted_eq : o.accepted = acc.map Stretch.shown
  owed_eq : o.gapRecords.map InstrumentGap.toEvent = owed.map Stretch.shown
  instrument : ∀ g ∈ o.gapRecords, g.instrument = i
  buffered_eq : o.buffered.map Prod.fst = buf.map Stretch.shown
  replay_eq : o.replay.map Prod.fst = todo.map Stretch.shown
  stands : Standing i first (acc ++ owed ++ (buf ++ todo))
  /-- The streams that have been dropped were drained. -/
  dropped : ∀ tx ∈ o.streams, tx.isOpen = false → tx.queue = []
  former : ∀ tx ∈ o.former, tx.isOpen = false

namespace SinkWay

variable {i : Instrument} {first : Nat} {o o' : ClientOutput} {acc owed buf todo : List Stretch}
  {strict : Prop}

/-- The ring keeps one record, that of the instrument, or none. -/
theorem gaps_cases {r : ClientRing} (hinst : ∀ g ∈ r.gaps, g.instrument = i) :
    r.gaps = [] ∨ ∃ g, r.gaps = [g] := by
  have hnodup := nodup_gaps r
  cases hgaps : r.gaps with
  | nil => exact .inl rfl
  | cons g gs =>
      cases gs with
      | nil => exact .inr ⟨g, rfl⟩
      | cons k ks =>
          rw [hgaps] at hnodup hinst
          have heq : g.instrument = k.instrument :=
            (hinst g (by simp)).trans (hinst k (by simp)).symm
          simp [heq] at hnodup

/-- The one stretch that is owed shows the one record of the ring. -/
theorem owed_of_record {r : ClientRing} {g : InstrumentGap} (hg : r.gaps = [g])
    (howed : r.gaps.map InstrumentGap.toEvent = owed.map Stretch.shown)
    (hstands : Standing i first owed) : ∃ w, owed = [w] ∧ w.shown = g.toEvent ∧
      w.sent.head?.map MarketEvent.seq = some g.firstSeq ∧
      ∀ ev ∈ w.sent, ∀ d, gapCoords ev = some d → g.span.Contains d.span := by
  rw [hg] at howed
  obtain ⟨w, rfl, hw⟩ := List.map_eq_singleton_iff.mp howed.symm
  obtain ⟨-, hseq, hspan⟩ := (hstands w (List.mem_singleton_self _)).covers
    (c := ⟨g.instrument, g.span, g.provider⟩) (by rw [hw]; rfl)
  rw [hw] at hseq
  exact ⟨w, rfl, hw, hseq, hspan⟩

/-- Nothing is owed where the ring keeps no record. -/
theorem owed_eq_nil {r : ClientRing} (hnil : r.gaps = [])
    (howed : r.gaps.map InstrumentGap.toEvent = owed.map Stretch.shown) : owed = [] := by
  rw [hnil] at howed
  exact List.map_eq_nil_iff.mp howed.symm

/-- What is evicted without a loss to account for: it joins what is owed, or it is gone. -/
theorem evict_control (strict : Prop) {r : ClientRing} {x : MarketEvent × String} {t : Stretch}
    (hinst : ∀ g ∈ r.gaps, g.instrument = i)
    (howed : r.gaps.map InstrumentGap.toEvent = owed.map Stretch.shown)
    (hstands : Standing i first owed) (ht : Stretch.Stands i first t.sent t.shown)
    (hx : x.1 = t.shown) (hc : ringCoords x = none)
    (hok : strict → x.1.isAccounted = true ∨ r.dropped.entries ≠ [] ∨ x.1.seq = Seq.synthetic) :
    ∃ owed', Standing i first owed' ∧
      r.gaps.map InstrumentGap.toEvent = owed'.map Stretch.shown ∧
      Retains strict (sentOf owed ++ t.sent) (sentOf owed') := by
  have hnone : gapCoords t.shown = none := by
    rw [← Option.not_isSome_iff_eq_none, gapCoords_isSome, ← hx]
    have hsome := ringCoords_isSome x
    rw [hc] at hsome
    simpa [MarketEvent.isAccounted] using hsome.symm
  have hacc : x.1.isAccounted = false := by
    rw [← gapCoords_isSome, hx, hnone]
    rfl
  rcases gaps_cases hinst with hnil | ⟨g, hg⟩
  · obtain rfl := owed_eq_nil hnil howed
    refine ⟨[], fun _ h => absurd h List.not_mem_nil, howed, ?_⟩
    obtain ⟨sent, shown⟩ := t
    dsimp only at ht hnone hx ⊢
    cases ht with
    | itself ev hseq =>
        -- a control is lost; a strict account has none such
        refine Retains.drop (hx ▸ hacc) fun hs => ?_
        rcases hok hs with h | h | h
        · exact absurd (h.symm.trans hacc) (by decide)
        · exact h (List.map_eq_nil_iff.mp hnil)
        · exact hseq (hx ▸ h)
    | hole => cases hnone
    | extra => exact .refl _ _
  · obtain ⟨w, rfl, hw, hseq, hspan⟩ := owed_of_record hg howed hstands
    obtain rfl := hinst g (by simp [hg])
    refine ⟨[⟨w.sent ++ t.sent, w.shown⟩], ?_, howed, .of_eq (by simp)⟩
    intro t' ht'
    obtain rfl := List.mem_singleton.mp ht'
    show Stretch.Stands g.instrument first (w.sent ++ t.sent) w.shown
    rw [hw]
    refine .grow hseq hspan ?_ _ _ _
    intro ev hev d hd
    obtain ⟨sent, shown⟩ := t
    dsimp only at ht hnone hev
    cases ht with
    | itself =>
        obtain rfl := List.mem_singleton.mp hev
        cases hnone.symm.trans hd
    | hole => cases hnone
    | extra => cases hev

/-- What is evicted with a loss: the ring's record takes it in, or starts with it. -/
theorem evict_loss (strict : Prop) {r : ClientRing} {x : MarketEvent × String} {t : Stretch}
    {c : LossCoords} (hinst : ∀ g ∈ r.gaps, g.instrument = i)
    (howed : r.gaps.map InstrumentGap.toEvent = owed.map Stretch.shown)
    (hstands : Standing i first owed) (ht : Stretch.Stands i first t.sent t.shown)
    (hx : x.1 = t.shown) (hc : ringCoords x = some c) :
    ∃ owed' g, Standing i first owed' ∧
      (ClientRing.mk r.ring (noteDrop r.dropped x)).gaps = [g] ∧ g.instrument = i ∧
      [g.toEvent] = owed'.map Stretch.shown ∧
      Retains strict (sentOf owed ++ t.sent) (sentOf owed') := by
  obtain ⟨d, hd, hspan, hinstd⟩ := gapCoords_of_ringCoords hc
  rw [hx] at hd
  obtain ⟨hdi, hhead, hcovers⟩ := ht.covers hd
  have hci : c.instrument = i := hinstd.symm.trans hdi
  -- all records of the ring are of the one instrument, so `noteDrop` leaves a single record `g`
  obtain ⟨g, hgaps, hgi, hgc, hcase⟩ := gaps_noteDrop r hc
  have hfilter : r.gaps.filter (fun k => k.instrument ≠ c.instrument) = [] := by
    refine List.filter_eq_nil_iff.mpr ?_
    intro k hk
    simp [hinst k hk, hci]
  rw [hfilter] at hgaps
  obtain rfl : g.instrument = i := hgi.trans hci
  have hnew : ∀ ev ∈ t.sent, ∀ d, gapCoords ev = some d → g.span.Contains d.span := by
    intro ev hev e he
    rw [hspan] at hcovers
    exact hgc.trans (hcovers ev hev e he)
  rcases hcase with ⟨hno, hseq⟩ | ⟨k, hk, -, hseq, hgk⟩
  -- no record yet: the evicted stretch starts one
  · have hnil : r.gaps = [] := by
      rcases gaps_cases hinst with hnil | ⟨k, hk⟩
      · exact hnil
      · exact absurd ((hinst k (by simp [hk])).trans hci.symm) (hno k (by simp [hk]))
    obtain rfl := owed_eq_nil hnil howed
    refine ⟨[⟨t.sent, g.toEvent⟩], g, ?_, hgaps, rfl, rfl, .of_eq (by simp)⟩
    intro t' ht'
    obtain rfl := List.mem_singleton.mp ht'
    refine .hole _ _ _ _ _ _ ?_ hnew
    rw [hhead, hseq, hx]
  -- the record that is there takes the stretch in, and what it stood for before it still covers
  · have hone : r.gaps = [k] := by
      rcases gaps_cases hinst with hnil | ⟨k', hk'⟩
      · rw [hnil] at hk
        cases hk
      · rw [hk'] at hk
        rw [List.mem_singleton.mp hk, hk']
    obtain ⟨w, rfl, -, hwseq, hwspan⟩ := owed_of_record hone howed hstands
    refine ⟨[⟨w.sent ++ t.sent, g.toEvent⟩], g, ?_, hgaps, rfl, rfl, .of_eq (by simp)⟩
    intro t' ht'
    obtain rfl := List.mem_singleton.mp ht'
    refine .grow ?_ (fun ev hev e he => hgk.trans (hwspan ev hev e he)) hnew _ _ _
    rw [hwseq, hseq]

/-- Evicting the front of the ring makes one stretch of it and of what is owed. -/
theorem evict (strict : Prop) {r : ClientRing} {x : MarketEvent × String} {t : Stretch}
    (hinst : ∀ g ∈ r.gaps, g.instrument = i)
    (howed : r.gaps.map InstrumentGap.toEvent = owed.map Stretch.shown)
    (hstands : Standing i first (owed ++ [t])) (hx : x.1 = t.shown)
    (hok : strict → x.1.isAccounted = true ∨ r.dropped.entries ≠ [] ∨ x.1.seq = Seq.synthetic) :
    ∃ owed', Standing i first owed' ∧
      (ClientRing.mk r.ring (noteDrop r.dropped x)).gaps.map InstrumentGap.toEvent =
        owed'.map Stretch.shown ∧
      (∀ g ∈ (ClientRing.mk r.ring (noteDrop r.dropped x)).gaps, g.instrument = i) ∧
      Retains strict (sentOf owed ++ t.sent) (sentOf owed') := by
  have ht : Stretch.Stands i first t.sent t.shown := hstands t (by simp)
  have hold : Standing i first owed := fun w hw => hstands w (List.mem_append_left _ hw)
  cases hc : ringCoords x with
  | none =>
      have hsame : noteDrop r.dropped x = r.dropped := by
        have hcoords : x.1.lossCoords (fun _ => x.2) = none := hc
        simp only [noteDrop, hcoords]
      rw [hsame]
      obtain ⟨owed', hstands', howed', hretains⟩ :=
        evict_control strict hinst howed hold ht hx hc hok
      exact ⟨owed', hstands', howed', hinst, hretains⟩
  | some c =>
      obtain ⟨owed', g, hstands', hgaps, hg, howed', hretains⟩ :=
        evict_loss strict hinst howed hold ht hx hc
      rw [hgaps]
      exact ⟨owed', hstands', howed', by simpa using hg, hretains⟩

/-- While a stream is attached nothing is owed and nothing buffered. -/
theorem of_attached {tx : Channel MarketEvent} (h : SinkWay i first o acc owed buf todo)
    (hsink : o.sink = .attached tx) : owed = [] ∧ buf = [] := by
  have howed := h.owed_eq
  have hbuf := h.buffered_eq
  simp only [ClientOutput.gapRecords, ClientOutput.buffered, ClientOutput.ring, hsink,
    Option.elim_none, List.map_nil] at howed hbuf
  exact ⟨List.map_eq_nil_iff.mp howed.symm, List.map_eq_nil_iff.mp hbuf.symm⟩

theorem of_detached {ring : ClientRing} (h : SinkWay i first o acc owed buf todo)
    (hsink : o.sink = .detached ring) :
    ring.gaps.map InstrumentGap.toEvent = owed.map Stretch.shown ∧
    (∀ g ∈ ring.gaps, g.instrument = i) ∧
    ring.ring.buf.map Prod.fst = buf.map Stretch.shown := by
  have howed := h.owed_eq
  have hbuf := h.buffered_eq
  have hinst := h.instrument
  simp only [ClientOutput.gapRecords, ClientOutput.buffered, ClientOutput.ring, hsink,
    Option.elim_some] at howed hbuf hinst
  exact ⟨howed, hinst, hbuf⟩

/-- The streams of an attached sink: the former ones, closed and drained, and its own. -/
theorem attached {tx : Channel MarketEvent} (hsink : o.sink = .attached tx)
    (haccepted : o.former.flatMap Channel.accepted ++ tx.accepted = acc.map Stretch.shown)
    (hreplay : o.replay.map Prod.fst = todo.map Stretch.shown)
    (hstands : Standing i first (acc ++ todo))
    (hformer : ∀ tx ∈ o.former, tx.isOpen = false ∧ tx.queue = [])
    (htx : tx.isOpen = false → tx.queue = []) : SinkWay i first o acc [] [] todo := by
  refine ⟨?_, ?_, ?_, ?_, hreplay, by simpa using hstands, ?_, fun t ht => (hformer t ht).1⟩
  · rw [Ledger.accepted_attached hsink]
    exact haccepted
  · simp [ClientOutput.gapRecords, ClientOutput.ring, hsink]
  · simp [ClientOutput.gapRecords, ClientOutput.ring, hsink]
  · simp [ClientOutput.buffered, ClientOutput.ring, hsink]
  · intro t ht
    rw [ClientOutput.streams, hsink] at ht
    rcases List.mem_append.mp ht with ht | ht
    · exact fun _ => (hformer t ht).2
    · obtain rfl := List.mem_singleton.mp ht
      exact htx

theorem detached {ring : ClientRing} (hsink : o.sink = .detached ring)
    (haccepted : o.former.flatMap Channel.accepted = acc.map Stretch.shown)
    (howed : ring.gaps.map InstrumentGap.toEvent = owed.map Stretch.shown)
    (hinst : ∀ g ∈ ring.gaps, g.instrument = i)
    (hbuf : ring.ring.buf.map Prod.fst = buf.map Stretch.shown)
    (hreplay : o.replay.map Prod.fst = todo.map Stretch.shown)
    (hstands : Standing i first (acc ++ owed ++ (buf ++ todo)))
    (hformer : ∀ tx ∈ o.former, tx.isOpen = false ∧ tx.queue = []) :
    SinkWay i first o acc owed buf todo := by
  refine ⟨?_, ?_, ?_, ?_, hreplay, hstands, ?_, fun t ht => (hformer t ht).1⟩
  · rw [Ledger.accepted_detached hsink]
    exact haccepted
  · simpa [ClientOutput.gapRecords, ClientOutput.ring, hsink] using howed
  · simpa [ClientOutput.gapRecords, ClientOutput.ring, hsink] using hinst
  · simpa [ClientOutput.buffered, ClientOutput.ring, hsink] using hbuf
  · intro t ht _
    rw [ClientOutput.streams, hsink] at ht
    exact (hformer t ht).2

theorem former_drained (h : SinkWay i first o acc owed buf todo) :
    ∀ tx ∈ o.former, tx.isOpen = false ∧ tx.queue = [] := by
  intro tx htx
  have hclosed := h.former tx htx
  refine ⟨hclosed, h.dropped tx ?_ hclosed⟩
  unfold ClientOutput.streams
  cases o.sink with
  | attached tx' => exact List.mem_append_left _ htx
  | detached ring => exact htx

/-- An event begins to be delivered. -/
theorem hand (h : SinkWay i first o acc owed buf todo) (hidle : o.replay = [])
    {x : MarketEvent × String} {t : Stretch} (hx : x.1 = t.shown)
    (ht : Stretch.Stands i first t.sent t.shown) :
    todo = [] ∧ SinkWay i first { o with replay := [x] } acc owed buf [t] := by
  have htodo : todo = [] := by
    have hreplay := h.replay_eq
    rw [hidle] at hreplay
    exact List.map_eq_nil_iff.mp hreplay.symm
  subst htodo
  refine ⟨rfl, h.accepted_eq, h.owed_eq, h.instrument, h.buffered_eq, ?_, ?_, h.dropped, h.former⟩
  · simp [hx]
  · intro t' ht'
    have hold := h.stands t'
    simp only [List.mem_append, List.mem_singleton, List.not_mem_nil, or_false] at ht' hold
    rcases ht' with ht' | ht' | rfl
    · exact hold (.inl ht')
    · exact hold (.inr ht')
    · exact ht

/-- The next event of the replay goes into the ring. -/
theorem push (strict : Prop) {ring : ClientRing} {x : MarketEvent × String} {t : Stretch}
    (howed : ring.gaps.map InstrumentGap.toEvent = owed.map Stretch.shown)
    (hinst : ∀ g ∈ ring.gaps, g.instrument = i)
    (hbuf : ring.ring.buf.map Prod.fst = buf.map Stretch.shown) (hx : x.1 = t.shown)
    (hstands : Standing i first (owed ++ (buf ++ [t])))
    (hok : strict → ∀ y ∈ ring.ring.evicted,
      y.1.isAccounted = true ∨ ring.dropped.entries ≠ [] ∨ y.1.seq = Seq.synthetic) :
    ∃ owed' buf', (ring.push x).1.gaps.map InstrumentGap.toEvent = owed'.map Stretch.shown ∧
      (∀ g ∈ (ring.push x).1.gaps, g.instrument = i) ∧
      (ring.push x).1.ring.buf.map Prod.fst = buf'.map Stretch.shown ∧
      Standing i first (owed' ++ buf') ∧
      Retains strict (sentOf (owed ++ (buf ++ [t]))) (sentOf (owed' ++ buf')) := by
  have hpush : (ring.push x).1 =
      ⟨ring.ring.push x, ring.ring.evicted.elim ring.dropped (noteDrop ring.dropped)⟩ := rfl
  rw [hpush]
  rcases ring.ring.push_cases x with ⟨y, rest, hring, hev, hnext⟩ | ⟨hev, hnext, -⟩
  · -- the front of the ring is evicted
    rw [hring] at hbuf
    obtain ⟨u, buf', rfl, hu, hrest⟩ := List.map_eq_cons_iff.mp hbuf.symm
    obtain ⟨owed', hstands', howed', hinst', hretains⟩ := evict strict (r := ring)
      hinst howed (t := u) (fun t' ht' => hstands t' (by
        simp only [List.mem_append, List.mem_singleton] at ht' ⊢
        rcases ht' with ht' | rfl
        · exact .inl ht'
        · exact .inr (.inl List.mem_cons_self))) hu.symm (fun hs => hok hs y hev)
    refine ⟨owed', buf' ++ [t], ?_, ?_, ?_, ?_, ?_⟩
    · simp only [hev, Option.elim_some]
      exact howed'
    · simp only [hev, Option.elim_some]
      exact hinst'
    · rw [hnext, List.map_append, List.map_append, hrest]
      simp [hx]
    · intro t' ht'
      rcases List.mem_append.mp ht' with ht' | ht'
      · exact hstands' t' ht'
      · refine hstands t' ?_
        simp only [List.mem_append, List.mem_cons] at ht' ⊢
        exact .inr (ht'.imp_left .inr)
    · have hall := hretains.append (.refl strict (sentOf (buf' ++ [t])))
      simpa using hall
  · refine ⟨owed, buf ++ [t], ?_, ?_, ?_, hstands, .refl _ _⟩
    · simp only [hev, Option.elim_none]
      exact howed
    · simp only [hev, Option.elim_none]
      exact hinst
    · rw [hnext, List.map_append, List.map_append, hbuf]
      simp [hx]

/-- The stream of a consumer that has been dropped joins the former ones. -/
theorem former_snoc (h : SinkWay i first o acc owed buf todo) {tx : Channel MarketEvent}
    (hsink : o.sink = .attached tx) (hclosed : tx.isOpen = false) :
    ∀ tx' ∈ o.former ++ [tx], tx'.isOpen = false ∧ tx'.queue = [] := by
  intro tx' htx'
  rcases List.mem_append.mp htx' with htx' | htx'
  · exact h.former_drained tx' htx'
  · obtain rfl := List.mem_singleton.mp htx'
    refine ⟨hclosed, h.dropped tx' ?_ hclosed⟩
    simp [ClientOutput.streams, hsink]

/-- What a move of the sink, other than the begin of a deliver, makes of its part of the
way. -/
theorem step {a : SinkAction} (h : SinkWay i first o acc owed buf todo)
    (hstream : o.KeepsStream a) (hcontrols : strict → o.KeepsControls a)
    (hdeliver : ∀ x, a ≠ .deliver x) (hstep : o.step a = some o') :
    ∃ acc' owed' buf' todo', SinkWay i first o' acc' owed' buf' todo' ∧
      Retains strict (sentOf (acc ++ owed ++ (buf ++ todo)))
        (sentOf (acc' ++ owed' ++ (buf' ++ todo'))) := by
  have hformer := h.former_drained
  cases ClientOutput.step_cases hstep with
  | deliver => exact absurd rfl (hdeliver _)
  | @send x replay tx tx' hreplay hsink hsend =>
      obtain ⟨rfl, rfl⟩ := h.of_attached hsink
      have hreplayed := h.replay_eq
      rw [hreplay] at hreplayed
      obtain ⟨t, todo', rfl, ht, htodo⟩ := List.map_eq_cons_iff.mp hreplayed.symm
      obtain ⟨hopen, rfl⟩ := Channel.eq_of_sent hsend
      refine ⟨acc ++ [t], [], [], todo', attached rfl ?_ htodo.symm ?_ hformer ?_, .of_eq ?_⟩
      · have haccepted := h.accepted_eq
        rw [Ledger.accepted_attached hsink] at haccepted
        show o.former.flatMap _ ++ (tx.taken ++ (tx.queue ++ [x.1])) = _
        rw [List.map_append, ← haccepted]
        simp [Channel.accepted, ht]
      · intro t' ht'
        exact h.stands t' (by simpa using ht')
      · intro hclosed
        cases hclosed.symm.trans hopen
      · simp
  -- the send finds the stream closed: the event in hand is the first of a new ring
  | @detach x replay tx hreplay hsink hsend =>
      obtain ⟨rfl, rfl⟩ := h.of_attached hsink
      have hreplayed := h.replay_eq
      rw [hreplay] at hreplayed
      obtain ⟨t, todo', rfl, ht, htodo⟩ := List.map_eq_cons_iff.mp hreplayed.symm
      have hclosed := Channel.isOpen_of_closed hsend
      have hempty : (ClientRing.new o.ringCapacity).gaps.map InstrumentGap.toEvent =
          ([] : List Stretch).map Stretch.shown := rfl
      have hnext : Standing i first ([] ++ ([] ++ [t])) :=
        fun t' ht' => h.stands t' (by simp at ht'; simp [ht'])
      obtain ⟨owed', buf', howed, hinst, hbuf, hstands, hretains⟩ :=
        push strict hempty (fun _ h => absurd h List.not_mem_nil) rfl ht.symm hnext
          (fun _ y hy => by cases (EvictRing.evicted_new o.ringCapacity).symm.trans hy)
      have hnew : Standing i first (acc ++ ((owed' ++ buf') ++ todo')) :=
        @Standing.replace _ _ _ [t] _ _ (by simpa using h.stands) hstands
      refine ⟨acc, owed', buf', todo', detached rfl ?_ howed hinst hbuf htodo.symm
        (by simpa using hnew) (h.former_snoc hsink hclosed), ?_⟩
      · have haccepted := h.accepted_eq
        rw [Ledger.accepted_attached hsink] at haccepted
        rw [← haccepted]
        show (o.former ++ [tx]).flatMap _ = _
        simp
      · have hall := ((Retains.refl strict (sentOf acc)).append hretains).append
          (.refl strict (sentOf todo'))
        simpa using hall
  | @push x replay ring hreplay hsink =>
      obtain ⟨howed₀, hinst₀, hbuf₀⟩ := h.of_detached hsink
      have hreplayed := h.replay_eq
      rw [hreplay] at hreplayed
      obtain ⟨t, todo', rfl, ht, htodo⟩ := List.map_eq_cons_iff.mp hreplayed.symm
      obtain ⟨owed', buf', howed, hinst, hbuf, hstands, hretains⟩ :=
        push strict (x := x) (t := t) howed₀ hinst₀ hbuf₀ ht.symm
          (fun t' ht' => h.stands t' (by
            simp only [List.mem_append, List.mem_cons, List.not_mem_nil, or_false] at ht' ⊢
            rcases ht' with ht' | ht' | ht'
            · exact .inl (.inr ht')
            · exact .inr (.inl ht')
            · exact .inr (.inr (.inl ht'))))
          (fun hs => hcontrols hs ring (by simp [ClientOutput.ring, hsink]))
      have hnew : Standing i first (acc ++ ((owed' ++ buf') ++ todo')) :=
        @Standing.replace _ _ _ (owed ++ (buf ++ [t])) _ _ (by simpa using h.stands) hstands
      refine ⟨acc, owed', buf', todo', detached rfl ?_ howed hinst hbuf htodo.symm
        (by simpa using hnew) hformer, ?_⟩
      · have haccepted := h.accepted_eq
        rw [Ledger.accepted_detached hsink] at haccepted
        exact haccepted
      · have hall := ((Retains.refl strict (sentOf acc)).append hretains).append
          (.refl strict (sentOf todo'))
        simpa using hall
  | taken => exact ⟨acc, owed, buf, todo, h, .refl _ _⟩
  | @attach gaps tx hidle hsink hclosed =>
      obtain ⟨rfl, rfl⟩ := h.of_attached hsink
      refine ⟨acc, [], [], todo, attached rfl ?_ h.replay_eq ?_ (h.former_snoc hsink hclosed)
        (fun _ => rfl), .refl _ _⟩
      · have haccepted := h.accepted_eq
        rw [Ledger.accepted_attached hsink] at haccepted
        rw [← haccepted]
        show (o.former ++ [tx]).flatMap _ ++ [] = _
        simp
      · intro t' ht'
        exact h.stands t' (by simpa using ht')
  -- what is owed goes before what is buffered, and with one instrument the order of the records
  -- does not matter
  | @flush gaps ring hidle hsink hgaps =>
      obtain ⟨howed, hinst, hbuf⟩ := h.of_detached hsink
      have htodo : todo = [] := by
        have hreplay := h.replay_eq
        rw [hidle] at hreplay
        exact List.map_eq_nil_iff.mp hreplay.symm
      subst htodo
      have hlisted : gaps = ring.gaps := by
        have hperm := hgaps.1
        rcases gaps_cases hinst with hnil | ⟨g, hg⟩
        · rw [hnil] at hperm ⊢
          exact hperm.eq_nil
        · rw [hg] at hperm ⊢
          exact List.perm_singleton.mp hperm
      refine ⟨acc, [], [], owed ++ buf, attached rfl ?_ ?_ ?_ hformer (fun _ => rfl), .of_eq ?_⟩
      · have haccepted := h.accepted_eq
        rw [Ledger.accepted_detached hsink] at haccepted
        show o.former.flatMap _ ++ [] = _
        rw [List.append_nil]
        exact haccepted
      · show ((gaps.map fun g => (g.toEvent, g.provider)) ++ ring.ring.buf).map Prod.fst = _
        rw [List.map_append, List.map_map, List.map_append, ← howed, ← hbuf, hlisted]
        rfl
      · intro t' ht'
        exact h.stands t' (by simpa [or_assoc] using ht')
      · simp
  | @consume tx tx' hsink hrecv =>
      obtain ⟨rfl, rfl⟩ := h.of_attached hsink
      have haccepted := h.accepted_eq
      rw [Ledger.accepted_attached hsink, ← Channel.accepted_recv hrecv] at haccepted
      obtain ⟨hopen, x, queue, -, rfl⟩ := Channel.recv_eq_some hrecv
      refine ⟨acc, [], [], todo, attached rfl haccepted h.replay_eq ?_ hformer ?_, .refl _ _⟩
      · intro t' ht'
        exact h.stands t' (by simpa using ht')
      · intro hclosed
        cases hclosed.symm.trans hopen
  | @dropStream tx hsink hopen =>
      obtain ⟨rfl, rfl⟩ := h.of_attached hsink
      have haccepted := h.accepted_eq
      rw [Ledger.accepted_attached hsink] at haccepted
      refine ⟨acc, [], [], todo, attached rfl haccepted h.replay_eq ?_ hformer ?_, .refl _ _⟩
      · intro t' ht'
        exact h.stands t' (by simpa using ht')
      · exact fun _ => hstream tx (by simp [ClientOutput.streams, hsink])

theorem init (ringCapacity buffer : Nat) :
    SinkWay i first (.init ringCapacity buffer) [] [] [] [] := by
  have hsink : (ClientOutput.init ringCapacity buffer).sink = .detached (.new ringCapacity) := rfl
  exact detached hsink rfl rfl (fun g hg => absurd hg List.not_mem_nil) rfl rfl
    (fun t ht => absurd ht List.not_mem_nil) fun tx htx => absurd htx List.not_mem_nil

end SinkWay

/-! ### The feed's part of the way -/

/-- No control is lost at the fan-out without a trace: it finds room behind the gap owed,
if there is one, or joins that gap. -/
def Referrer.KeepsControls (r : Referrer) (ev : MarketEvent) : Prop :=
  ev.isAccounted = true ∨ (r.pending.isSome = true ∧ r.tx.hasRoom = false) ∨
    r.tx.queue.length + r.pending.toList.length < r.tx.cap

instance (r : Referrer) (ev : MarketEvent) : Decidable (r.KeepsControls ev) :=
  inferInstanceAs (Decidable (_ ∨ _))

/-- A gap is owed behind what waits on the substream. -/
structure Referrer.OwedBehind (r : Referrer) : Prop where
  cap : 0 < r.tx.cap
  pending : r.tx.queue = [] → r.pending = none

namespace Referrer.OwedBehind

variable {r r' : Referrer} {ev : MarketEvent}

theorem queue_ne_nil (h : r.OwedBehind) (hroom : r.tx.hasRoom = false) : r.tx.queue ≠ [] := by
  intro hnil
  have hle : r.tx.cap ≤ r.tx.queue.length := not_lt.mp (of_decide_eq_false hroom)
  rw [hnil] at hle
  exact absurd h.cap (not_lt.mpr hle)

theorem relay (h : r.OwedBehind) (hnone : r.pending = none) (hr : r.relay ev = some r') :
    r'.OwedBehind := by
  unfold Referrer.relay at hr
  rcases r.tx.trySend_cases ev with ⟨-, -, hs⟩ | ⟨-, hroom, hs⟩ | ⟨-, hs⟩
  · rw [hs] at hr
    obtain rfl := Option.some.inj hr
    exact ⟨h.cap, fun _ => hnone⟩
  · rw [hs] at hr
    obtain rfl := Option.some.inj hr
    exact ⟨h.cap, fun hnil => absurd hnil (h.queue_ne_nil hroom)⟩
  · rw [hs] at hr
    cases hr

/-- The fan-out owes a gap only to a referrer whose channel it found full. -/
theorem fanout (h : r.OwedBehind) (hr : r.fanout ev = some r') : r'.OwedBehind := by
  unfold Referrer.fanout at hr
  cases hp : r.pending with
  | none =>
      rw [hp] at hr
      exact h.relay hp hr
  | some g =>
      rw [hp] at hr
      rcases r.tx.trySend_cases g.toEvent with ⟨-, -, hs⟩ | ⟨-, hroom, hs⟩ | ⟨-, hs⟩
      · simp only [hs] at hr
        exact relay (r := ⟨{ r.tx with queue := r.tx.queue ++ [g.toEvent] }, none⟩)
          ⟨h.cap, fun _ => rfl⟩ rfl hr
      · simp only [hs] at hr
        obtain rfl := Option.some.inj hr
        exact ⟨h.cap, fun hnil => absurd hnil (h.queue_ne_nil hroom)⟩
      · simp only [hs] at hr
        cases hr

end Referrer.OwedBehind

/-- What waits on a substream, and what its referrer is owed. -/
structure FeedWay (i : Instrument) (first : Nat) (queue : List MarketEvent)
    (pending : Option PendingGap) (line tail : List Stretch) : Prop where
  queue_eq : queue = line.map Stretch.shown
  pending_eq : pending.toList.map PendingGap.toEvent = tail.map Stretch.shown
  stands : Standing i first (line ++ tail)

namespace FeedWay

variable {i : Instrument} {first : Nat} {r r' : Referrer} {ev : MarketEvent}
  {line tail : List Stretch} {strict : Prop}

theorem relay (strict : Prop) (h : FeedWay i first r.tx.queue r.pending line [])
    (hnone : r.pending = none) (hseq : ev.seq ≠ Seq.synthetic)
    (hinst : ∀ c, gapCoords ev = some c → c.instrument = i)
    (hok : strict → ev.isAccounted = true ∨ r.tx.hasRoom = true) (hr : r.relay ev = some r') :
    ∃ line' tail', FeedWay i first r'.tx.queue r'.pending line' tail' ∧
      Retains strict (sentOf line ++ [ev]) (sentOf (line' ++ tail')) := by
  have hline : Standing i first line := fun t ht => h.stands t (List.mem_append_left _ ht)
  unfold Referrer.relay at hr
  rcases r.tx.trySend_cases ev with ⟨-, -, hs⟩ | ⟨-, hroom, hs⟩ | ⟨-, hs⟩
  -- the stream has room: the event is shown as itself
  · rw [hs] at hr
    obtain rfl := Option.some.inj hr
    refine ⟨line ++ [⟨[ev], ev⟩], [], ⟨?_, ?_, ?_⟩, .of_eq (by simp)⟩
    · simp [h.queue_eq]
    · simp [hnone]
    · intro t ht
      simp only [List.append_nil, List.mem_append, List.mem_singleton] at ht
      rcases ht with ht | rfl
      · exact hline t ht
      · exact .itself ev hseq hinst
  · rw [hs] at hr
    obtain rfl := Option.some.inj hr
    cases hc : gapCoords ev with
    | none =>
        -- a control that meets a full stream is dropped without a record
        have hacc : ev.isAccounted = false := by
          rw [← gapCoords_isSome, hc]
          rfl
        refine ⟨line, [], ⟨h.queue_eq, by simp [absorbDrop, hc, hnone], by simpa using hline⟩, ?_⟩
        have hdrop : Retains strict [ev] [] := by
          refine .drop hacc fun hs => ?_
          rcases hok hs with h | h
          · exact absurd (h.symm.trans hacc) (by decide)
          · exact absurd (h.symm.trans hroom) (by decide)
        have hall := (Retains.refl strict (sentOf line)).append hdrop
        simpa using hall
    | some c =>
        -- data that meets a full stream opens the pending gap
        obtain rfl := hinst c hc
        refine ⟨line, [⟨[ev], PendingGap.toEvent ⟨c.instrument, c.provider, ev.seq, c.span⟩⟩],
          ⟨h.queue_eq, by simp [absorbDrop, hc, hnone], ?_⟩, .of_eq (by simp)⟩
        intro t ht
        rcases List.mem_append.mp ht with ht | ht
        · exact hline t ht
        · obtain rfl := List.mem_singleton.mp ht
          refine .hole _ _ _ _ _ _ rfl ?_
          intro ev' hev d hd
          obtain rfl := List.mem_singleton.mp hev
          obtain rfl := Option.some.inj (hc.symm.trans hd)
          exact .refl _
  · rw [hs] at hr
    cases hr

/-- One more event is fanned out. -/
theorem fanout (strict : Prop) (h : FeedWay i first r.tx.queue r.pending line tail)
    (hseq : ev.seq ≠ Seq.synthetic) (hinst : ∀ c, gapCoords ev = some c → c.instrument = i)
    (hok : strict → r.KeepsControls ev) (hr : r.fanout ev = some r') :
    ∃ line' tail', FeedWay i first r'.tx.queue r'.pending line' tail' ∧
      Retains strict (sentOf (line ++ tail) ++ [ev]) (sentOf (line' ++ tail')) := by
  unfold Referrer.fanout at hr
  cases hp : r.pending with
  | none =>
      rw [hp] at hr
      have htail : tail = [] := by
        have hpending := h.pending_eq
        rw [hp] at hpending
        exact List.map_eq_nil_iff.mp hpending.symm
      subst htail
      rw [List.append_nil]
      refine relay strict h hp hseq hinst ?_ hr
      intro hs
      rcases hok hs with h | ⟨h, -⟩ | h
      · exact .inl h
      · rw [hp] at h
        cases h
      · refine .inr ?_
        rw [hp] at h
        exact decide_eq_true h
  | some p =>
      have hpending := h.pending_eq
      rw [hp] at hr hpending
      obtain ⟨w, rfl, hw⟩ := List.map_eq_singleton_iff.mp hpending.symm
      have hstandsw : Stretch.Stands i first w.sent w.shown := h.stands w (by simp)
      rcases r.tx.trySend_cases p.toEvent with ⟨-, hroom, hs⟩ | ⟨-, hroom, hs⟩ | ⟨-, hs⟩
      · -- the gap owed goes ahead of the event
        simp only [hs] at hr
        have hflushed : FeedWay i first (r.tx.queue ++ [p.toEvent]) none (line ++ [w]) [] := by
          refine ⟨?_, rfl, by simpa using h.stands⟩
          rw [List.map_append, ← h.queue_eq, List.map_singleton, hw]
        refine relay strict hflushed rfl hseq hinst ?_ hr
        intro hs'
        rcases hok hs' with h | ⟨-, h⟩ | h
        · exact .inl h
        · exact absurd (h.symm.trans hroom) (by decide)
        · refine .inr ?_
          rw [hp] at h
          have hlen : (r.tx.queue ++ [p.toEvent]).length < r.tx.cap := by simpa using h
          exact decide_eq_true hlen
      · -- the event joins what is owed
        simp only [hs] at hr
        obtain rfl := Option.some.inj hr
        obtain ⟨hpi, hhead, hspan⟩ := hstandsw.covers
          (c := ⟨p.instrument, p.span, p.provider⟩) (by rw [hw]; rfl)
        rw [hw] at hhead
        cases hc : gapCoords ev with
        | none =>
            refine ⟨line, [⟨w.sent ++ [ev], w.shown⟩], ⟨h.queue_eq, ?_, ?_⟩, .of_eq (by simp)⟩
            · simp [absorbDrop, hc, hw]
            · intro t ht
              rcases List.mem_append.mp ht with ht | ht
              · exact h.stands t (List.mem_append_left _ ht)
              · obtain rfl := List.mem_singleton.mp ht
                obtain rfl : p.instrument = i := hpi
                show Stretch.Stands p.instrument first (w.sent ++ [ev]) w.shown
                rw [hw]
                refine .grow hhead hspan ?_ _ _ _
                intro ev' hev d hd
                obtain rfl := List.mem_singleton.mp hev
                cases hc.symm.trans hd
        | some c =>
            obtain rfl : p.instrument = i := hpi
            refine ⟨line, [⟨w.sent ++ [ev], (p.absorb c.span).toEvent⟩], ⟨h.queue_eq, ?_, ?_⟩,
              .of_eq (by simp)⟩
            · simp [absorbDrop, hc]
            · intro t ht
              rcases List.mem_append.mp ht with ht | ht
              · exact h.stands t (List.mem_append_left _ ht)
              · obtain rfl := List.mem_singleton.mp ht
                refine .grow hhead ?_ ?_ _ _ _
                · intro ev' hev d hd
                  exact (GapSpan.absorb_contains_left _ _).trans (hspan ev' hev d hd)
                · intro ev' hev d hd
                  obtain rfl := List.mem_singleton.mp hev
                  obtain rfl := Option.some.inj (hc.symm.trans hd)
                  exact GapSpan.absorb_contains_right _ _
      · simp only [hs] at hr
        cases hr

end FeedWay

/-! ### The whole way -/

namespace Multiplex

/-- What waits on the substream of a pair. -/
def waiting (m : Multiplex) (p : Pair) : List MarketEvent := (m.substream p).elim [] Channel.queue

/-- The gap the fan-out owes the client. -/
def pendingOf (m : Multiplex) (p : Pair) : Option PendingGap :=
  (m.feed p).solo.2.bind Referrer.pending

/-- What a step stamps for the client while it is subscribed. -/
def stampedFor (p : Pair) (m : Multiplex) : MultiplexAction → List MarketEvent
  | .forward q ev =>
      if q = p ∧ (m.feed p).solo.2.isSome then [ev.stampSeq ⟨(m.feed p).nextSeq⟩] else []
  | _ => []

/-- One client session on one authoritative controller: the client subscribes once, when
the controller has stamped `first` events. -/
def OneSession (p : Pair) (first : Nat) (m : Multiplex) : MultiplexAction → Prop
  | .subscribe q _ => q = p ∧ m.epoch p = 0 ∧ (m.feed p).nextSeq.toNat = first
  | .unsubscribe .. => False
  | .forward q _ | .renew q | .receive q | .substreamEnd q _ => q = p
  | .close _ | .sink _ => True

/-- Nothing that is accounted for leaves the accounts: the provider sends what is of the
pair's instrument and below the top of the timestamps, the authoritative controller ends
owing nothing, and a stream is dropped only when all in it has been taken. -/
def KeepsEvents (p : Pair) (m : Multiplex) : MultiplexAction → Prop
  | .forward _ ev => (∀ c, gapCoords ev = some c → c.instrument = p.1) ∧
      ∀ ts, ev.dataSourceTs = some ts → ts.toInt < 2 ^ 63 - 1
  | .renew q => m.pendingOf q = none
  | .sink a => m.client.output.KeepsStream a
  | _ => True

/-- What the fan-out owes is shown: it sends a gap ahead of the next event only, so the client
never takes the last event off its substream while one is owed. -/
def ShowsOwed (p : Pair) (m : Multiplex) : MultiplexAction → Prop
  | .receive _ => m.pendingOf p = none ∨ 1 < (m.waiting p).length
  | _ => True

/-- No other control is lost: at the fan-out, by being coalesced, or in the ring. -/
def KeepsControls (m : Multiplex) : MultiplexAction → Prop
  | .forward p ev => ∀ r ∈ (m.feed p).solo.2, r.KeepsControls ev
  | .receive p => ∀ tx ∈ m.substream p, ∀ ev ∈ tx.queue.head?, (m.client.route p ev).1.isSome
  | .sink a => m.client.output.KeepsControls a
  | _ => True

instance (p : Pair) (first : Nat) (m : Multiplex) : DecidablePred (m.OneSession p first)
  | .subscribe q _ =>
      inferInstanceAs (Decidable (q = p ∧ m.epoch p = 0 ∧ (m.feed p).nextSeq.toNat = first))
  | .unsubscribe .. => .isFalse id
  | .forward q _ | .renew q | .receive q | .substreamEnd q _ => inferInstanceAs (Decidable (q = p))
  | .close _ | .sink _ => .isTrue trivial

instance (p : Pair) (m : Multiplex) : DecidablePred (m.KeepsEvents p)
  | .forward _ ev => inferInstanceAs (Decidable ((∀ c ∈ gapCoords ev, c.instrument = p.1) ∧
      ∀ ts ∈ ev.dataSourceTs, ts.toInt < 2 ^ 63 - 1))
  | .renew q => inferInstanceAs (Decidable (m.pendingOf q = none))
  | .sink a => inferInstanceAs (Decidable (m.client.output.KeepsStream a))
  | .subscribe .. | .unsubscribe .. | .receive .. | .substreamEnd .. | .close _ => .isTrue trivial

instance (p : Pair) (m : Multiplex) : DecidablePred (m.ShowsOwed p)
  | .receive _ => inferInstanceAs (Decidable (m.pendingOf p = none ∨ 1 < (m.waiting p).length))
  | .subscribe .. | .unsubscribe .. | .forward .. | .renew .. | .substreamEnd .. | .close _
  | .sink _ => .isTrue trivial

instance (m : Multiplex) : DecidablePred m.KeepsControls
  | .forward p _ => inferInstanceAs (Decidable (∀ r ∈ (m.feed p).solo.2, _))
  | .receive p => inferInstanceAs (Decidable (∀ tx ∈ m.substream p, ∀ ev ∈ tx.queue.head?, _))
  | .sink a => inferInstanceAs (Decidable (m.client.output.KeepsControls a))
  | .subscribe .. | .unsubscribe .. | .renew .. | .substreamEnd .. | .close _ => .isTrue trivial

/-- What was stamped for the client is all along the way to the consumer. -/
def Surfaced (p : Pair) (first : Nat) (strict : Prop) (log : List MarketEvent)
    (m : Multiplex) : Prop :=
  ∃ acc owed buf todo line tail, SinkWay p.1 first m.client.output acc owed buf todo ∧
    FeedWay p.1 first (m.waiting p) (m.pendingOf p) line tail ∧
    Retains strict log (sentOf (acc ++ owed ++ (buf ++ todo)) ++ sentOf (line ++ tail))

/-- How the controller of the pair stands to what it has stamped for the client. -/
structure Joined (p : Pair) (first : Nat) (log : List MarketEvent) (m : Multiplex) : Prop where
  numbered : log.map (fun ev => ev.seq.toNat) = List.range' first log.length
  stamped : ∀ ev ∈ log, ev.seq ≠ Seq.synthetic ∧
    ∀ ts, ev.dataSourceTs = some ts → ts.toInt < 2 ^ 63 - 1
  counter : (m.feed p).solo.2.isSome → first + log.length = (m.feed p).nextSeq.toNat
  cached : ∀ ev, (m.feed p).solo.1 = some ev → ev.isAccounted = false
  /-- Before the client subscribes. -/
  before : m.epoch p = 0 → log = [] ∧ (m.feed p).solo.2 = none ∧ m.ended p = none
  /-- A referrer and an ended substream are not there both. -/
  alone : (m.feed p).solo.2.isSome → m.ended p = none

theorem gapCoords_stampSeq (s : Seq) (ev : MarketEvent) :
    gapCoords (ev.stampSeq s) = gapCoords ev := by
  cases ev with
  | control c =>
      obtain ⟨_, _, _, kind⟩ := c
      cases kind <;> rfl
  | _ => rfl

theorem isAccounted_stampSeq (s : Seq) (ev : MarketEvent) :
    (ev.stampSeq s).isAccounted = ev.isAccounted := by
  rw [← gapCoords_isSome, ← gapCoords_isSome, gapCoords_stampSeq]

theorem isAccounted_of_activation {ev : MarketEvent} (h : ev.isActivation = true) :
    ev.isAccounted = false := by
  cases ev with
  | control c =>
      obtain ⟨_, _, _, kind⟩ := c
      cases kind with
      | subscriptionChanged => rfl
      | _ => cases h
  | _ => cases h

/-- Only controls are coalesced. -/
theorem isAccounted_of_route {c : ClientController} {key : Pair} {ev : MarketEvent}
    (h : (c.route key ev).1 = none) : ev.isAccounted = false := by
  cases ev with
  | control ctl =>
      obtain ⟨_, _, _, kind⟩ := ctl
      cases kind with
      | gap => cases h
      | _ => rfl
  | _ => cases h

variable {p : Pair} {first : Nat} {strict : Prop} {log : List MarketEvent} {m m' : Multiplex}

/-! #### The controller's side -/

theorem epoch_of_step {a : MultiplexAction} (hstep : m.step a = some m') (p : Pair) :
    (∃ provider, a = .subscribe p provider) ∧ m'.epoch p = m.epoch p + 1 ∨
    (∀ provider, a ≠ .subscribe p provider) ∧ m'.epoch p = m.epoch p := by
  have hroute : ∀ (t : Multiplex) (q : Pair) (ev : MarketEvent),
      (t.route q ev).epoch = t.epoch := by
    intro t q ev
    unfold Multiplex.route
    cases hx : (t.client.route q ev).1 <;> simp [hx, hand, setOutput]
  cases step_cases hstep with
  | @subscribe q provider =>
      by_cases hq : p = q
      · subst hq
        exact .inl ⟨⟨provider, rfl⟩, Function.update_self ..⟩
      · refine .inr ⟨?_, Function.update_of_ne hq ..⟩
        intro provider' heq
        exact hq (MultiplexAction.subscribe.inj heq).1.symm
  | receive | receiveEnded =>
      refine .inr ⟨fun _ h => (by cases h), ?_⟩
      rw [hroute]
      rfl
  | _ => exact .inr ⟨fun _ h => (by cases h), rfl⟩

/-- The next event to be stamped. -/
theorem toNat_next {f f' : Feed} {ev : MarketEvent} (hf : f.forward ev = some f') :
    f'.nextSeq.toNat = f.nextSeq.toNat + 1 ∧ (⟨f.nextSeq⟩ : Seq) ≠ Seq.synthetic := by
  obtain ⟨hroom, hnext, -, -⟩ := Feed.forward_eq_some hf
  refine ⟨?_, ?_⟩
  · rw [hnext, UInt64.toNat_add]
    exact Nat.mod_eq_of_lt (by show f.nextSeq.toNat + 1 < _; omega)
  · intro heq
    have hval : f.nextSeq.toNat = 2 ^ 64 - 1 := congrArg Seq.toNat heq
    omega

theorem Joined.step {a : MultiplexAction} (h : Joined p first log m) (hone : m.OneSession p first a)
    (hevents : m.KeepsEvents p a) (hstep : m.step a = some m') :
    Joined p first (log ++ stampedFor p m a) m' := by
  have hepoch := epoch_of_step hstep p
  have hpair := pair_cases hstep p
  -- all that follows is about these two
  have hgoal : ∀ (f : Feed) (e : Option (Channel MarketEvent)), m'.feed p = f → m'.ended p = e →
      (f.solo.2.isSome → first + (log ++ stampedFor p m a).length = f.nextSeq.toNat) →
      (∀ ev, f.solo.1 = some ev → ev.isAccounted = false) →
      (m'.epoch p = 0 → stampedFor p m a = [] ∧ f.solo.2 = none ∧ e = none) →
      (f.solo.2.isSome → e = none) →
      ((log ++ stampedFor p m a).map (fun ev => ev.seq.toNat) =
        List.range' first (log ++ stampedFor p m a).length) →
      (∀ ev ∈ stampedFor p m a, ev.seq ≠ Seq.synthetic ∧
        ∀ ts, ev.dataSourceTs = some ts → ts.toInt < 2 ^ 63 - 1) →
      Joined p first (log ++ stampedFor p m a) m' := by
    intro f e hf he hcounter hcached hbefore halone hnumbered hstamped
    refine ⟨hnumbered, ?_, hf ▸ hcounter, hf ▸ hcached, ?_, hf ▸ he ▸ halone⟩
    · intro ev hev
      rcases List.mem_append.mp hev with hev | hev
      · exact h.stamped ev hev
      · exact hstamped ev hev
    · intro h0
      obtain ⟨hnew, hnone, hended⟩ := hbefore h0
      have hold : m.epoch p = 0 := by
        rcases hepoch with ⟨-, heq⟩ | ⟨-, heq⟩ <;> omega
      exact ⟨by rw [hnew, (h.before hold).1]; rfl, hf ▸ hnone, he ▸ hended⟩
  have hquiet : ∀ (f : Feed) (e : Option (Channel MarketEvent)), m'.feed p = f → m'.ended p = e →
      stampedFor p m a = [] → (f.solo.2.isSome → first + log.length = f.nextSeq.toNat) →
      (∀ ev, f.solo.1 = some ev → ev.isAccounted = false) →
      (m'.epoch p = 0 → f.solo.2 = none ∧ e = none) → (f.solo.2.isSome → e = none) →
      Joined p first (log ++ stampedFor p m a) m' := by
    intro f e hf he hnone hcounter hcached hbefore halone
    refine hgoal f e hf he ?_ hcached (fun h0 => ⟨hnone, hbefore h0⟩) halone ?_ ?_
    · rw [hnone, List.append_nil]
      exact hcounter
    · rw [hnone, List.append_nil]
      exact h.numbered
    · rw [hnone]
      exact fun _ hev => absurd hev List.not_mem_nil
  have hsame : (∀ provider, a ≠ .subscribe p provider) → m'.epoch p = 0 → m.epoch p = 0 := by
    intro hno h0
    rcases hepoch with ⟨⟨provider, rfl⟩, -⟩ | ⟨-, heq⟩
    · exact absurd rfl (hno provider)
    · omega
  generalize hf : m'.feed p = f at hpair
  generalize he : m'.ended p = e at hpair
  cases hpair with
  | other ha =>
      refine hquiet _ _ hf he ?_ h.counter h.cached (fun h0 => (h.before (hsame ?_ h0)).2) h.alone
      · cases a with
        | forward q ev => exact absurd (congrArg some hone) ha
        | _ => rfl
      · intro provider heq
        subst heq
        exact ha rfl
  | @forward ev f hfwd =>
      obtain ⟨-, -, hcached, hreferrer⟩ := Feed.forward_eq_some hfwd
      obtain ⟨hnext, hsyn⟩ := toNat_next hfwd
      have hcached' : ∀ ev, f.solo.1 = some ev → ev.isAccounted = false := by
        intro last hlast
        rw [hcached] at hlast
        split_ifs at hlast with hact
        · obtain rfl := Option.some.inj hlast
          exact isAccounted_of_activation hact
        · exact h.cached last hlast
      cases hr : (m.feed p).solo.2 with
      | none =>
          rw [hr, Option.bind_none] at hreferrer
          refine hquiet _ _ hf he (by simp [stampedFor, hr]) (by simp [hreferrer]) hcached' ?_
            (by simp [hreferrer])
          exact fun h0 => ⟨hreferrer, (h.before (hsame (fun _ h => by cases h) h0)).2.2⟩
      | some r =>
          have hstamp : stampedFor p m (.forward p ev) =
              [ev.stampSeq ⟨(m.feed p).nextSeq⟩] := by simp [stampedFor, hr]
          have hcounter := h.counter (by simp [hr])
          refine hgoal _ _ hf he ?_ hcached' ?_ (fun _ => h.alone (by simp [hr])) ?_ ?_
          · intro _
            rw [hstamp, List.length_append, List.length_singleton, hnext]
            omega
          · intro h0
            have hnone := (h.before (hsame (fun _ h => by cases h) h0)).2.1
            rw [hr] at hnone
            cases hnone
          · rw [hstamp, List.map_append, List.length_append, List.length_singleton,
              List.range'_1_concat, h.numbered, hcounter, List.map_singleton,
              MarketEvent.seq_stampSeq]
            rfl
          · intro ev' hev
            rw [hstamp] at hev
            obtain rfl := List.mem_singleton.mp hev
            rw [MarketEvent.seq_stampSeq, MarketEvent.dataSourceTs_stampSeq]
            exact ⟨hsyn, hevents.2⟩
  | renewIdle hr =>
      refine hquiet _ _ hf he rfl (by simp [Feed.new]) (by simp [Feed.new]) ?_
        (by simp [Feed.new])
      exact fun h0 => ⟨rfl, (h.before (hsame (fun _ h => by cases h) h0)).2.2⟩
  | renew hr =>
      refine hquiet _ _ hf he rfl (by simp [Feed.new]) (by simp [Feed.new]) ?_
        (by simp [Feed.new])
      intro h0
      have hnone := (h.before (hsame (fun _ h => by cases h) h0)).2.1
      rw [hr] at hnone
      cases hnone
  | @subscribe provider =>
      obtain ⟨-, h0, hfirst⟩ := hone
      obtain ⟨hlog, -, hended⟩ := h.before h0
      refine hquiet _ _ hf he rfl ?_ h.cached ?_ (fun _ => hended)
      · intro _
        rw [hlog]
        exact hfirst.symm
      · intro h0'
        rcases hepoch with ⟨-, heq⟩ | ⟨hno, -⟩
        · omega
        · exact absurd rfl (hno provider)
  | unsubscribe => exact hone.elim
  | receive hr hqueue =>
      refine hquiet _ _ hf he rfl (fun _ => h.counter (by simp [hr])) h.cached ?_
        (fun _ => h.alone (by simp [hr]))
      intro h0
      have hnone := (h.before (hsame (fun _ h => by cases h) h0)).2.1
      rw [hr] at hnone
      cases hnone
  | receiveEnded hr htx hqueue =>
      refine hquiet _ _ hf he rfl h.counter h.cached ?_ (by simp [hr])
      intro h0
      have hnone := (h.before (hsame (fun _ h => by cases h) h0)).2.2
      rw [htx] at hnone
      cases hnone
  | substreamEnd =>
      exact hquiet _ _ hf he rfl (by simp [Feed.leave]) h.cached (fun _ => ⟨rfl, rfl⟩)
        (by simp [Feed.leave])

/-! #### The way to the consumer -/

theorem waiting_of_referrer {r : Referrer} (hr : (m.feed p).solo.2 = some r) :
    m.waiting p = r.tx.queue ∧ m.pendingOf p = r.pending := by
  simp [waiting, pendingOf, substream_of_referrer hr, hr]

theorem waiting_of_ended (hr : (m.feed p).solo.2 = none) :
    m.waiting p = (m.ended p).elim [] Channel.queue ∧ m.pendingOf p = none := by
  simp [waiting, pendingOf, substream_of_ended hr, hr]

theorem waiting_congr {t : Multiplex} (hfeed : t.feed p = m.feed p)
    (hended : t.ended p = m.ended p) :
    t.waiting p = m.waiting p ∧ t.pendingOf p = m.pendingOf p := by
  simp [waiting, pendingOf, substream, hfeed, hended]

/-- A step at which neither side of the way changes. -/
theorem Surfaced.keep {t : Multiplex} (h : Surfaced p first strict log m)
    (ho : t.client.output = m.client.output) (hwait : t.waiting p = m.waiting p)
    (hpend : t.pendingOf p = m.pendingOf p) : Surfaced p first strict log t := by
  obtain ⟨acc, owed, buf, todo, line, tail, hsink, hline, hretains⟩ := h
  exact ⟨acc, owed, buf, todo, line, tail, ho ▸ hsink, hwait ▸ hpend ▸ hline, hretains⟩

/-- An item of the client's own is delivered. -/
theorem Surfaced.extra {t : Multiplex} (h : Surfaced p first strict log m)
    (hidle : m.client.output.replay = []) {x : MarketEvent × String}
    (hacc : x.1.isAccounted = false) (hseq : x.1.seq = Seq.synthetic)
    (ho : t.client.output = { m.client.output with replay := [x] })
    (hwait : t.waiting p = m.waiting p) (hpend : t.pendingOf p = m.pendingOf p) :
    Surfaced p first strict log t := by
  obtain ⟨acc, owed, buf, todo, line, tail, hsink, hline, hretains⟩ := h
  obtain ⟨rfl, hsink'⟩ := hsink.hand hidle (x := x) (t := ⟨[], x.1⟩) rfl
    (.extra _ hacc (.inr hseq))
  refine ⟨acc, owed, buf, [⟨[], x.1⟩], line, tail, ho ▸ hsink', hwait ▸ hpend ▸ hline, ?_⟩
  simpa using hretains

/-- The next event of the substream is routed. -/
theorem Surfaced.receipt {t : Multiplex} {ev : MarketEvent} {queue : List MarketEvent}
    (h : Surfaced p first strict log m) (hidle : m.client.output.replay = [])
    (hqueue : m.waiting p = ev :: queue)
    (hcontrols : strict → (m.client.route p ev).1.isSome) (hclient : t.client = m.client)
    (hwait : t.waiting p = queue) (hpend : t.pendingOf p = m.pendingOf p) :
    Surfaced p first strict log (t.route p ev) := by
  obtain ⟨acc, owed, buf, todo, line, tail, hsink, hline, hretains⟩ := h
  have hqueued := hline.queue_eq
  rw [hqueue] at hqueued
  obtain ⟨u, line', rfl, hu, hrest⟩ := List.map_eq_cons_iff.mp hqueued.symm
  have hstandsu : Stretch.Stands p.1 first u.sent u.shown := hline.stands u (by simp)
  obtain ⟨hwait', hpend'⟩ := waiting_congr (p := p) (t := t.route p ev) (m := t) (by simp) (by simp)
  have hline' : FeedWay p.1 first ((t.route p ev).waiting p) ((t.route p ev).pendingOf p)
      line' tail := by
    rw [hwait', hpend', hwait, hpend]
    exact ⟨hrest.symm, hline.pending_eq, fun w hw => hline.stands w (by
      rcases List.mem_append.mp hw with hw | hw
      · simp [hw]
      · simp [hw])⟩
  rw [← hclient] at hcontrols hidle hsink
  cases hx : (t.client.route p ev).1 with
  | none =>
      -- a control is coalesced
      have hacc := isAccounted_of_route hx
      have ho : (t.route p ev).client.output = t.client.output := by
        unfold Multiplex.route
        simp [hx]
      refine ⟨acc, owed, buf, todo, line', tail, ho ▸ hsink, hline', hretains.trans ?_⟩
      have hlost : Retains strict u.sent [] := by
        obtain ⟨sent, shown⟩ := u
        dsimp only at hstandsu hu ⊢
        subst hu
        cases hstandsu with
        | itself ev =>
            refine .drop hacc fun hs => ?_
            have hsome := hcontrols hs
            rw [hx] at hsome
            cases hsome
        | hole => cases hacc
        | extra => exact .refl _ _
      have hall := ((Retains.refl strict
        (sentOf (acc ++ owed ++ (buf ++ todo)))).append hlost).append
        (.refl strict (sentOf (line' ++ tail)))
      simpa using hall
  | some x =>
      have hxev : x.1 = ev := ClientController.route_event hx
      obtain ⟨rfl, hsink'⟩ := hsink.hand hidle (x := x) (t := u) (hxev.trans hu.symm) hstandsu
      have ho : (t.route p ev).client.output = { t.client.output with replay := [x] } := by
        unfold Multiplex.route
        simp [hx, hand, setOutput]
      refine ⟨acc, owed, buf, [u], line', tail, ho ▸ hsink', hline', hretains.trans (.of_eq ?_)⟩
      simp

theorem Surfaced.forward {ev : MarketEvent} {f : Feed} (h : Surfaced p first strict log m)
    (htraced : m.Traced) (hf : (m.feed p).forward ev = some f)
    (hevents : m.KeepsEvents p (.forward p ev))
    (hcontrols : strict → m.KeepsControls (.forward p ev)) :
    Surfaced p first strict (log ++ stampedFor p m (.forward p ev)) (m.setFeed p f) := by
  obtain ⟨-, -, -, hreferrer⟩ := Feed.forward_eq_some hf
  obtain ⟨-, hsyn⟩ := toNat_next hf
  have hfeed : (m.setFeed p f).feed p = f := by simp [Multiplex.setFeed]
  cases hr : (m.feed p).solo.2 with
  | none =>
      -- nobody refers to the pair any more, and nothing counts as sent
      rw [hr, Option.bind_none, ← hfeed] at hreferrer
      obtain ⟨hwait, hpend⟩ := waiting_of_ended hr
      obtain ⟨hwait', hpend'⟩ := waiting_of_ended hreferrer
      rw [stampedFor, if_neg (by simp [hr]), List.append_nil]
      exact h.keep rfl (hwait'.trans hwait.symm) (hpend'.trans hpend.symm)
  | some r =>
      obtain ⟨r', hr', -, -⟩ := Referrer.fanout_of_open (htraced.opened p r hr)
        (ev.stampSeq ⟨(m.feed p).nextSeq⟩)
      rw [hr, Option.bind_some, hr', ← hfeed] at hreferrer
      obtain ⟨hwait, hpend⟩ := waiting_of_referrer hr
      obtain ⟨hwait', hpend'⟩ := waiting_of_referrer hreferrer
      obtain ⟨acc, owed, buf, todo, line, tail, hsink, hline, hretains⟩ := h
      rw [hwait, hpend] at hline
      obtain ⟨line', tail', hline', hretains'⟩ := hline.fanout strict
        (by rw [MarketEvent.seq_stampSeq]; exact hsyn)
        (by rw [gapCoords_stampSeq]; exact hevents.1)
        (fun hs => by
          have hok := hcontrols hs r hr
          rwa [Referrer.KeepsControls, isAccounted_stampSeq]) hr'
      refine ⟨acc, owed, buf, todo, line', tail', hsink, by rwa [hwait', hpend'], ?_⟩
      rw [stampedFor, if_pos ⟨rfl, by simp [hr]⟩]
      have hall := (hretains.append (.refl strict [ev.stampSeq ⟨(m.feed p).nextSeq⟩])).trans
        (.of_eq (List.append_assoc ..))
      exact hall.trans ((Retains.refl strict _).append hretains')

theorem Surfaced.step {a : MultiplexAction} (h : Surfaced p first strict log m)
    (hjoined : Joined p first log m) (htraced : m.Traced) (hone : m.OneSession p first a)
    (hevents : m.KeepsEvents p a) (hcontrols : strict → m.KeepsControls a)
    (hstep : m.step a = some m') : Surfaced p first strict (log ++ stampedFor p m a) m' := by
  have hidle : m.idle = true → m.client.output.replay = [] := replay_of_idle
  have hquiet : ∀ t, Surfaced p first strict log t → stampedFor p m a = [] →
      Surfaced p first strict (log ++ stampedFor p m a) t := by
    intro t ht hnone
    rwa [hnone, List.append_nil]
  cases step_cases hstep with
  | forward hf =>
      obtain rfl := hone
      exact h.forward htraced hf hevents hcontrols
  | @renewIdle q hr =>
      obtain rfl : q = p := hone
      refine hquiet _ ?_ rfl
      obtain ⟨hwait, hpend⟩ := waiting_of_ended hr
      obtain ⟨hwait', hpend'⟩ := waiting_of_ended (p := q) (m := m.setFeed q .new)
        (by simp [Multiplex.setFeed, Feed.new])
      exact h.keep rfl (hwait'.trans hwait.symm) (hpend'.trans hpend.symm)
  | @renew q r hr =>
      obtain rfl : q = p := hone
      refine hquiet _ ?_ rfl
      obtain ⟨hwait, hpend⟩ := waiting_of_referrer hr
      obtain ⟨hwait', hpend'⟩ := waiting_of_ended (p := q)
        (m := (m.setFeed q .new).setEnded q (some r.tx))
        (by simp [Multiplex.setFeed, Multiplex.setEnded, Feed.new])
      refine h.keep rfl ?_ ?_
      · rw [hwait', hwait]
        simp [Multiplex.setEnded]
      · rw [hpend']
        exact Eq.symm hevents
  | @subscribe q provider hidle' hlookup =>
      obtain ⟨rfl, h0, hfirst⟩ := hone
      refine hquiet _ ?_ rfl
      obtain ⟨-, hnone, hended⟩ := hjoined.before h0
      obtain ⟨acc, owed, buf, todo, line, tail, hsink, hline, hretains⟩ := h
      obtain ⟨hwait, hpend⟩ := waiting_of_ended hnone
      rw [hwait, hpend, hended] at hline
      obtain rfl : line = [] := List.map_eq_nil_iff.mp hline.queue_eq.symm
      obtain rfl : tail = [] := List.map_eq_nil_iff.mp hline.pending_eq.symm
      -- the joiner has the cached activation, if there is one
      have hjoin : ∃ line, FeedWay q.1 first
          (FanOut.joined ⟨∅, (m.feed q).solo.1, false⟩ (.new defaultBuffer)).queue none line [] ∧
          sentOf line = [] := by
        cases hlast : (m.feed q).solo.1 with
        | none => exact ⟨[], ⟨rfl, rfl, fun _ h => absurd h List.not_mem_nil⟩, rfl⟩
        | some ev =>
            have hlt : ev.seq.toNat < first := by
              rw [← hfirst]
              exact Seq.lt_def.mp ((htraced.feed q).cached ev hlast)
            refine ⟨[⟨[], ev⟩], ⟨rfl, rfl, ?_⟩, rfl⟩
            intro t ht
            obtain rfl := List.mem_singleton.mp ht
            exact .extra ev (hjoined.cached ev hlast) (.inl hlt)
      obtain ⟨line, hline', hsent⟩ := hjoin
      refine ⟨acc, owed, buf, todo, line, [], hsink, ?_, hretains.trans (.of_eq ?_)⟩
      · obtain ⟨hwait', hpend'⟩ := waiting_of_referrer (p := q)
          (m := { m.setFeed q (m.feed q).join with
            client := { m.client with entries := m.client.entries.insert q provider }
            epoch := Function.update m.epoch q (m.epoch q + 1) })
          (r := ⟨FanOut.joined ⟨∅, (m.feed q).solo.1, false⟩ (.new defaultBuffer), none⟩)
          (by simp [Multiplex.setFeed, Feed.join])
        rw [hwait', hpend']
        exact hline'
      · simp [hsent]
  | unsubscribe => exact hone.elim
  | @receive q ev queue r hidle' hr hqueue hopen =>
      obtain rfl : q = p := hone
      refine hquiet _ ?_ rfl
      obtain ⟨hwait, hpend⟩ := waiting_of_referrer hr
      obtain ⟨hwait', hpend'⟩ := waiting_of_referrer (p := q)
        (m := m.setFeed q { m.feed q with solo := ((m.feed q).solo.1,
          some { r with tx := { r.tx with queue, taken := r.tx.taken ++ [ev] } }) })
        (r := { r with tx := { r.tx with queue, taken := r.tx.taken ++ [ev] } })
        (by simp [Multiplex.setFeed])
      refine h.receipt (hidle hidle') (hwait.trans hqueue) ?_ rfl hwait' (hpend'.trans hpend.symm)
      exact fun hs => hcontrols hs r.tx (substream_of_referrer hr) ev (by simp [hqueue])
  | @receiveEnded q ev queue tx hidle' hr htx hqueue hopen =>
      obtain rfl : q = p := hone
      refine hquiet _ ?_ rfl
      obtain ⟨hwait, hpend⟩ := waiting_of_ended hr
      obtain ⟨hwait', hpend'⟩ := waiting_of_ended (p := q)
        (m := m.setEnded q (some { tx with queue, taken := tx.taken ++ [ev] }))
        (by simpa [Multiplex.setEnded] using hr)
      have hwaiting : m.waiting q = ev :: queue := by
        rw [hwait, htx]
        exact hqueue
      refine h.receipt (hidle hidle') hwaiting ?_ rfl ?_ (hpend'.trans hpend.symm)
      · exact fun hs => hcontrols hs tx ((substream_of_ended hr).trans htx) ev (by simp [hqueue])
      · rw [hwait']
        simp [Multiplex.setEnded]
  | @substreamEnd q now provider tx hidle' htx hqueue hlookup =>
      obtain rfl : q = p := hone
      refine hquiet _ ?_ rfl
      have hnone : (m.feed q).solo.2 = none := by
        cases hr : (m.feed q).solo.2 with
        | none => rfl
        | some r =>
            have hended := hjoined.alone (by simp [hr])
            rw [htx] at hended
            cases hended
      obtain ⟨hwait, hpend⟩ := waiting_of_ended hnone
      obtain ⟨hwait', hpend'⟩ := waiting_of_ended (p := q) (m := m.giveUp q provider now)
        (by simp [giveUp, hand, setOutput, Multiplex.setFeed, Multiplex.setEnded, Feed.leave])
      refine h.extra (hidle hidle') (x := (subscriptionChanged q provider false now, provider))
        rfl rfl rfl ?_ (hpend'.trans hpend.symm)
      rw [hwait', hwait, htx, Option.elim_some, hqueue]
      simp [giveUp, hand, setOutput, Multiplex.setEnded]
  | close hidle' =>
      refine hquiet _ ?_ rfl
      exact h.extra (hidle hidle') (x := (clientClosing _, "")) rfl rfl rfl rfl rfl
  | sink hdeliver ho =>
      refine hquiet _ ?_ rfl
      obtain ⟨acc, owed, buf, todo, line, tail, hsink, hline, hretains⟩ := h
      obtain ⟨acc', owed', buf', todo', hsink', hretains'⟩ :=
        hsink.step hevents hcontrols hdeliver ho
      exact ⟨acc', owed', buf', todo', line, tail, hsink', hline,
        hretains.trans (hretains'.append (.refl strict _))⟩

theorem Surfaced.init (ringCapacity : Nat) : Surfaced p first strict [] (init ringCapacity) :=
  ⟨[], [], [], [], [], [], .init ringCapacity defaultBuffer,
    ⟨rfl, rfl, fun _ ht => absurd ht List.not_mem_nil⟩, .refl _ _⟩

theorem Joined.init (ringCapacity : Nat) : Joined p first [] (init ringCapacity) where
  numbered := rfl
  stamped := fun _ hev => absurd hev List.not_mem_nil
  counter h := by cases h
  cached ev hev := by cases hev
  before _ := ⟨rfl, rfl, rfl⟩
  alone _ := rfl

/-- A gap is owed only behind what waits on the substream. -/
def OwedBehind (p : Pair) (m : Multiplex) : Prop :=
  ∀ r, (m.feed p).solo.2 = some r → r.OwedBehind

theorem OwedBehind.step {a : MultiplexAction} (h : m.OwedBehind p) (hshows : m.ShowsOwed p a)
    (hstep : m.step a = some m') : m'.OwedBehind p := by
  have hpair := pair_cases hstep p
  unfold OwedBehind at h ⊢
  generalize m'.feed p = f at hpair ⊢
  generalize m'.ended p = e at hpair
  cases hpair with
  | other => exact h
  | @forward ev f hf =>
      obtain ⟨-, -, -, hreferrer⟩ := Feed.forward_eq_some hf
      intro r' hr'
      obtain ⟨r, hr, hfan⟩ := Option.bind_eq_some_iff.mp (hreferrer.symm.trans hr')
      exact (h r hr).fanout hfan
  | renewIdle | renew | unsubscribe | substreamEnd => exact fun r hr => by cases hr
  | subscribe =>
      intro r hr
      obtain rfl := Option.some.inj hr
      refine ⟨?_, fun _ => rfl⟩
      cases hlast : (m.feed p).solo.1 with
      | none => exact Nat.succ_pos _
      | some ev =>
          rw [show FanOut.joined ⟨∅, some ev, false⟩ (.new defaultBuffer) =
            (Channel.new defaultBuffer).offer ev from rfl, Channel.cap_offer]
          exact Nat.succ_pos _
  | @receive ev queue r hr hqueue =>
      intro r' hr'
      obtain rfl := Option.some.inj hr'
      refine ⟨(h r hr).cap, fun hnil => ?_⟩
      obtain rfl : queue = [] := hnil
      -- the condition: what is taken is not the last, or nothing is owed
      obtain ⟨hwait, hpend⟩ := waiting_of_referrer hr
      rcases hshows with hnone | hmore
      · exact hpend.symm.trans hnone
      · rw [hwait, hqueue] at hmore
        exact absurd hmore (lt_irrefl 1)
  | receiveEnded hr => exact h

theorem OwedBehind.pendingOf_eq_none (h : m.OwedBehind p) (hwait : m.waiting p = []) :
    m.pendingOf p = none := by
  cases hr : (m.feed p).solo.2 with
  | none => exact (waiting_of_ended hr).2
  | some r =>
      obtain ⟨hqueue, hpend⟩ := waiting_of_referrer hr
      exact hpend.trans ((h r hr).pending (hqueue.symm.trans hwait))

/-- The consumer has received all that was sent to it: nothing is on its way any more. -/
structure Settled (p : Pair) (m : Multiplex) : Prop where
  drained : m.client.output.Drained
  ring : m.client.output.gapRecords = []
  waiting : m.waiting p = []

/-- An event lies within a `Gap` of the instrument. -/
def InGap (i : Instrument) (ev gap : MarketEvent) : Prop :=
  ∃ ts rxTs seq provider span, gap = .control ⟨ts, rxTs, seq, .gap provider i span⟩ ∧
    span.Reports ev

/-- Numbers without a hole, but behind a `Gap`. -/
def Contiguous (evs : List MarketEvent) : Prop :=
  evs.IsChain fun a b => b.seq.toNat = a.seq.toNat + 1 ∨ a.isGap = true

instance (evs : List MarketEvent) : Decidable (Contiguous evs) :=
  inferInstanceAs (Decidable (evs.IsChain _))

/-- Stretches that are numbered on are shown numbered on, but behind gaps. -/
theorem contiguous_of_numbered {i : Instrument} {us : List Stretch} {n : Nat}
    (hstands : Standing i first us) (hne : ∀ u ∈ us, u.sent ≠ [])
    (hnum : (sentOf us).map (fun ev => ev.seq.toNat) = List.range' n (sentOf us).length) :
    Contiguous (us.map Stretch.shown) ∧
      ∀ u ∈ us.head?, u.shown.seq.toNat = n := by
  induction us generalizing n with
  | nil => exact ⟨.nil, fun u hu => (by cases hu)⟩
  | cons u us ih =>
      obtain ⟨ev, sent, hsent⟩ := List.exists_cons_of_ne_nil (hne u (by simp))
      rw [sentOf_cons, List.map_append, List.length_append, ← List.range'_append_1] at hnum
      obtain ⟨hhead, hrest⟩ := List.append_inj hnum (by simp)
      obtain ⟨hchain, hnext⟩ := ih (fun w hw => hstands w (by simp [hw]))
        (fun w hw => hne w (by simp [hw])) hrest
      have hfirst : ev.seq.toNat = n := by
        rw [hsent, List.map_cons, List.length_cons, List.range'_succ] at hhead
        exact (List.cons.inj hhead).1
      have hu := hstands u (by simp)
      have hshown : u.shown.seq = ev.seq := by
        -- between an event and the next number there is no hole; behind a gap any number may follow
        obtain ⟨s, shown⟩ := u
        dsimp only at hu hsent ⊢
        subst hsent
        cases hu with
        | itself => rfl
        | hole _ _ _ _ _ _ hseq => exact (Option.some.inj hseq).symm
      refine ⟨?_, ?_⟩
      · rw [List.map_cons]
        refine List.isChain_cons.mpr ⟨?_, hchain⟩
        intro b hb
        obtain ⟨w, hw, rfl⟩ := Option.map_eq_some_iff.mp (List.head?_map ▸ hb)
        rw [hnext w hw, hshown, hfirst]
        obtain ⟨s, shown⟩ := u
        dsimp only at hu hsent ⊢
        cases hu with
        | itself => exact .inl rfl
        | hole => exact .inr rfl
        | extra => cases hsent
      · intro w hw
        obtain rfl := Option.some.inj hw
        rw [hshown, hfirst]

end Multiplex

/-- All streams but the last are drained, so what has been received is a first part of
what they accepted. -/
theorem SinkWay.received_initial {i : Instrument} {first : Nat} {o : ClientOutput}
    {acc owed buf todo : List Stretch} (h : SinkWay i first o acc owed buf todo) :
    o.received <+: acc.map Stretch.shown := by
  have hformer : o.former.flatMap Channel.taken = o.former.flatMap Channel.accepted := by
    refine List.flatMap_congr ?_
    intro tx htx
    rw [Channel.accepted, (h.former_drained tx htx).2, List.append_nil]
  rw [← h.accepted_eq, ClientOutput.received, ClientOutput.accepted, ClientOutput.streams]
  cases o.sink with
  | attached tx =>
      show List.flatMap _ (o.former ++ [tx]) <+: List.flatMap _ (o.former ++ [tx])
      rw [List.flatMap_append, List.flatMap_append, hformer, List.prefix_append_right_inj]
      simpa using tx.taken_initial
  | detached ring => exact hformer ▸ List.prefix_rfl

namespace Multiplex

theorem Surfaced.contiguous (h : Surfaced p first True log m) (hjoined : Joined p first log m) :
    Contiguous (m.client.output.received.filter fun ev =>
      ev.seq ∈ log.map MarketEvent.seq) := by
  obtain ⟨acc, owed, buf, todo, line, tail, hsink, hline, hretains⟩ := h
  obtain ⟨rest, hrest⟩ := hsink.received_initial
  obtain ⟨got, more, hsplit, hgot, -⟩ := List.map_eq_append_iff.mp hrest.symm
  have hstands : Standing p.1 first got := fun t ht => hsink.stands t (by
    rw [hsplit]
    simp [ht])
  have hlog := hretains.2 trivial
  -- the controls of the client's own are not in the log, the other stretches start in it
  have hmem : ∀ t ∈ got, (t.shown.seq ∈ log.map MarketEvent.seq) ↔ t.sent ≠ [] := by
    intro t ht
    have hsub : ∀ ev ∈ t.sent, ev ∈ log := by
      intro ev hev
      rw [hlog, hsplit]
      have hin : ev ∈ sentOf got := List.mem_flatMap.mpr ⟨t, ht, hev⟩
      simp [hin]
    have hst := hstands t ht
    obtain ⟨sent, shown⟩ := t
    dsimp only at hst hsub ⊢
    cases hst with
    | itself ev =>
        exact ⟨fun _ => by simp, fun _ => List.mem_map_of_mem (hsub _ (by simp))⟩
    | hole lost ts rxTs seq provider span hseq hspan =>
        obtain ⟨ev, hev, hevseq⟩ := Option.map_eq_some_iff.mp hseq
        refine ⟨?_, fun _ => ?_⟩
        · intro _ hnil
          rw [hnil] at hev
          cases hev
        · exact List.mem_map.mpr ⟨ev, hsub ev (List.mem_of_mem_head? hev), hevseq⟩
    | extra ev hacc hseq =>
        refine ⟨?_, fun hne => absurd rfl hne⟩
        intro hin
        obtain ⟨ev', hev', heq⟩ := List.mem_map.mp hin
        rcases hseq with hlt | hsyn
        · have hnum : ev'.seq.toNat ∈ List.range' first log.length := by
            rw [← hjoined.numbered]
            exact List.mem_map_of_mem hev'
          rw [heq] at hnum
          have hle := (List.mem_range'_1.mp hnum).1
          omega
        · exact absurd (heq.trans hsyn) (hjoined.stamped ev' hev').1
  have hfilter : m.client.output.received.filter (fun ev => ev.seq ∈ log.map MarketEvent.seq) =
      (got.filter fun t => t.sent ≠ []).map Stretch.shown := by
    rw [← hgot, List.filter_map]
    refine congrArg _ (List.filter_congr ?_)
    intro t ht
    exact decide_eq_decide.mpr (hmem t ht)
  rw [hfilter]
  -- leaving those out, what was sent of the others is the first part of the log
  have hsent : sentOf (got.filter fun t => t.sent ≠ []) = sentOf got := by
    have hall : ∀ ts : List Stretch, sentOf (ts.filter fun t => t.sent ≠ []) = sentOf ts := by
      intro ts
      induction ts with
      | nil => rfl
      | cons t ts ih =>
          by_cases hnil : t.sent = []
          · rw [List.filter_cons_of_neg (by simp [hnil]), ih, sentOf_cons, hnil, List.nil_append]
          · rw [List.filter_cons_of_pos (by simp [hnil]), sentOf_cons, sentOf_cons, ih]
    exact hall got
  have hinit : sentOf got <+: log := by
    rw [hlog, hsplit]
    simp only [sentOf_append, List.append_assoc]
    exact List.prefix_append _ _
  have hshown : Standing p.1 first (got.filter fun t => t.sent ≠ []) :=
    fun t ht => hstands t (List.mem_of_mem_filter ht)
  refine (contiguous_of_numbered (n := first) hshown ?_ ?_).1
  · intro t ht
    simpa using (List.mem_filter.mp ht).2
  · rw [hsent]
    have hnum := hjoined.numbered
    obtain ⟨after, hafter⟩ := hinit
    rw [← hafter, List.map_append, List.length_append, ← List.range'_append_1] at hnum
    exact (List.append_inj hnum (by simp)).1

/-- In every run of one client session on one authoritative controller in which nothing
that is accounted for leaves the accounts, each data event stamped while the client was
subscribed has been received or lies within a `Gap` that has, once nothing is on its way
any more, provided that what the fan-out owes is shown; and if no other control is lost, the
numbers received have no hole but behind a `Gap`. -/
theorem loss_surfaced {p : Pair} {first ringCapacity : Nat} {as : List MultiplexAction}
    (hone : Meets Multiplex.step (OneSession p first) (Multiplex.init ringCapacity) as)
    (hevents : Meets Multiplex.step (KeepsEvents p) (Multiplex.init ringCapacity) as)
    (h : run Multiplex.step (Multiplex.init ringCapacity) as = some m) :
    (Meets Multiplex.step (ShowsOwed p) (Multiplex.init ringCapacity) as → m.Settled p →
      ∀ ev ∈ logOf Multiplex.step (stampedFor p) (Multiplex.init ringCapacity) as,
        ev.isData = true → ev ∈ m.client.output.received ∨
          ∃ gap ∈ m.client.output.received, InGap p.1 ev gap) ∧
    (Meets Multiplex.step KeepsControls (Multiplex.init ringCapacity) as →
      Contiguous (m.client.output.received.filter fun ev =>
        ev.seq ∈ (logOf Multiplex.step (stampedFor p) (Multiplex.init ringCapacity) as).map
          MarketEvent.seq)) := by
  -- both parts are one invariant: `strict` says whether the controls are kept as well
  have hinv : ∀ strict : Prop,
      (strict → Meets Multiplex.step KeepsControls (Multiplex.init ringCapacity) as) →
      Surfaced p first strict
        ([] ++ logOf Multiplex.step (stampedFor p) (Multiplex.init ringCapacity) as) m ∧
      Joined p first
        ([] ++ logOf Multiplex.step (stampedFor p) (Multiplex.init ringCapacity) as) m := by
    intro strict hstrict
    have hcontrols : Meets Multiplex.step (fun m a => strict → KeepsControls m a)
        (Multiplex.init ringCapacity) as := by
      by_cases hs : strict
      · exact (hstrict hs).imp fun _ _ h _ => h
      · exact meets_of_forall (fun _ _ h => absurd h hs) _ _
    have hall : ∀ log, log = [] ++ logOf Multiplex.step (stampedFor p)
        (Multiplex.init ringCapacity) as →
        (Surfaced p first strict log m ∧ Joined p first log m) ∧ m.Traced := by
      intro log hlog
      subst hlog
      refine log_invariant
        (P := fun log m => (Surfaced p first strict log m ∧ Joined p first log m) ∧ m.Traced) ?_
        ⟨⟨.init ringCapacity, .init ringCapacity⟩, .init ringCapacity⟩
        ((hone.and hevents).and hcontrols) h
      intro log m a m' hP hok hstep
      obtain ⟨⟨hsurfaced, hjoined⟩, htraced⟩ := hP
      obtain ⟨⟨hone, hevents⟩, hcontrols⟩ := hok
      exact ⟨⟨hsurfaced.step hjoined htraced hone hevents hcontrols hstep,
        hjoined.step hone hevents hstep⟩, htraced.step hstep⟩
    exact (hall _ rfl).1
  refine ⟨?_, ?_⟩
  · intro hshows hsettled ev hev hdata
    have howes : m.OwedBehind p :=
      invariant_of_meets OwedBehind.step (fun r hr => by cases hr) hshows h
    obtain ⟨⟨acc, owed, buf, todo, line, tail, hsink, hline, hretains⟩, hjoined⟩ :=
      hinv False False.elim
    -- once the client is settled, all stretches were accepted and received
    have howed := hsink.owed_eq
    have hbuf := hsink.buffered_eq
    have htodo := hsink.replay_eq
    have hqueue := hline.queue_eq
    have hpend := hline.pending_eq
    rw [hsettled.ring] at howed
    rw [hsettled.drained.buffered] at hbuf
    rw [hsettled.drained.replay] at htodo
    rw [hsettled.waiting] at hqueue
    rw [howes.pendingOf_eq_none hsettled.waiting] at hpend
    obtain rfl : owed = [] := List.map_eq_nil_iff.mp howed.symm
    obtain rfl : buf = [] := List.map_eq_nil_iff.mp hbuf.symm
    obtain rfl : todo = [] := List.map_eq_nil_iff.mp htodo.symm
    obtain rfl : line = [] := List.map_eq_nil_iff.mp hqueue.symm
    obtain rfl : tail = [] := List.map_eq_nil_iff.mp hpend.symm
    have hacc : ev.isAccounted = true := by simp [MarketEvent.isAccounted, hdata]
    have hin : ev ∈ sentOf acc := by
      have hmem := List.mem_filter.mpr ⟨hev, hacc⟩
      rw [List.nil_append] at hretains
      rw [hretains.1] at hmem
      simpa using (List.mem_filter.mp hmem).1
    obtain ⟨t, ht, hevt⟩ := List.mem_flatMap.mp hin
    have hreceived : t.shown ∈ m.client.output.received := by
      rw [hsettled.drained.received, hsink.accepted_eq]
      exact List.mem_map_of_mem ht
    have hst := hsink.stands t (by simp [ht])
    obtain ⟨sent, shown⟩ := t
    dsimp only at hst hevt hreceived
    cases hst with
    | itself ev' =>
        obtain rfl := List.mem_singleton.mp hevt
        exact .inl hreceived
    | hole lost ts rxTs seq provider span hseq hspan =>
        obtain ⟨c, hc⟩ := Option.isSome_iff_exists.mp ((gapCoords_isSome ev).trans hacc)
        refine .inr ⟨_, hreceived, ts, rxTs, seq, provider, span, rfl, ?_⟩
        exact GapSpan.reports_of_contains hc (hjoined.stamped ev hev).2 (hspan ev hevt c hc)
    | extra => cases hevt
  · intro hcontrols
    obtain ⟨hsurfaced, hjoined⟩ := hinv True fun _ => hcontrols
    rw [List.nil_append] at hsurfaced hjoined
    exact hsurfaced.contiguous hjoined

/-- Three trades are stamped for a client, which routes them in turn. -/
def threeTrades (between : List MultiplexAction) : List MultiplexAction :=
  [.subscribe aaplTrades "p", .sink (.take []),
    .forward aaplTrades (testTrade "AAPL" 100 ⟨0⟩), .receive aaplTrades, .sink .proceed,
    .sink .consume,
    .forward aaplTrades (testTrade "AAPL" 200 ⟨0⟩), .receive aaplTrades, .sink .proceed] ++
  between ++
  [.forward aaplTrades (testTrade "AAPL" 300 ⟨0⟩), .receive aaplTrades, .sink .proceed,
    .sink .consume]

/-- The stream is dropped after it is drained, and all three are received. -/
theorem loss_surfaced_threeTrades : ∃ m,
    run Multiplex.step (Multiplex.init 1)
      (threeTrades [.sink .consume, .sink .dropStream, .sink (.take [])]) = some m ∧
    m.client.output.received.map MarketEvent.sourceTs = [100, 200, 300] ∧
    (∀ ev ∈ logOf Multiplex.step (stampedFor aaplTrades) (Multiplex.init 1)
        (threeTrades [.sink .consume, .sink .dropStream, .sink (.take [])]),
      ev.isData = true → ev ∈ m.client.output.received ∨
        ∃ gap ∈ m.client.output.received, InGap aaplTrades.1 ev gap) ∧
    Contiguous (m.client.output.received.filter fun ev =>
      ev.seq ∈ (logOf Multiplex.step (stampedFor aaplTrades) (Multiplex.init 1)
        (threeTrades [.sink .consume, .sink .dropStream, .sink (.take [])])).map
          MarketEvent.seq) := by
  have hstate : ∃ m, run Multiplex.step (Multiplex.init 1)
      (threeTrades [.sink .consume, .sink .dropStream, .sink (.take [])]) = some m ∧
      m.client.output.received.map MarketEvent.sourceTs = [100, 200, 300] ∧
      m.client.output.streams.map Channel.queue = [[], []] ∧ m.client.output.buffered = [] ∧
      m.client.output.replay = [] ∧ m.client.output.gapRecords = [] ∧
      m.waiting aaplTrades = [] :=
    ⟨_, rfl, rfl, rfl, rfl, rfl, rfl, rfl⟩
  obtain ⟨m, hrun, hreceived, hstreams, hbuffered, hreplay, hring, hwaiting⟩ := hstate
  have hone : Meets Multiplex.step (OneSession aaplTrades 0) (Multiplex.init 1)
      (threeTrades [.sink .consume, .sink .dropStream, .sink (.take [])]) := by decide
  obtain ⟨hsurfaced, hcontiguous⟩ := loss_surfaced hone (by decide) hrun
  refine ⟨m, hrun, hreceived,
    hsurfaced (by decide) ⟨⟨?_, hbuffered, hreplay⟩, hring, hwaiting⟩, hcontiguous (by decide)⟩
  intro c hc
  have hmem := List.mem_map_of_mem (f := Channel.queue) hc
  rw [hstreams] at hmem
  simpa using hmem

/-- The stream is dropped with the second trade in it: the consumer receives the numbers
0 and 2, and no `Gap`. -/
theorem not_contiguous_threeTrades : ∃ m,
    Meets Multiplex.step (OneSession aaplTrades 0) (Multiplex.init 1)
      (threeTrades [.sink .dropStream, .sink (.take [])]) ∧
    run Multiplex.step (Multiplex.init 1)
      (threeTrades [.sink .dropStream, .sink (.take [])]) = some m ∧
    m.client.output.received = [testTrade "AAPL" 100 ⟨0⟩, testTrade "AAPL" 300 ⟨2⟩] ∧
    ¬ Contiguous (m.client.output.received.filter fun ev =>
      ev.seq ∈ (logOf Multiplex.step (stampedFor aaplTrades) (Multiplex.init 1)
        (threeTrades [.sink .dropStream, .sink (.take [])])).map MarketEvent.seq) := by
  refine ⟨_, by decide, rfl, rfl, ?_⟩
  decide

end Multiplex

end Datamancer
