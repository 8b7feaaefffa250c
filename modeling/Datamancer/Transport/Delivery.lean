import Datamancer.Transport.Subscriber

/-!
# Datamancer.Transport.Delivery

What a subscriber emits, over every order in which it can observe the two services of a
sink.

Per instrument it emits what the sink published, from the first event on and in order;
nothing is emitted twice; and once the symbols of the observed samples have been
announced nothing is held (`delivered`). Across instruments nothing is promised: an
event that waits for its announcement is overtaken by what needs none, `SessionClosing`
included. `closingTerminal_iff` says when that happens.
-/

namespace Datamancer

namespace Transport

/-- The events sent for an instrument, in order. -/
def sentFor (xs : List Sample) (i : Instrument) : List MarketEvent :=
  (xs.map Sample.origin).filter fun ev => subject ev = some i

/-- The events emitted for an instrument, in order. -/
def emittedFor (es : List Emission) (i : Instrument) : List MarketEvent :=
  (es.map Emission.event).filter fun ev => subject ev = some i

/-- The announcement of every symbol among the samples has been applied. -/
def AllAnnounced (obs : List Observation) : Prop :=
  ∀ x ∈ samples obs, ∀ id, waitsFor x = some id → ∃ a ∈ applied obs, a.id = id

/-- What a subscriber owes after an observation of a sink. The events are the published
ones as a subscriber reads them. -/
structure Delivered (sink : Iceoryx2DataSink) (obs : List Observation) (s : Subscriber) :
    Prop where
  /-- Per instrument the emitted events are an initial part of the published ones. -/
  inOrder : ∀ i, emittedFor s.emitted i <+: (sentFor sink.data i).map recoverProvider
  /-- Every emission is read from a published sample. -/
  published : ∀ e ∈ s.emitted, ∃ x ∈ sink.data, e = x.emission
  /-- No sample is emitted twice. -/
  once : (s.emitted.map Emission.offset).Nodup
  /-- Once every symbol is announced nothing is held and every observed event is out. -/
  complete : AllAnnounced obs → s.buffer.held = []
    ∧ (∀ x ∈ samples obs, x.emission ∈ s.emitted)
    ∧ ∀ i, emittedFor s.emitted i = (sentFor (samples obs) i).map recoverProvider

@[simp] theorem subject_recoverProvider (ev : MarketEvent) :
    subject (recoverProvider ev) = subject ev := by
  cases ev with
  | control c =>
      obtain ⟨sourceTs, rxTs, seq, kind⟩ := c
      cases kind <;> rfl
  | _ => rfl

@[simp] theorem isSessionClosing_recoverProvider (ev : MarketEvent) :
    isSessionClosing (recoverProvider ev) = isSessionClosing ev := by
  cases ev with
  | control c =>
      obtain ⟨sourceTs, rxTs, seq, kind⟩ := c
      cases kind <;> rfl
  | _ => rfl

/-- What is emitted for an instrument is what was sent for it, read back. -/
theorem emittedFor_map (xs : List Sample) (i : Instrument) :
    emittedFor (xs.map Sample.emission) i = (sentFor xs i).map recoverProvider := by
  induction xs with
  | nil => rfl
  | cons x xs ih =>
      simp only [emittedFor, sentFor, List.map_cons] at ih ⊢
      by_cases hx : subject x.origin = some i
      · rw [List.filter_cons_of_pos (by simpa [Sample.emission] using hx),
          List.filter_cons_of_pos (by simpa using hx), List.map_cons, ih]
        rfl
      · rw [List.filter_cons_of_neg (by simpa [Sample.emission] using hx),
          List.filter_cons_of_neg (by simpa using hx), ih]

theorem sentFor_append (xs ys : List Sample) (i : Instrument) :
    sentFor (xs ++ ys) i = sentFor xs i ++ sentFor ys i := by
  simp [sentFor]

/-- What was emitted and what is held are what was observed. -/
theorem released_perm (obs : List Observation) :
    ((queueOf obs).released ++ (queueOf obs).held).Perm (samples obs) := by
  have hperm : ((queueOf obs).released ++ (queueOf obs).held).Perm
      ([] ++ [] ++ HoldQueue.offered (inputs obs)) := HoldQueue.released_perm _ _
  simpa using hperm

section Observed

variable {sink : Iceoryx2DataSink} (hsink : sink.Sound) {obs : List Observation}
  (hobs : Observes sink obs)

include hsink hobs

theorem offsets_nodup : ((samples obs).map Sample.offset).Nodup := by
  have hall : (sink.data.map Sample.offset).Nodup := by
    rw [hsink.offsets]
    exact List.nodup_range
  exact hall.sublist (hobs.samples.sublist.map _)

/-- For one instrument: what was released, followed by what is held, is what was observed. -/
theorem sentFor_released (i : Instrument) :
    sentFor (queueOf obs).released i ++ sentFor (queueOf obs).held i = sentFor (samples obs) i := by
  -- The samples of one instrument are those under its symbol.
  have hkey : ∀ x ∈ sink.data, subject x.origin = some i → waitsFor x = sink.table.forward i := by
    intro x hx hsub
    have hc := hsink.carries x hx
    rw [(sink.table.forward_iff i x.payload.symbol).mpr (hc.symbol i hsub), waitsFor,
      if_neg (hc.symbol_ne hsub)]
  let p : Sample → Bool := fun x =>
    decide (subject x.origin = some i ∧ waitsFor x = sink.table.forward i)
  have hp : ∀ xs : List Sample, (∀ x ∈ xs, x ∈ sink.data) →
      sentFor xs i = (xs.filter p).map Sample.origin := by
    intro xs hxs
    rw [sentFor, List.filter_map]
    refine congrArg _ (List.filter_congr fun x hx => ?_)
    by_cases hsub : subject x.origin = some i
    · simp [p, hsub, hkey x (hxs x hx) hsub]
    · simp [p, hsub]
  have hdata : ∀ x ∈ samples obs, x ∈ sink.data := fun x hx => hobs.samples.subset hx
  have hin : ∀ x, x ∈ (queueOf obs).released ∨ x ∈ (queueOf obs).held → x ∈ sink.data :=
    fun x hx => hdata x ((released_perm obs).mem_iff.mp (List.mem_append.mpr hx))
  have hsplit : (queueOf obs).released.filter p ++ (queueOf obs).held.filter p
      = [] ++ [] ++ (HoldQueue.offered (inputs obs)).filter p :=
    HoldQueue.released_of_key _ _ p
      fun x y hx hy => (of_decide_eq_true hx).2.trans (of_decide_eq_true hy).2.symm
  rw [hp _ fun x hx => hin x (.inl hx), hp _ fun x hx => hin x (.inr hx), hp _ hdata,
    ← List.map_append]
  refine congrArg _ ?_
  simpa using hsplit

end Observed

/-- What a subscriber emits, whatever the order of its observation. -/
theorem delivered_of_sound {sink : Iceoryx2DataSink} (hsink : sink.Sound)
    {obs : List Observation} (hobs : Observes sink obs) :
    Delivered sink obs (Subscriber.new.run obs) := by
  have hsim := simulates hsink hobs
  have hperm := released_perm obs
  obtain ⟨later, hlater⟩ := hobs.samples
  have hsent : ∀ i, sentFor (samples obs) i <+: sentFor sink.data i := fun i => by
    rw [← hlater, sentFor_append]
    exact List.prefix_append _ _
  refine ⟨fun i => ?_, fun e he => ?_, ?_, fun hall => ?_⟩
  · rw [hsim.emitted, emittedFor_map]
    refine List.IsPrefix.map _ (List.IsPrefix.trans ?_ (hsent i))
    rw [← sentFor_released hsink hobs i]
    exact List.prefix_append _ _
  · rw [hsim.emitted] at he
    obtain ⟨x, hx, rfl⟩ := List.mem_map.mp he
    exact ⟨x, hobs.samples.subset (hperm.subset (List.mem_append_left _ hx)), rfl⟩
  · rw [hsim.emitted, List.map_map]
    have hnodup := ((hperm.map Sample.offset).nodup_iff).mpr (offsets_nodup hsink hobs)
    rw [List.map_append] at hnodup
    exact (List.nodup_append.mp hnodup).1
  · have hheld : (queueOf obs).held = [] := by
      -- every instrument of a sample was announced, so nothing is held back at the end
      refine HoldQueue.held_eq_nil (fun _ h => absurd h List.not_mem_nil) fun x hx => ?_
      rw [HoldQueue.ready_iff]
      intro id hid
      rcases hx with hx | hx
      · exact absurd hx List.not_mem_nil
      · rw [offered_inputs] at hx
        obtain ⟨a, ha, rfl⟩ := hall x hx id hid
        rw [HoldQueue.mem_known_run, learnt_inputs]
        exact .inr (List.mem_map_of_mem ha)
    rw [hheld, List.append_nil] at hperm
    refine ⟨hsim.held.trans hheld, fun x hx => ?_, fun i => ?_⟩
    · rw [hsim.emitted]
      exact List.mem_map_of_mem (hperm.mem_iff.mpr hx)
    · have hsent := sentFor_released hsink hobs i
      rw [hheld] at hsent
      rw [hsim.emitted, emittedFor_map, ← hsent]
      simp [sentFor]

/-- Applying every announcement that was sent resolves every symbol whose instrument could be
announced. -/
theorem allAnnounced_of_applied {accepts : ByteArray → Bool} {sink : Iceoryx2DataSink}
    (hsink : sink.Reachable accepts) {obs : List Observation} (hobs : Observes sink obs)
    (happlied : ∀ a ∈ sink.announcements, a ∈ applied obs)
    (hannounceable : ∀ x ∈ samples obs, ∀ i, subject x.origin = some i →
      accepts (encodeInstrument i) = true) : AllAnnounced obs := by
  intro x hx id hid
  have hdata : x ∈ sink.data := hobs.samples.subset hx
  have hc := hsink.sound.carries x hdata
  cases hsub : subject x.origin with
  | none => simp [waitsFor, hc.connection hsub] at hid
  | some i =>
      rw [waitsFor, if_neg (hc.symbol_ne hsub), Option.some.injEq] at hid
      obtain ⟨a, ha, haid⟩ := hsink.announced.sent x hdata i hsub (hannounceable x hx i hsub)
      exact ⟨a, happlied a ha, haid.trans hid⟩

/-- Symbol resolution is independent of the order in which the two services are observed, as
long as no poll fails. -/
theorem resolution_order_independent {accepts : ByteArray → Bool} {sink : Iceoryx2DataSink}
    (hsink : sink.Reachable accepts) {obs : List Observation} (hobs : Observes sink obs) :
    Delivered sink obs (Subscriber.new.run obs)
      ∧ ((∀ a ∈ sink.announcements, a ∈ applied obs) →
        (∀ x ∈ samples obs, ∀ i, subject x.origin = some i →
          accepts (encodeInstrument i) = true) → AllAnnounced obs) :=
  ⟨delivered_of_sound hsink.sound hobs, allAnnounced_of_applied hsink hobs⟩

/-- All the samples before any announcement. -/
def dataFirst (sink : Iceoryx2DataSink) : List Observation :=
  sink.data.map .sample ++ sink.announcements.map .announcement

theorem samples_dataFirst (sink : Iceoryx2DataSink) : samples (dataFirst sink) = sink.data := by
  have hdata : ∀ xs : List Sample, samples (xs.map .sample) = xs := fun xs => by
    induction xs with
    | nil => rfl
    | cons x xs ih => simp [samples, ih]
  have hanns : ∀ as : List SymbolAnnouncement, samples (as.map .announcement) = [] := fun as => by
    induction as with
    | nil => rfl
    | cons a as ih => simp [samples, ih]
  rw [dataFirst, samples_append, hdata, hanns, List.append_nil]

theorem observes_dataFirst {sink : Iceoryx2DataSink}
    (h : ∀ a ∈ sink.announcements, a.instrument.isOk = true) : Observes sink (dataFirst sink) := by
  have hmem : ∀ a, .announcement a ∈ dataFirst sink → a ∈ sink.announcements := fun a ha => by
    simpa [dataFirst] using ha
  exact ⟨(samples_dataFirst sink).symm ▸ List.prefix_rfl, hmem, fun a ha => h a (hmem a ha)⟩

/-- A trade, and the control that ends its session. -/
def btcTrade : MarketEvent := .trade ⟨⟨"alpaca", .crypto, "BTC/USD"⟩, 1, 2, ⟨5⟩, ⟨100⟩, ⟨1⟩⟩

def sessionClose : MarketEvent := .control ⟨3, 3, Seq.synthetic, .sessionClosing⟩

theorem exists_btc_run : ∃ sink : Iceoryx2DataSink,
    sink.Reachable (fun _ => true) ∧ sink.data.map Sample.origin = [btcTrade, sessionClose] ∧
      ∀ a ∈ sink.announcements, a.instrument.isOk = true :=
  ⟨_, ⟨[.publish btcTrade ⟨false, false, none⟩, .publish sessionClose ⟨false, false, none⟩], rfl⟩,
    rfl, by decide +kernel⟩

theorem resolution_order_independent_btc : ∃ sink,
    sink.Reachable (fun _ => true) ∧ sink.data.map Sample.origin = [btcTrade, sessionClose]
      ∧ Delivered sink (dataFirst sink) (Subscriber.new.run (dataFirst sink)) := by
  obtain ⟨sink, hsink, hdata, hdecodes⟩ := exists_btc_run
  exact ⟨sink, hsink, hdata, (resolution_order_independent hsink (observes_dataFirst hdecodes)).1⟩

/-- A trade of a symbol with the separator in it: its announcement does not decode. -/
def separatorTrade : MarketEvent :=
  .trade ⟨⟨"alpaca", .crypto, "A\u001fB"⟩, 1, 2, ⟨6⟩, ⟨100⟩, ⟨1⟩⟩

/-- The provider of a gap does not travel: the gap comes out under its instrument's
provider, so it is not the event that was published. And a trade is lost that is resolved in
one poll with an announcement that does not decode: it is neither returned nor held. -/
theorem not_resolution_order_independent :
    (∃ sink obs i, sink.Reachable (fun _ => true) ∧ Observes sink obs
      ∧ ¬ emittedFor (Subscriber.new.run obs).emitted i <+: sentFor sink.data i) ∧
    ∃ sink : Iceoryx2DataSink, sink.Reachable (fun _ => true)
      ∧ sink.data.map Sample.origin = [btcTrade, separatorTrade]
      ∧ (HoldBuffer.new.poll [] (sink.data.take 1)).2.held = sink.data.take 1
      ∧ ((HoldBuffer.new.poll [] (sink.data.take 1)).2.poll sink.announcements []).1.isOk = false
      ∧ ((HoldBuffer.new.poll [] (sink.data.take 1)).2.poll sink.announcements []).2.held = [] := by
  refine ⟨⟨_, _, ⟨"alpaca", .crypto, "BTC/USD"⟩, ⟨[.publish (.control ⟨1, 1, ⟨0⟩,
    .gap "other" ⟨"alpaca", .crypto, "BTC/USD"⟩ ⟨1, 2⟩⟩) ⟨false, false, none⟩], rfl⟩,
    observes_dataFirst (by decide +kernel), ?_⟩,
    ⟨_, ⟨[.publish btcTrade ⟨false, false, none⟩, .publish separatorTrade ⟨false, false, none⟩],
      rfl⟩, rfl, ?_, ?_, ?_⟩⟩
  all_goals decide +kernel

/-! ### What overtakes what -/

/-- `SessionClosing` is terminal: nothing sent before it is emitted after it. -/
def ClosingTerminal (es : List Emission) : Prop :=
  ∀ pre c post, es = pre ++ c :: post → isSessionClosing c.event = true →
    ∀ e ∈ post, c.offset < e.offset

/-- Whenever `SessionClosing` is observed, the symbols of the earlier samples that are
announced at all have been announced already. -/
def ClosedLast (obs : List Observation) : Prop :=
  ∀ pre x post, obs = pre ++ .sample x :: post → isSessionClosing x.origin = true →
    ∀ y ∈ samples pre, ∀ id, waitsFor y = some id → (∃ a ∈ applied post, a.id = id) →
      ∃ a ∈ applied pre, a.id = id

theorem subject_of_closing {ev : MarketEvent} (h : isSessionClosing ev = true) :
    subject ev = none := by
  cases ev with
  | control c =>
      obtain ⟨sourceTs, rxTs, seq, kind⟩ := c
      have hkind : kind = .sessionClosing := of_decide_eq_true h
      subst hkind
      rfl
  | _ => cases h

theorem settled_queueOf (obs : List Observation) : HoldQueue.Settled waitsFor (queueOf obs) :=
  HoldQueue.Settled.run (fun _ h => absurd h List.not_mem_nil) _

theorem mem_known_queueOf {obs : List Observation} {id : SymbolId} :
    id ∈ (queueOf obs).known ↔ ∃ a ∈ applied obs, a.id = id := by
  rw [queueOf, HoldQueue.mem_known_run, learnt_inputs, List.mem_map]
  simp [HoldQueue.Queue.empty]

theorem exists_split_of_mem_samples {obs : List Observation} {x : Sample} (h : x ∈ samples obs) :
    ∃ pre post, obs = pre ++ .sample x :: post := by
  induction obs with
  | nil => exact absurd h List.not_mem_nil
  | cons o obs ih =>
      cases o with
      | announcement a =>
          obtain ⟨pre, post, rfl⟩ := ih h
          exact ⟨.announcement a :: pre, post, rfl⟩
      | sample y =>
          rcases List.mem_cons.mp h with rfl | h
          · exact ⟨[], obs, rfl⟩
          · obtain ⟨pre, post, rfl⟩ := ih h
            exact ⟨.sample y :: pre, post, rfl⟩

/-- What happens from the moment `SessionClosing` is observed: it is emitted at once, and
what follows it is released from what was held and what comes after. -/
theorem released_of_closing {sink : Iceoryx2DataSink} (hsink : sink.Sound)
    {pre post : List Observation} {x : Sample} (hobs : Observes sink (pre ++ .sample x :: post))
    (hx : isSessionClosing x.origin = true) :
    ∃ out, (queueOf (pre ++ .sample x :: post)).released = (queueOf pre).released ++ x :: out
      ∧ (out ++ (queueOf (pre ++ .sample x :: post)).held).Perm
        ((queueOf pre).held ++ samples post) := by
  have hmem : x ∈ sink.data := hobs.samples.subset (by simp [samples])
  have hkey : waitsFor x = none := by
    simp [waitsFor, (hsink.carries x hmem).connection (subject_of_closing hx)]
  have hstep := (settled_queueOf pre).step_offer
    (HoldQueue.ready_of_key_none (queueOf pre).known hkey)
  have hrun : queueOf (pre ++ .sample x :: post)
      = HoldQueue.run waitsFor (HoldQueue.step waitsFor (queueOf pre) (.offer x))
        (inputs post) := by
    rw [queueOf, inputs_append, HoldQueue.run_append]
    rfl
  obtain ⟨out, hout, hperm⟩ := HoldQueue.released_append
    (HoldQueue.step waitsFor (queueOf pre) (.offer x)) (inputs post)
  rw [hrun]
  refine ⟨out, ?_, ?_⟩
  · rw [hout, hstep]
    simp
  · rw [hstep] at hperm ⊢
    rwa [offered_inputs] at hperm

/-- Samples are observed in the order of their places on the service. -/
theorem offset_lt_of_observed {sink : Iceoryx2DataSink} (hsink : sink.Sound)
    {pre post : List Observation} {x : Sample}
    (hobs : Observes sink (pre ++ .sample x :: post)) :
    (∀ y ∈ samples pre, y.offset < x.offset) ∧ ∀ y ∈ samples post, x.offset < y.offset := by
  have hsorted : ((samples (pre ++ .sample x :: post)).map Sample.offset).Pairwise (· < ·) := by
    refine List.Pairwise.sublist (hobs.samples.sublist.map _) ?_
    rw [hsink.offsets]
    exact List.pairwise_lt_range
  rw [samples_append, List.map_append, List.pairwise_append] at hsorted
  obtain ⟨-, hpost, hcross⟩ := hsorted
  rw [samples, List.map_cons, List.pairwise_cons] at hpost
  refine ⟨fun y hy => ?_, fun y hy => hpost.1 _ (List.mem_map_of_mem hy)⟩
  exact hcross _ (List.mem_map_of_mem hy) _ (by simp [samples])

/-- A sample that was released had its symbol announced. -/
theorem known_of_released {sink : Iceoryx2DataSink} (hsink : sink.Sound)
    {obs : List Observation} (hobs : Observes sink obs) {y : Sample}
    (hy : y ∈ (queueOf obs).released) {id : SymbolId} (hid : waitsFor y = some id) :
    ∃ a ∈ applied obs, a.id = id := by
  by_contra hnot
  have hwait : HoldQueue.ready waitsFor (queueOf obs).known y = false := by
    simpa [HoldQueue.ready, hid, mem_known_queueOf] using hnot
  have hin : y ∈ samples obs := (released_perm obs).subset (List.mem_append_left _ hy)
  have hheld : y ∈ (queueOf obs).held := by
    rw [queueOf, HoldQueue.mem_held_run (fun _ h => absurd h List.not_mem_nil), offered_inputs]
    exact ⟨.inr hin, hwait⟩
  have hnodup := ((released_perm obs).nodup_iff).mpr
    (List.Nodup.of_map _ (offsets_nodup hsink hobs))
  exact (List.nodup_append.mp hnodup).2.2 y hy y hheld rfl

/-- Of what was held when `SessionClosing` was observed, exactly what is announced later is
emitted after it. -/
theorem closingTerminal_iff_of_sound {sink : Iceoryx2DataSink} (hsink : sink.Sound)
    {obs : List Observation} (hobs : Observes sink obs) :
    ClosingTerminal (Subscriber.new.run obs).emitted ↔ ClosedLast obs := by
  have hemitted := (simulates hsink hobs).emitted
  constructor
  · rintro h pre x post rfl hx y hy id hid ⟨a, ha, haid⟩
    by_contra hnot
    obtain ⟨out, hout, hperm⟩ := released_of_closing hsink hobs hx
    have hheld : y ∈ (queueOf pre).held := by
      have hready : HoldQueue.ready waitsFor (queueOf pre).known y = false := by
        simpa [HoldQueue.ready, hid, mem_known_queueOf] using hnot
      rw [queueOf, HoldQueue.mem_held_run (fun _ h => absurd h List.not_mem_nil), offered_inputs]
      exact ⟨.inr hy, hready⟩
    have hgone : y ∉ (queueOf (pre ++ .sample x :: post)).held := by
      intro hstill
      have hwait := settled_queueOf _ y hstill
      have hknown : id ∈ (queueOf (pre ++ .sample x :: post)).known :=
        mem_known_queueOf.mpr ⟨a, by simp [applied, ha], haid⟩
      simp [HoldQueue.ready, hid, hknown] at hwait
    have hyout : y ∈ out := by
      have hin := hperm.mem_iff.mpr (List.mem_append_left _ hheld)
      exact (List.mem_append.mp hin).resolve_right hgone
    rw [hout, List.map_append, List.map_cons] at hemitted
    have hlater := h _ x.emission _ hemitted (by simpa [Sample.emission] using hx) y.emission
      (List.mem_map_of_mem hyout)
    exact absurd hlater (not_lt.mpr ((offset_lt_of_observed hsink hobs).1 y hy).le)
  · intro h l c r hsplit hc e he
    have hnodup : ((Subscriber.new.run obs).emitted.map Emission.offset).Nodup :=
      (delivered_of_sound hsink hobs).once
    obtain ⟨x, hxrel, rfl⟩ : ∃ x ∈ (queueOf obs).released, x.emission = c := by
      have hcmem : c ∈ (Subscriber.new.run obs).emitted := by rw [hsplit]; simp
      rw [hemitted] at hcmem
      exact List.mem_map.mp hcmem
    have hxobs : x ∈ samples obs := (released_perm obs).subset (List.mem_append_left _ hxrel)
    obtain ⟨pre, post, rfl⟩ := exists_split_of_mem_samples hxobs
    have hx : isSessionClosing x.origin = true := by simpa [Sample.emission] using hc
    obtain ⟨out, hout, hperm⟩ := released_of_closing hsink hobs hx
    rw [hout, List.map_append, List.map_cons] at hemitted
    -- The two places of the closing emission are the same, as no place is emitted twice.
    have hright : r = out.map Sample.emission := by
      have hl := List.Nodup.of_map _ hnodup
      rw [hsplit, List.nodup_append, List.nodup_cons] at hl
      obtain ⟨-, ⟨hnotr, -⟩, hdisj⟩ := hl
      have hnotl : x.emission ∉ l := fun hmem => hdisj _ hmem _ List.mem_cons_self rfl
      exact ((List.append_cons_inj_of_notMem hnotl hnotr).mp (hsplit.symm.trans hemitted)).2.2
    subst hright
    obtain ⟨y, hy, rfl⟩ := List.mem_map.mp he
    rcases List.mem_append.mp (hperm.subset (List.mem_append_left _ hy)) with hheld | hpost
    · -- A held sample comes out only once its symbol is announced, that is, later.
      exfalso
      obtain ⟨hypre, hwait⟩ := (HoldQueue.mem_held_run (fun _ h => absurd h List.not_mem_nil)).mp
        hheld
      rw [offered_inputs] at hypre
      have hypre : y ∈ samples pre := hypre.resolve_left List.not_mem_nil
      cases hid : waitsFor y with
      | none => rw [HoldQueue.ready_of_key_none _ hid] at hwait; cases hwait
      | some id =>
          have hnot : ¬ ∃ a ∈ applied pre, a.id = id := fun hk => by
            have hknown := mem_known_queueOf.mpr hk
            rw [queueOf] at hknown
            simp [HoldQueue.ready, hid, hknown] at hwait
          obtain ⟨a, ha, haid⟩ := known_of_released hsink hobs
            (by rw [hout]; simp [hy]) hid
          rw [applied_append] at ha
          rcases List.mem_append.mp ha with ha | ha
          · exact hnot ⟨a, ha, haid⟩
          · exact hnot (h pre x post rfl hx y hypre id hid ⟨a, ha, haid⟩)
    · exact (offset_lt_of_observed hsink hobs).2 y hpost

/-- Exactly when `SessionClosing` is terminal for a subscriber. -/
theorem closing_terminal_iff {accepts : ByteArray → Bool} {sink : Iceoryx2DataSink}
    (hsink : sink.Reachable accepts) {obs : List Observation} (hobs : Observes sink obs) :
    ClosingTerminal (Subscriber.new.run obs).emitted ↔ ClosedLast obs :=
  closingTerminal_iff_of_sound hsink.sound hobs

theorem closing_terminal_iff_btc : ∃ sink,
    sink.Reachable (fun _ => true) ∧ sink.data.map Sample.origin = [btcTrade, sessionClose]
      ∧ (ClosingTerminal (Subscriber.new.run (dataFirst sink)).emitted
        ↔ ClosedLast (dataFirst sink)) := by
  obtain ⟨sink, hsink, hdata, hdecodes⟩ := exists_btc_run
  exact ⟨sink, hsink, hdata, closing_terminal_iff hsink (observes_dataFirst hdecodes)⟩

/-- The trade and the close are read before the trade's announcement: the close comes out
first. -/
theorem trade_emitted_after_closing : ∃ sink obs, sink.Reachable (fun _ => true)
    ∧ Observes sink obs
    ∧ (Subscriber.new.run obs).emitted.map Emission.event = [sessionClose, btcTrade]
    ∧ ¬ ClosingTerminal (Subscriber.new.run obs).emitted := by
  refine ⟨_, _, ⟨[.publish btcTrade ⟨false, false, none⟩,
    .publish sessionClose ⟨false, false, none⟩], rfl⟩, observes_dataFirst (by decide +kernel), ?_,
    fun h => ?_⟩
  · decide +kernel
  · have hlt : (1 : Nat) < 0 :=
      h [] ⟨1, sessionClose⟩ [⟨0, btcTrade⟩] (by decide +kernel) rfl ⟨0, btcTrade⟩ (by simp)
    omega

end Transport

end Datamancer
