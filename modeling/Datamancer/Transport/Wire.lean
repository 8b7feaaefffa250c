import Datamancer.Transport.RoundTrip

/-!
# Datamancer.Transport.Wire

The event frame of the WebSocket transport and its logical <-> wire conversions (`wire.rs`).
The instrument and the provider of a control travel inline, so there is no table to announce
and nothing to recover; the controls of a connection are suppressed as they are on the other
transport. The two codecs carry the same events and read them back alike (`codecs_agree`).
-/

namespace Datamancer

namespace Transport

/-! ### The frame -/

/-- One constructor for each `type` tag; prices and sizes are raw. -/
inductive EventFrame
  | trade (instrument : Instrument) (seq : Seq) (sourceTs rxTs : Timestamp) (price : Int64)
      (size : UInt64)
  | quote (instrument : Instrument) (seq : Seq) (sourceTs rxTs : Timestamp) (bid : Int64)
      (bidSize : UInt64) (ask : Int64) (askSize : UInt64)
  | bar (instrument : Instrument) (interval : BarInterval) (seq : Seq) (sourceTs rxTs : Timestamp)
      («open» high low close : Int64) (volume : UInt64)
  | gap (instrument : Instrument) (provider : String) (seq : Seq) (sourceTs rxTs : Timestamp)
      (fromSourceTs toSourceTs : Timestamp)
  | subscriptionChanged (instrument : Instrument) (provider : String) (kind : EventKind)
      (active : Bool) (seq : Seq) (sourceTs rxTs : Timestamp)
  | sessionClosing (seq : Seq) (sourceTs rxTs : Timestamp)
  deriving DecidableEq, Repr

/-! ### Logical to wire -/

/-- The frame of a control; `none` for the controls of a connection. -/
def controlToWire (c : Control) : Option EventFrame :=
  match c.kind with
  | .providerConnected .. | .providerDisconnected .. | .providerError .. => none
  | .gap provider instrument span =>
      some (.gap instrument provider c.seq c.sourceTs c.rxTs span.fromSourceTs span.toSourceTs)
  | .subscriptionChanged provider instrument kind active =>
      some (.subscriptionChanged instrument provider kind active c.seq c.sourceTs c.rxTs)
  | .sessionClosing => some (.sessionClosing c.seq c.sourceTs c.rxTs)

def toWire : MarketEvent → Option EventFrame
  | .trade t => some (.trade t.instrument t.seq t.sourceTs t.rxTs t.price.raw t.size.raw)
  | .quote q =>
      some (.quote q.instrument q.seq q.sourceTs q.rxTs q.bid.raw q.bidSize.raw q.ask.raw
        q.askSize.raw)
  | .bar b =>
      some (.bar b.instrument b.interval b.seq b.sourceTs b.rxTs b.open.raw b.high.raw b.low.raw
        b.close.raw b.volume.raw)
  | .control c => controlToWire c

/-! ### Wire to logical -/

/-- The control of a frame; `none` is the `unreachable!` of the data frames. -/
def controlFromWire : EventFrame → Option MarketEvent
  | .gap instrument provider seq sourceTs rxTs fromSourceTs toSourceTs =>
      some (.control ⟨sourceTs, rxTs, seq, .gap provider instrument ⟨fromSourceTs, toSourceTs⟩⟩)
  | .subscriptionChanged instrument provider kind active seq sourceTs rxTs =>
      some (.control
        ⟨sourceTs, rxTs, seq, .subscriptionChanged provider instrument kind active⟩)
  | .sessionClosing seq sourceTs rxTs => some (.control ⟨sourceTs, rxTs, seq, .sessionClosing⟩)
  | .trade .. | .quote .. | .bar .. => none

/-- Reconstruct an event from its frame; `none` where `controlFromWire` panics. -/
def fromWire : EventFrame → Option MarketEvent
  | .trade instrument seq sourceTs rxTs price size =>
      some (.trade ⟨instrument, sourceTs, rxTs, seq, ⟨price⟩, ⟨size⟩⟩)
  | .quote instrument seq sourceTs rxTs bid bidSize ask askSize =>
      some (.quote ⟨instrument, sourceTs, rxTs, seq, ⟨bid⟩, ⟨bidSize⟩, ⟨ask⟩, ⟨askSize⟩⟩)
  | .bar instrument interval seq sourceTs rxTs o high low close volume =>
      some (.bar ⟨instrument, interval, sourceTs, rxTs, seq, ⟨o⟩, ⟨high⟩, ⟨low⟩, ⟨close⟩,
        ⟨volume⟩⟩)
  | frame@(.gap ..) | frame@(.subscriptionChanged ..) | frame@(.sessionClosing ..) =>
      controlFromWire frame

/-! ### The two codecs -/

/-- Encoding undoes decoding, and the decoder never panics. -/
theorem toWire_fromWire (f : EventFrame) : ∃ ev, fromWire f = some ev ∧ toWire ev = some f := by
  cases f <;> exact ⟨_, rfl, rfl⟩

theorem fromWire_toWire {ev : MarketEvent} {f : EventFrame} (h : toWire ev = some f) :
    fromWire f = some ev := by
  cases ev with
  | control c =>
      obtain ⟨sourceTs, rxTs, seq, kind⟩ := c
      cases kind with
      | providerConnected _ => cases h
      | providerDisconnected _ _ _ => cases h
      | providerError _ _ => cases h
      | _ => cases h; rfl
  | _ => cases h; rfl

/-- The frame codec suppresses the controls of a connection. -/
theorem toWire_eq_none {ev : MarketEvent} : toWire ev = none ↔ isSuppressed ev = true := by
  cases ev with
  | control c =>
      obtain ⟨sourceTs, rxTs, seq, kind⟩ := c
      cases kind <;> simp [toWire, controlToWire, isSuppressed]
  | _ => simp [toWire, isSuppressed]

/-- So does the payload codec, whatever the table. -/
theorem toPod_of_suppressed {ev : MarketEvent} (h : isSuppressed ev = true) (t : SymbolTable) :
    toPod ev t = .ok (none, t) := by
  cases ev with
  | control c =>
      obtain ⟨sourceTs, rxTs, seq, kind⟩ := c
      cases kind with
      | gap _ _ _ => cases h
      | subscriptionChanged _ _ _ _ => cases h
      | sessionClosing => cases h
      | _ => rfl
  | _ => cases h

theorem suppressed_of_toPod {ev : MarketEvent} {t t' : SymbolTable}
    (h : toPod ev t = .ok (none, t')) : isSuppressed ev = true := by
  cases ev with
  | control c =>
      obtain ⟨sourceTs, rxTs, seq, kind⟩ := c
      simp only [toPod, controlToPod] at h
      cases kind with
      | gap _ _ _ => exact (interned_ne_suppressed h).elim
      | subscriptionChanged _ _ _ _ => exact (interned_ne_suppressed h).elim
      | sessionClosing => cases h
      | _ => rfl
  | _ =>
      simp only [toPod] at h
      exact (interned_ne_suppressed h).elim

/-- Of what the frame codec carries the payload codec carries what the table takes. -/
theorem toPod_some_iff {ev : MarketEvent} {t : SymbolTable} (hsent : isSuppressed ev = false) :
    (∃ p t', toPod ev t = .ok (some p, t')) ↔ ∀ i, subject ev = some i → t.Encodes i := by
  constructor
  · rintro ⟨p, t', h⟩ i hi
    exact SymbolTable.intern_ok_iff.mp (intern_of_toPod h hi)
  · intro h
    exact toPod_of_intern hsent fun i hi => SymbolTable.intern_ok_iff.mpr (h i hi)

theorem sent_of_toWire {ev : MarketEvent} {f : EventFrame} (h : toWire ev = some f) :
    isSuppressed ev = false := by
  have hne : toWire ev ≠ none := by
    rw [h]
    exact Option.some_ne_none f
  rw [Ne, toWire_eq_none] at hne
  exact Bool.eq_false_iff.mpr hne

/-- The two transports suppress the same events and never anything else; what a frame carries
a payload carries exactly if the table takes its instrument; every event a transport carries is
read back as it was (from a frame always; from a payload by whoever resolves its symbol, so by
a subscriber with the whole announced table), and encoding undoes decoding on every frame. -/
theorem codecs_agree (accepts : ByteArray → Bool) :
    (∀ ev t, toWire ev = none ↔ ∃ t', toPod ev t = .ok (none, t'))
    ∧ (∀ ev t, (∃ f, toWire ev = some f) →
        ((∃ p t', toPod ev t = .ok (some p, t')) ↔ ∀ i, subject ev = some i → t.Encodes i))
    ∧ (∀ ev f, toWire ev = some f → fromWire f = some ev)
    ∧ (∀ ev t p t' (r : SymbolResolver), ProviderAgrees ev → toPod ev t = .ok (some p, t') →
        (∀ i, subject ev = some i → r p.symbol = some i) → fromPod p r = .ok ev)
    ∧ (∀ ev (t : SymbolTable), (∃ f, toWire ev = some f) → ProviderAgrees ev →
        (∀ i, subject ev = some i → t.Encodes i ∧ Announceable accepts i) →
        RoundTrips accepts ev t)
    ∧ ∀ f, ∃ ev, fromWire f = some ev ∧ toWire ev = some f := by
  refine ⟨fun ev t => ?_, ?_, fun ev f => fromWire_toWire, ?_, ?_, toWire_fromWire⟩
  · rw [toWire_eq_none]
    constructor
    · intro h
      exact ⟨t, toPod_of_suppressed h t⟩
    · rintro ⟨t', h⟩
      exact suppressed_of_toPod h
  · rintro ev t ⟨f, hf⟩
    exact toPod_some_iff (sent_of_toWire hf)
  · intro ev t p t' r hprovider hpod hr
    exact fromPod_of_resolved hpod hprovider hr
  · rintro ev t ⟨f, hf⟩ hprovider hinstrument
    obtain ⟨p, t', hpod⟩ := (toPod_some_iff (sent_of_toWire hf)).mpr
      fun i hi => (hinstrument i hi).1
    exact roundTrips_of_announceable hpod hprovider fun i hi => (hinstrument i hi).2

theorem btc_carried_alike : RoundTrips isAscii (aTrade "BTC/USD") .new := by
  obtain ⟨-, -, -, -, hback, -⟩ := codecs_agree isAscii
  refine hback (aTrade "BTC/USD") .new ⟨_, rfl⟩ trivial fun i hi => ?_
  cases hi
  exact ⟨.inr (by decide +kernel), by decide, by decide, by decide +kernel⟩

/-- With its provider and asset class a symbol of 64 characters is too long to announce. -/
def longSymbol : String := String.ofList (List.replicate 64 'A')

theorem long_symbol_not_carried : (∃ f, toWire (aTrade longSymbol) = some f)
    ∧ ¬ (∃ p t', toPod (aTrade longSymbol) .new = .ok (some p, t'))
    ∧ toPod (aTrade longSymbol) .new = .error (.tooLong 78) := by
  have herror : toPod (aTrade longSymbol) .new = .error (.tooLong 78) := by
    rfl
  refine ⟨⟨_, rfl⟩, ?_, herror⟩
  rintro ⟨p, t', h⟩
  rw [herror] at h
  cases h

end Transport

end Datamancer
