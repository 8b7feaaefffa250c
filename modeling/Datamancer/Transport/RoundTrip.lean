import Datamancer.Transport.Subscriber

/-!
# Datamancer.Transport.RoundTrip

An event through the whole of the data plane: interned and sent as a payload, its symbol
announced, and the payload read back by whoever has applied the table's announcements. The
interner takes every tuple that is not too long; what it takes comes back exactly where the
tuple can be announced and split again (`roundTrips_iff`).
-/

namespace Datamancer

namespace Transport

/-! ### The announced table -/

/-- Apply announcements one after another; one that does not decode changes nothing. -/
def SymbolResolver.applyAll (r : SymbolResolver) (as : List SymbolAnnouncement) : SymbolResolver :=
  as.foldl (fun r a =>
    match r.apply a with
    | .ok r' => r'
    | .error _ => r) r

/-- The resolver of a subscriber that has seen the whole table. -/
def SymbolTable.announced (accepts : ByteArray → Bool) (t : SymbolTable) : SymbolResolver :=
  SymbolResolver.applyAll (fun _ => none) (t.announcements accepts)

theorem SymbolResolver.applyAll_cons (r : SymbolResolver) (a : SymbolAnnouncement)
    (as : List SymbolAnnouncement) :
    r.applyAll (a :: as)
      = (match a.instrument with
        | .ok i => Function.update r a.id (some i)
        | .error _ => r : SymbolResolver).applyAll as := by
  rw [applyAll, List.foldl_cons, apply]
  cases a.instrument <;> rfl

/-- An id whose announcements all decode to one instrument, if there is one at all. -/
theorem SymbolResolver.applyAll_eq_some {r : SymbolResolver} {as : List SymbolAnnouncement}
    {id : SymbolId} {i : Instrument} (hall : ∀ a ∈ as, a.id = id → a.instrument = .ok i)
    (hsome : r id = some i ∨ ∃ a ∈ as, a.id = id) : r.applyAll as id = some i := by
  induction as generalizing r with
  | nil => exact hsome.resolve_right fun ⟨a, ha, _⟩ => absurd ha List.not_mem_nil
  | cons a as ih =>
      rw [applyAll_cons]
      refine ih (fun b hb => hall b (List.mem_cons_of_mem _ hb)) ?_
      by_cases hid : a.id = id
      · rw [hall a List.mem_cons_self hid]
        subst hid
        exact .inl (Function.update_self _ _ _)
      · rcases hsome with hr | ⟨b, hb, hbid⟩
        · refine .inl ?_
          cases a.instrument with
          | ok j => exact (Function.update_of_ne (Ne.symm hid) _ _).trans hr
          | error e => exact hr
        · rcases List.mem_cons.mp hb with rfl | hb
          · exact absurd hbid hid
          · exact .inr ⟨b, hb, hbid⟩

theorem SymbolTable.mem_announcements {accepts : ByteArray → Bool} {t : SymbolTable}
    {a : SymbolAnnouncement} :
    a ∈ t.announcements accepts ↔ t.announcement accepts a.id = some a := by
  rw [announcements, List.mem_filterMap]
  constructor
  · rintro ⟨n, -, hn⟩
    rw [(instrument_of_announcement hn).1]
    exact hn
  · intro ha
    have hlt : a.id.val.toNat < t.reverse.length := by
      simp only [announcement, bind, Option.bind_eq_some_iff] at ha
      obtain ⟨i, hi, -⟩ := ha
      exact (List.getElem?_eq_some_iff.mp hi).1
    refine ⟨a.id.val.toNat, List.mem_range.mpr hlt, ?_⟩
    rw [UInt32.ofNat_toNat]
    exact ha

/-- An interned symbol whose announcement decodes is resolved by the whole table. -/
theorem SymbolTable.announced_eq {accepts : ByteArray → Bool} {t : SymbolTable} {id : SymbolId}
    {a : SymbolAnnouncement} {i : Instrument} (ha : t.announcement accepts id = some a)
    (hi : a.instrument = .ok i) : t.announced accepts id = some i := by
  have hid := (instrument_of_announcement ha).1
  refine SymbolResolver.applyAll_eq_some (fun b hb hbid => ?_) (.inr ⟨a, ?_, hid⟩)
  · have hb' := mem_announcements.mp hb
    rw [hbid, ha] at hb'
    rwa [← Option.some.inj hb']
  · exact mem_announcements.mpr (hid.symm ▸ ha)

/-! ### What is sent -/

/-- The controls of a connection, which do not travel on the data plane. -/
def isSuppressed : MarketEvent → Bool
  | .control ⟨_, _, _, .providerConnected ..⟩ | .control ⟨_, _, _, .providerDisconnected ..⟩
  | .control ⟨_, _, _, .providerError ..⟩ => true
  | _ => false

/-- The provider of a control, if it has one and an instrument too, is its instrument's. -/
def ProviderAgrees : MarketEvent → Prop
  | .control ⟨_, _, _, .gap provider instrument _⟩ => provider = instrument.provider
  | .control ⟨_, _, _, .subscriptionChanged provider instrument _ _⟩ =>
      provider = instrument.provider
  | _ => True

theorem recoverProvider_of_agrees {ev : MarketEvent} (h : ProviderAgrees ev) :
    recoverProvider ev = ev := by
  cases ev with
  | control c =>
      obtain ⟨sourceTs, rxTs, seq, kind⟩ := c
      cases kind with
      | gap provider instrument span =>
          obtain rfl : provider = instrument.provider := h
          rfl
      | subscriptionChanged provider instrument kind active =>
          obtain rfl : provider = instrument.provider := h
          rfl
      | _ => rfl
  | _ => rfl

/-- What is not suppressed and can be interned is sent. -/
theorem toPod_of_intern {ev : MarketEvent} {t : SymbolTable} (hsent : isSuppressed ev = false)
    (hintern : ∀ i, subject ev = some i → ∃ r, t.intern i = .ok r) :
    ∃ p t', toPod ev t = .ok (some p, t') := by
  have hinterned : ∀ i f, (∃ r, t.intern i = .ok r) →
      ∃ p t', t.interned i f = .ok (some p, t') := by
    rintro i f ⟨r, hr⟩
    exact ⟨f r.1, r.2, by rw [SymbolTable.interned, hr]; rfl⟩
  cases ev with
  | control c =>
      obtain ⟨sourceTs, rxTs, seq, kind⟩ := c
      cases kind with
      | gap provider instrument span =>
          simp only [toPod, controlToPod]
          exact hinterned instrument _ (hintern instrument rfl)
      | subscriptionChanged provider instrument kind active =>
          simp only [toPod, controlToPod]
          exact hinterned instrument _ (hintern instrument rfl)
      | sessionClosing => exact ⟨_, t, rfl⟩
      | _ => cases hsent
  | trade tr =>
      simp only [toPod]
      exact hinterned tr.instrument _ (hintern tr.instrument rfl)
  | quote q =>
      simp only [toPod]
      exact hinterned q.instrument _ (hintern q.instrument rfl)
  | bar b =>
      simp only [toPod]
      exact hinterned b.instrument _ (hintern b.instrument rfl)

/-- What is sent has been interned. -/
theorem intern_of_toPod {ev : MarketEvent} {t t' : SymbolTable} {p : DataPayload}
    (h : toPod ev t = .ok (some p, t')) {i : Instrument} (hi : subject ev = some i) :
    ∃ r, t.intern i = .ok r := by
  have hinterned : ∀ j f, t.interned j f = .ok (some p, t') → j = i → ∃ r, t.intern i = .ok r := by
    rintro j f hf rfl
    obtain ⟨id, hid, -⟩ := of_interned hf
    exact ⟨_, hid⟩
  cases ev with
  | control c =>
      obtain ⟨sourceTs, rxTs, seq, kind⟩ := c
      simp only [toPod, controlToPod] at h
      cases kind with
      | gap provider instrument span => exact hinterned instrument _ h (Option.some.inj hi)
      | subscriptionChanged provider instrument kind active =>
          exact hinterned instrument _ h (Option.some.inj hi)
      | _ => cases hi
  | trade tr =>
      simp only [toPod] at h
      exact hinterned tr.instrument _ h (Option.some.inj hi)
  | quote q =>
      simp only [toPod] at h
      exact hinterned q.instrument _ h (Option.some.inj hi)
  | bar b =>
      simp only [toPod] at h
      exact hinterned b.instrument _ h (Option.some.inj hi)

/-! ### What comes back -/

/-- The event is sent, the symbol it is sent under is announced as its instrument, and the
whole table reads it back as it was. -/
def RoundTrips (accepts : ByteArray → Bool) (ev : MarketEvent) (t : SymbolTable) : Prop :=
  ∃ p t', toPod ev t = .ok (some p, t')
    ∧ (∀ i, subject ev = some i →
      ∃ a, t'.announcement accepts p.symbol = some a ∧ a.instrument = .ok i)
    ∧ fromPod p (t'.announced accepts) = .ok ev

/-- A tuple the announcement string takes, with no separator within its texts. -/
structure Announceable (accepts : ByteArray → Bool) (i : Instrument) : Prop where
  provider : sep ∉ i.provider.toList
  symbol : sep ∉ i.symbol.toList
  accepted : accepts (encodeInstrument i) = true

/-- An announcement carries the tuple of the instrument, which the string has taken. -/
theorem announcement_spec {accepts : ByteArray → Bool} {t : SymbolTable} {id : SymbolId}
    {i : Instrument} {a : SymbolAnnouncement} (h : t.lookup id = some i)
    (ha : t.announcement accepts id = some a) :
    accepts (encodeInstrument i) = true ∧ a.instrument = decodeInstrument (encodeInstrument i) := by
  rw [SymbolTable.lookup] at h
  simp only [SymbolTable.announcement, h, bind, Option.bind_some, Option.bind_eq_some_iff,
    Option.some.injEq] at ha
  obtain ⟨tuple, htuple, rfl⟩ := ha
  refine ⟨?_, by rw [SymbolAnnouncement.instrument, SymbolString.bytes_of_fromBytes htuple]⟩
  rw [SymbolString.fromBytes] at htuple
  split_ifs at htuple with hlen haccepts
  exact haccepts

/-- What has been announced could be. -/
theorem announceable_of_roundTrips {accepts : ByteArray → Bool} {ev : MarketEvent}
    {t : SymbolTable} (h : RoundTrips accepts ev t) {i : Instrument} (hi : subject ev = some i) :
    Announceable accepts i := by
  obtain ⟨p, t', hpod, hann, -⟩ := h
  obtain ⟨a, ha, hdecode⟩ := hann i hi
  have hlookup := (carries_of_toPod hpod).2.symbol i hi
  obtain ⟨haccepts, htuple⟩ := announcement_spec hlookup ha
  obtain ⟨hp, hs⟩ := sep_not_mem_of_decode (htuple.symm.trans hdecode)
  exact ⟨hp, hs, haccepts⟩

/-- A payload reads back as its event wherever its symbol resolves to the event's instrument. -/
theorem fromPod_of_resolved {ev : MarketEvent} {t t' : SymbolTable} {p : DataPayload}
    {r : SymbolResolver} (hpod : toPod ev t = .ok (some p, t')) (hprovider : ProviderAgrees ev)
    (hr : ∀ i, subject ev = some i → r p.symbol = some i) : fromPod p r = .ok ev := by
  have hcarries := (carries_of_toPod hpod).2
  have hback := recoverProvider_of_agrees hprovider
  cases hsub : subject ev with
  | none => rw [hcarries.unscoped r hsub, hback]
  | some i => rw [hcarries.resolved i r hsub (hr i hsub), hback]

/-- What can be announced comes back: the announced table resolves the payload's symbol. -/
theorem roundTrips_of_announceable {accepts : ByteArray → Bool} {ev : MarketEvent}
    {t t' : SymbolTable} {p : DataPayload} (hpod : toPod ev t = .ok (some p, t'))
    (hprovider : ProviderAgrees ev) (hann : ∀ i, subject ev = some i → Announceable accepts i) :
    RoundTrips accepts ev t := by
  have hannounced : ∀ i, subject ev = some i →
      ∃ a, t'.announcement accepts p.symbol = some a ∧ a.instrument = .ok i := by
    intro i hi
    have hi' := hann i hi
    have hlookup := (carries_of_toPod hpod).2.symbol i hi
    obtain ⟨a, ha⟩ := SymbolTable.exists_announcement hlookup hi'.accepted
    exact ⟨a, ha, (announcement_spec hlookup ha).2.trans (decode_encode hi'.provider hi'.symbol)⟩
  refine ⟨p, t', hpod, hannounced, fromPod_of_resolved hpod hprovider fun i hi => ?_⟩
  obtain ⟨a, ha, hdecode⟩ := hannounced i hi
  exact SymbolTable.announced_eq ha hdecode

/-- An event that is not suppressed, with its instrument's provider, and that can be interned
comes back unchanged exactly where its instrument can be announced. -/
theorem roundTrips_iff (accepts : ByteArray → Bool) {ev : MarketEvent} {t : SymbolTable}
    (hsent : isSuppressed ev = false) (hprovider : ProviderAgrees ev)
    (hintern : ∀ i, subject ev = some i → ∃ r, t.intern i = .ok r) :
    RoundTrips accepts ev t ↔ ∀ i, subject ev = some i → Announceable accepts i := by
  refine ⟨fun h i hi => announceable_of_roundTrips h hi, fun hann => ?_⟩
  obtain ⟨p, t', hpod⟩ := toPod_of_intern hsent hintern
  exact roundTrips_of_announceable hpod hprovider hann

/-- The bytes the announcement string takes: ASCII, and no zero. -/
def isAscii (bytes : ByteArray) : Bool := bytes.data.all fun b => 0 < b && b < 128

/-- A trade of bitcoin, and one of a symbol with the separator in it. -/
def aTrade (symbol : String) : MarketEvent :=
  .trade ⟨⟨"alpaca", .crypto, symbol⟩, 1, 2, ⟨5⟩, ⟨100⟩, ⟨1⟩⟩

theorem roundTrips_btc : RoundTrips isAscii (aTrade "BTC/USD") .new := by
  have hintern : ∀ i, subject (aTrade "BTC/USD") = some i →
      ∃ r, SymbolTable.new.intern i = .ok r := by
    intro i hi
    cases hi
    exact ⟨_, rfl⟩
  have hprovider : ProviderAgrees (aTrade "BTC/USD") := trivial
  refine (roundTrips_iff isAscii rfl hprovider hintern).mpr fun i hi => ?_
  cases hi
  exact ⟨by decide, by decide, by decide +kernel⟩

/-- The separator makes the tuple longer by one byte, and that is all the interner sees of it:
what it takes is announced in vain. -/
theorem separator_not_roundTrips : isSuppressed (aTrade "BTC\x1fUSD") = false
    ∧ ProviderAgrees (aTrade "BTC\x1fUSD")
    ∧ (∀ i, subject (aTrade "BTC\x1fUSD") = some i → ∃ r, SymbolTable.new.intern i = .ok r)
    ∧ ¬ RoundTrips isAscii (aTrade "BTC\x1fUSD") .new := by
  refine ⟨rfl, trivial, fun i hi => ?_, fun h => ?_⟩
  · cases hi
    exact ⟨_, rfl⟩
  · exact absurd (announceable_of_roundTrips h rfl).symbol (by decide)

end Transport

end Datamancer
