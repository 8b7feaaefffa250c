import Datamancer.Transport.SymbolTable

/-!
# Datamancer.Transport.Payload

The flat data payload and its logical <-> wire conversions (`payload.rs`). All variants
share one record and populate the fields their kind means; the instrument travels as
its `SymbolId`.

Connection-scoped controls are suppressed on the data plane, and the `provider` of a
per-symbol control does not travel: it is read back as the resolved instrument's
(`recoverProvider`). What `toPod` makes of an event, `fromPod` reads back once the
symbol is known (`fromPod_toPod`).
-/

namespace Datamancer

namespace Transport

/-! ### Discriminants -/

inductive PayloadKind
  | trade
  | quote
  | bar
  | control
  deriving DecidableEq, Repr

def PayloadKind.tag : PayloadKind → UInt8
  | .trade => 0
  | .quote => 1
  | .bar => 2
  | .control => 3

inductive ControlTag
  | gap
  | subscriptionChanged
  | sessionClosing
  deriving DecidableEq, Repr

def ControlTag.tag : ControlTag → UInt8
  | .gap => 0
  | .subscriptionChanged => 1
  | .sessionClosing => 2

def intervalToTag : BarInterval → UInt8
  | .oneSecond => 0
  | .oneMinute => 1
  | .fiveMinute => 2
  | .fifteenMinute => 3
  | .oneHour => 4
  | .oneDay => 5

def tagToInterval (tag : UInt8) : Option BarInterval :=
  if tag = 0 then some .oneSecond
  else if tag = 1 then some .oneMinute
  else if tag = 2 then some .fiveMinute
  else if tag = 3 then some .fifteenMinute
  else if tag = 4 then some .oneHour
  else if tag = 5 then some .oneDay
  else none

def eventKindToTags : EventKind → UInt8 × UInt8
  | .trade => (0, 0)
  | .quote => (1, 0)
  | .bar interval => (2, intervalToTag interval)

def tagsToEventKind (kindTag intervalTag : UInt8) : Option EventKind :=
  if kindTag = 0 then some .trade
  else if kindTag = 1 then some .quote
  else if kindTag = 2 then (tagToInterval intervalTag).map .bar
  else none

@[simp] theorem tagToInterval_intervalToTag (i : BarInterval) :
    tagToInterval (intervalToTag i) = some i := by
  cases i <;> rfl

@[simp] theorem tagsToEventKind_eventKindToTags (k : EventKind) :
    tagsToEventKind (eventKindToTags k).1 (eventKindToTags k).2 = some k := by
  cases k with
  | trade => rfl
  | quote => rfl
  | bar i => simp [eventKindToTags, tagsToEventKind]

/-! ### The wire record -/

structure DataPayload where
  kind : UInt8
  controlTag : UInt8
  interval : UInt8
  subKind : UInt8
  active : UInt8
  symbol : SymbolId
  seq : UInt64
  sourceTs : Int64
  rxTs : Int64
  a : Int64
  b : Int64
  c : Int64
  d : Int64
  size0 : UInt64
  size1 : UInt64
  deriving DecidableEq, Repr

def DataPayload.blank (kind : PayloadKind) (symbol : SymbolId) (sourceTs rxTs : Int64)
    (seq : UInt64) : DataPayload :=
  { kind := kind.tag, controlTag := 0, interval := 0, subKind := 0, active := 0, symbol, seq
    sourceTs, rxTs, a := 0, b := 0, c := 0, d := 0, size0 := 0, size1 := 0 }

/-! ### Logical to wire -/

/-- The payload `f` makes of the symbol the instrument is interned under. -/
def SymbolTable.interned (table : SymbolTable) (i : Instrument) (f : SymbolId → DataPayload) :
    Except InternError (Option DataPayload × SymbolTable) :=
  (table.intern i).map fun r => (some (f r.1), r.2)

/-- The payload of a control; `none` for the controls suppressed on the data plane. -/
def controlToPod (c : Control) (table : SymbolTable) :
    Except InternError (Option DataPayload × SymbolTable) :=
  match c.kind with
  | .providerConnected .. | .providerDisconnected .. | .providerError .. => .ok (none, table)
  | .sessionClosing =>
      .ok (some { DataPayload.blank .control .connection c.sourceTs.nanos c.rxTs.nanos c.seq.val
                    with controlTag := ControlTag.sessionClosing.tag }, table)
  | .gap _ instrument span =>
      table.interned instrument fun symbol =>
        { DataPayload.blank .control symbol c.sourceTs.nanos c.rxTs.nanos c.seq.val with
          controlTag := ControlTag.gap.tag
          a := span.fromSourceTs.nanos
          b := span.toSourceTs.nanos }
  | .subscriptionChanged _ instrument kind active =>
      table.interned instrument fun symbol =>
        { DataPayload.blank .control symbol c.sourceTs.nanos c.rxTs.nanos c.seq.val with
          controlTag := ControlTag.subscriptionChanged.tag
          subKind := (eventKindToTags kind).1
          interval := (eventKindToTags kind).2
          active := if active then 1 else 0 }

/-- Convert an event to its wire payload, interning its instrument. -/
def toPod (ev : MarketEvent) (table : SymbolTable) :
    Except InternError (Option DataPayload × SymbolTable) :=
  match ev with
  | .trade t =>
      table.interned t.instrument fun symbol =>
        { DataPayload.blank .trade symbol t.sourceTs.nanos t.rxTs.nanos t.seq.val with
          a := t.price.raw
          size0 := t.size.raw }
  | .quote q =>
      table.interned q.instrument fun symbol =>
        { DataPayload.blank .quote symbol q.sourceTs.nanos q.rxTs.nanos q.seq.val with
          a := q.bid.raw
          b := q.ask.raw
          size0 := q.bidSize.raw
          size1 := q.askSize.raw }
  | .bar b =>
      table.interned b.instrument fun symbol =>
        { DataPayload.blank .bar symbol b.sourceTs.nanos b.rxTs.nanos b.seq.val with
          interval := intervalToTag b.interval
          a := b.open.raw
          b := b.high.raw
          c := b.low.raw
          d := b.close.raw
          size0 := b.volume.raw }
  | .control c => controlToPod c table

/-! ### Wire to logical -/

inductive FromPodError
  | unresolved (id : SymbolId)
  | badDiscriminant
  deriving DecidableEq, Repr

/-- The symbols announced so far. -/
abbrev SymbolResolver := SymbolId → Option Instrument

def resolve (resolver : SymbolResolver) (id : SymbolId) : Except FromPodError Instrument :=
  match resolver id with
  | some i => .ok i
  | none => .error (.unresolved id)

def okOr {α : Type} : Option α → Except FromPodError α
  | some x => .ok x
  | none => .error .badDiscriminant

def controlFromPod (p : DataPayload) (resolver : SymbolResolver) :
    Except FromPodError MarketEvent := do
  let kind : ControlKind ←
    if p.controlTag = ControlTag.sessionClosing.tag then .ok .sessionClosing
    else if p.controlTag = ControlTag.gap.tag then do
      let instrument ← resolve resolver p.symbol
      .ok (.gap instrument.provider instrument ⟨⟨p.a⟩, ⟨p.b⟩⟩)
    else if p.controlTag = ControlTag.subscriptionChanged.tag then do
      let instrument ← resolve resolver p.symbol
      let kind ← okOr (tagsToEventKind p.subKind p.interval)
      .ok (.subscriptionChanged instrument.provider instrument kind (p.active != 0))
    else .error .badDiscriminant
  .ok (.control ⟨⟨p.sourceTs⟩, ⟨p.rxTs⟩, ⟨p.seq⟩, kind⟩)

/-- Reconstruct an event from its wire payload, resolving its symbol. -/
def fromPod (p : DataPayload) (resolver : SymbolResolver) : Except FromPodError MarketEvent :=
  if p.kind = PayloadKind.trade.tag then do
    let instrument ← resolve resolver p.symbol
    .ok (.trade ⟨instrument, ⟨p.sourceTs⟩, ⟨p.rxTs⟩, ⟨p.seq⟩, ⟨p.a⟩, ⟨p.size0⟩⟩)
  else if p.kind = PayloadKind.quote.tag then do
    let instrument ← resolve resolver p.symbol
    .ok (.quote ⟨instrument, ⟨p.sourceTs⟩, ⟨p.rxTs⟩, ⟨p.seq⟩, ⟨p.a⟩, ⟨p.size0⟩, ⟨p.b⟩,
      ⟨p.size1⟩⟩)
  else if p.kind = PayloadKind.bar.tag then do
    let instrument ← resolve resolver p.symbol
    let interval ← okOr (tagToInterval p.interval)
    .ok (.bar ⟨instrument, interval, ⟨p.sourceTs⟩, ⟨p.rxTs⟩, ⟨p.seq⟩, ⟨p.a⟩, ⟨p.b⟩, ⟨p.c⟩,
      ⟨p.d⟩, ⟨p.size0⟩⟩)
  else if p.kind = PayloadKind.control.tag then controlFromPod p resolver
  else .error .badDiscriminant

/-! ### What travels -/

/-- The instrument an event is for; none for connection-scoped controls. -/
def subject : MarketEvent → Option Instrument
  | .trade t => some t.instrument
  | .quote q => some q.instrument
  | .bar b => some b.instrument
  | .control c =>
      match c.kind with
      | .gap _ instrument _ | .subscriptionChanged _ instrument _ _ => some instrument
      | _ => none

/-- An event as a subscriber reads it: the `provider` of a per-symbol control is its
instrument's. -/
def recoverProvider : MarketEvent → MarketEvent
  | .control c =>
      match c.kind with
      | .gap _ instrument span =>
          .control { c with kind := .gap instrument.provider instrument span }
      | .subscriptionChanged _ instrument kind active =>
          .control
            { c with kind := .subscriptionChanged instrument.provider instrument kind active }
      | _ => .control c
  | ev => ev

/-- `SessionClosing`. -/
def isSessionClosing : MarketEvent → Bool
  | .control c => c.kind = .sessionClosing
  | _ => false

/-- `p` is what the event was sent as under `t`: an event of an instrument under that
instrument's id, to be read back once the id is resolved, and one of none under the
reserved id, to be read back at once. -/
structure Carries (t : SymbolTable) (p : DataPayload) (ev : MarketEvent) : Prop where
  symbol : ∀ i, subject ev = some i → t.lookup p.symbol = some i
  connection : subject ev = none → p.symbol = .connection
  resolved : ∀ i (r : SymbolResolver), subject ev = some i → r p.symbol = some i →
    fromPod p r = .ok (recoverProvider ev)
  waiting : ∀ i (r : SymbolResolver), subject ev = some i → r p.symbol = none →
    fromPod p r = .error (.unresolved p.symbol)
  unscoped : ∀ r : SymbolResolver, subject ev = none → fromPod p r = .ok (recoverProvider ev)

theorem Carries.mono {t t' : SymbolTable} {p : DataPayload} {ev : MarketEvent}
    (h : Carries t p ev) (ht : t.Extends t') : Carries t' p ev :=
  { h with symbol := fun i hi => ht.lookup (h.symbol i hi) }

/-- An interned symbol is never the reserved one. -/
theorem Carries.symbol_ne {t : SymbolTable} {p : DataPayload} {ev : MarketEvent}
    (h : Carries t p ev) {i : Instrument} (hi : subject ev = some i) :
    p.symbol ≠ .connection := by
  intro hp
  have hlookup := h.symbol i hi
  rw [hp, t.lookup_connection] at hlookup
  cases hlookup

@[simp] theorem resolve_of_some {r : SymbolResolver} {id : SymbolId} {i : Instrument}
    (h : r id = some i) : resolve r id = .ok i := by
  simp [resolve, h]

@[simp] theorem resolve_of_none {r : SymbolResolver} {id : SymbolId} (h : r id = none) :
    resolve r id = .error (.unresolved id) := by
  simp [resolve, h]

theorem fromPod_control {p : DataPayload} {r : SymbolResolver}
    (h : p.kind = PayloadKind.control.tag) : fromPod p r = controlFromPod p r := by
  simp [fromPod, h, PayloadKind.tag]

theorem of_interned {t t' : SymbolTable} {i : Instrument} {f : SymbolId → DataPayload}
    {p : DataPayload} (h : t.interned i f = .ok (some p, t')) :
    ∃ id, t.intern i = .ok (id, t') ∧ p = f id := by
  rw [SymbolTable.interned] at h
  cases hi : t.intern i with
  | error e => simp [hi, Except.map] at h
  | ok r =>
      rw [hi] at h
      cases h
      exact ⟨r.1, rfl, rfl⟩

/-- A payload that is read back through its symbol, and through the event's instrument to
the event. -/
theorem carries_of_interned {t t' : SymbolTable} {i : Instrument} {f : SymbolId → DataPayload}
    {p : DataPayload} {ev : MarketEvent} (g : Instrument → Except FromPodError MarketEvent)
    (h : t.interned i f = .ok (some p, t')) (hsym : ∀ id, (f id).symbol = id)
    (hev : subject ev = some i)
    (hread : ∀ id (r : SymbolResolver), fromPod (f id) r = (resolve r id).bind g)
    (hg : g i = .ok (recoverProvider ev)) : t.Extends t' ∧ Carries t' p ev := by
  obtain ⟨id, hi, rfl⟩ := of_interned h
  obtain ⟨hext, hlookup⟩ := SymbolTable.intern_spec hi
  have hsub : ∀ j, subject ev = some j → j = i := fun j hj =>
    Option.some.inj (hj.symm.trans hev)
  refine ⟨hext, ⟨?_, by simp [hev], ?_, ?_, by simp [hev]⟩⟩
  · intro j hj
    rw [hsym, hsub j hj]
    exact hlookup
  · intro j r hj hr
    rw [hsym, hsub j hj] at hr
    rw [hread, resolve_of_some hr]
    exact hg
  · intro j r hj hr
    rw [hsym] at hr
    rw [hread, resolve_of_none hr, hsym]
    rfl

theorem carries_of_controlToPod {c : Control} {t t' : SymbolTable} {p : DataPayload}
    (h : controlToPod c t = .ok (some p, t')) : t.Extends t' ∧ Carries t' p (.control c) := by
  obtain ⟨sourceTs, rxTs, seq, kind⟩ := c
  cases kind with
  | providerConnected => cases h
  | providerDisconnected => cases h
  | providerError => cases h
  | sessionClosing =>
      cases h
      exact ⟨.refl t, by simp [subject], fun _ => rfl, by simp [subject], by simp [subject],
        fun _ _ => rfl⟩
  | gap provider instrument span =>
      simp only [controlToPod] at h
      refine carries_of_interned (fun j => .ok (.control ⟨sourceTs, rxTs, seq,
        .gap j.provider j span⟩)) h (fun _ => rfl) rfl (fun id r => ?_) rfl
      rw [fromPod_control rfl]
      cases hr : r id <;> simp [controlFromPod, DataPayload.blank, ControlTag.tag, resolve, hr,
        bind, Except.bind]
  | subscriptionChanged provider instrument kind active =>
      simp only [controlToPod] at h
      refine carries_of_interned (fun j => .ok (.control ⟨sourceTs, rxTs, seq,
        .subscriptionChanged j.provider j kind active⟩)) h (fun _ => rfl) rfl
        (fun id r => ?_) rfl
      rw [fromPod_control rfl]
      cases hr : r id <;> cases active <;> simp [controlFromPod, DataPayload.blank,
        ControlTag.tag, resolve, hr, bind, Except.bind, okOr]

theorem interned_ne_suppressed {t t' : SymbolTable} {i : Instrument} {f : SymbolId → DataPayload}
    (h : t.interned i f = .ok (none, t')) : False := by
  rw [SymbolTable.interned] at h
  cases hi : t.intern i <;> simp [hi, Except.map] at h

/-- A suppressed event interns nothing. -/
theorem table_of_suppressed {ev : MarketEvent} {t t' : SymbolTable}
    (h : toPod ev t = .ok (none, t')) : t' = t := by
  cases ev with
  | control c =>
      obtain ⟨sourceTs, rxTs, seq, kind⟩ := c
      simp only [toPod, controlToPod] at h
      cases kind with
      | gap _ _ _ => exact (interned_ne_suppressed h).elim
      | subscriptionChanged _ _ _ _ => exact (interned_ne_suppressed h).elim
      | sessionClosing => cases h
      | _ => cases h; rfl
  | _ =>
      simp only [toPod] at h
      exact (interned_ne_suppressed h).elim

/-- What `toPod` makes of an event, `fromPod` reads back. -/
theorem carries_of_toPod {ev : MarketEvent} {t t' : SymbolTable} {p : DataPayload}
    (h : toPod ev t = .ok (some p, t')) : t.Extends t' ∧ Carries t' p ev := by
  cases ev with
  | control c => exact carries_of_controlToPod h
  | trade tr =>
      simp only [toPod] at h
      refine carries_of_interned (fun j => .ok (.trade { tr with instrument := j })) h
        (fun _ => rfl) rfl (fun id r => ?_) rfl
      cases hr : r id <;> simp [fromPod, DataPayload.blank, PayloadKind.tag, resolve, hr, bind,
        Except.bind]
  | quote q =>
      simp only [toPod] at h
      refine carries_of_interned (fun j => .ok (.quote { q with instrument := j })) h
        (fun _ => rfl) rfl (fun id r => ?_) rfl
      cases hr : r id <;> simp [fromPod, DataPayload.blank, PayloadKind.tag, resolve, hr, bind,
        Except.bind]
  | bar b =>
      simp only [toPod] at h
      refine carries_of_interned (fun j => .ok (.bar { b with instrument := j })) h
        (fun _ => rfl) rfl (fun id r => ?_) rfl
      cases hr : r id <;> simp [fromPod, DataPayload.blank, PayloadKind.tag, resolve, hr, bind,
        Except.bind, okOr]

end Transport

end Datamancer
