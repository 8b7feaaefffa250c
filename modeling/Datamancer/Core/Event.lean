import Mathlib.Algebra.Order.Ring.Int
import Mathlib.Order.Lattice

/-!
# Datamancer.Core.Event

The event model every other module speaks: instruments, event kinds, the
fixed-point payload types and the single `MarketEvent` stream entry with its
in-band `Control`s.

The fixed-width integers of the source stay fixed-width (`Int64`, `UInt64`), so
the casts of the storage layer and the saturating arithmetic of the session
layer are the source's own. `Timestamp` carries the linear order of its signed
value; everything the session layer proves about ranges goes through it.
-/

namespace Datamancer

/-! ### Identity -/

/-- Broad classification of what an instrument trades. -/
inductive AssetClass
  | equity
  | etf
  | crypto
  deriving DecidableEq, Repr

/-- Identifies one instrument as `(provider, asset_class, symbol)`: the same
symbol can appear under different providers or asset classes. -/
structure Instrument where
  provider : String
  assetClass : AssetClass
  symbol : String
  deriving DecidableEq, Repr

inductive BarInterval
  | oneSecond
  | oneMinute
  | fiveMinute
  | fifteenMinute
  | oneHour
  | oneDay
  deriving DecidableEq, Repr

/-- Selector used in subscriptions; each variant maps to one data variant of
`MarketEvent`. -/
inductive EventKind
  | trade
  | quote
  | bar (interval : BarInterval)
  deriving DecidableEq, Repr

/-- What one authoritative session is of. -/
abbrev Pair := Instrument × EventKind

/-- Which of a provider's two data surfaces a capability question is about. -/
inductive Surface
  | live
  | history
  deriving DecidableEq, Repr

/-- How corporate actions are folded into historical bar prices. -/
inductive Adjustment
  | raw
  | split
  | dividend
  | spinOff
  | all
  deriving DecidableEq, Repr

/-- Stable lowercase token used in cache row keys. -/
def Adjustment.asStr : Adjustment → String
  | .raw => "raw"
  | .split => "split"
  | .dividend => "dividend"
  | .spinOff => "spinoff"
  | .all => "all"

theorem Adjustment.asStr_injective : Function.Injective Adjustment.asStr := by
  intro a b h
  cases a <;> cases b <;> first | rfl | simp [asStr] at h

/-! ### Timestamps -/

/-- Nanoseconds since the Unix epoch. -/
structure Timestamp where
  nanos : Int64
  deriving DecidableEq, Repr

namespace Timestamp

/-- The signed value the order is read off. -/
def toInt (t : Timestamp) : Int := t.nanos.toInt

theorem toInt_injective : Function.Injective toInt := by
  intro a b h
  cases a; cases b
  simpa [toInt, Int64.toInt_inj] using h

instance : LinearOrder Timestamp := LinearOrder.lift' toInt toInt_injective

instance (n : Nat) : OfNat Timestamp n := ⟨⟨Int64.ofNat n⟩⟩

theorem le_def {a b : Timestamp} : a ≤ b ↔ a.toInt ≤ b.toInt := Iff.rfl

theorem lt_def {a b : Timestamp} : a < b ↔ a.toInt < b.toInt := by
  rw [lt_iff_not_ge, le_def]; omega

theorem toInt_lt (t : Timestamp) : t.toInt < 2 ^ 63 := t.nanos.toInt_lt

theorem le_toInt (t : Timestamp) : -2 ^ 63 ≤ t.toInt := t.nanos.le_toInt

/-- `Timestamp(self.0.saturating_add(1))`: the exclusive end of the instant. -/
def saturatingSucc (t : Timestamp) : Timestamp := ⟨Int64.ofIntClamp (t.toInt + 1)⟩

/-- Below the top of the range the successor is the next instant. -/
theorem toInt_saturatingSucc {t u : Timestamp} (h : t < u) :
    t.saturatingSucc.toInt = t.toInt + 1 := by
  have hlo := t.le_toInt
  have hu := u.toInt_lt
  rw [lt_def] at h
  exact Int64.toInt_ofIntClamp (by rw [Int64.toInt_minValue]; omega)
    (by rw [Int64.toInt_maxValue]; omega)

/-- At the top of the range the addition saturates. -/
theorem saturatingSucc_of_max {t : Timestamp} (h : t.toInt = 2 ^ 63 - 1) :
    t.saturatingSucc = t := by
  obtain ⟨n⟩ := t
  have hn : n = Int64.maxValue := by
    apply Int64.toInt.inj
    rw [Int64.toInt_maxValue]
    exact h
  subst hn
  rfl

theorem lt_saturatingSucc {t u : Timestamp} (h : t < u) : t < t.saturatingSucc := by
  rw [lt_def, toInt_saturatingSucc h]; omega

theorem le_saturatingSucc (t : Timestamp) : t ≤ t.saturatingSucc := by
  by_cases h : t.toInt = 2 ^ 63 - 1
  · exact (saturatingSucc_of_max h).ge
  · have hlt : t < ⟨Int64.maxValue⟩ := by
      have ht := t.toInt_lt
      rw [lt_def]
      change t.toInt < Int64.maxValue.toInt
      rw [Int64.toInt_maxValue]
      omega
    exact (lt_saturatingSucc hlt).le

theorem saturatingSucc_le {t u : Timestamp} (h : t < u) : t.saturatingSucc ≤ u := by
  rw [le_def, toInt_saturatingSucc h]; rw [lt_def] at h; omega

/-- Nothing lies strictly between an instant and its successor. -/
theorem le_of_lt_saturatingSucc {t x : Timestamp} (h : x < t.saturatingSucc) : x ≤ t := by
  by_contra hx
  exact absurd (saturatingSucc_le (not_le.mp hx)) (not_le.mpr h)

end Timestamp

/-! ### Payload -/

/-- A per-symbol ordering identifier, stamped once at the source. -/
structure Seq where
  val : UInt64
  deriving DecidableEq, Repr

/-- Sentinel `seq` of synthetic control events; the source counter never stamps it. -/
def Seq.synthetic : Seq := ⟨UInt64.ofNat (2 ^ 64 - 1)⟩

namespace Seq

/-- The number the order is read off. -/
def toNat (s : Seq) : Nat := s.val.toNat

theorem toNat_injective : Function.Injective toNat := by
  intro a b h
  cases a; cases b
  simpa [toNat, UInt64.toNat_inj] using h

instance : LinearOrder Seq := LinearOrder.lift' toNat toNat_injective

theorem le_def {a b : Seq} : a ≤ b ↔ a.toNat ≤ b.toNat := Iff.rfl

theorem lt_def {a b : Seq} : a < b ↔ a.toNat < b.toNat := by
  rw [lt_iff_not_ge, le_def]; omega

end Seq

/-- A price in fixed-point units of `1e-9` of the quoted currency. -/
structure Price where
  raw : Int64
  deriving DecidableEq, Repr

/-- A size in fixed-point units of `1e-9` of the instrument's base unit. -/
structure Quantity where
  raw : UInt64
  deriving DecidableEq, Repr

structure Trade where
  instrument : Instrument
  sourceTs : Timestamp
  rxTs : Timestamp
  seq : Seq
  price : Price
  size : Quantity
  deriving DecidableEq, Repr

structure Quote where
  instrument : Instrument
  sourceTs : Timestamp
  rxTs : Timestamp
  seq : Seq
  bid : Price
  bidSize : Quantity
  ask : Price
  askSize : Quantity
  deriving DecidableEq, Repr

structure Bar where
  instrument : Instrument
  interval : BarInterval
  sourceTs : Timestamp
  rxTs : Timestamp
  seq : Seq
  «open» : Price
  high : Price
  low : Price
  close : Price
  volume : Quantity
  deriving DecidableEq, Repr

/-! ### In-band controls -/

/-- Why a provider connection is down. -/
inductive DisconnectCause
  | error
  | unauthenticated
  | companionUnreachable
  | disabled
  deriving DecidableEq, Repr

/-- A half-open span `[from, to)` of source time. -/
structure GapSpan where
  fromSourceTs : Timestamp
  toSourceTs : Timestamp
  deriving DecidableEq, Repr

inductive ControlKind
  | providerConnected (provider : String)
  | providerDisconnected (provider reason : String) (cause : DisconnectCause)
  | subscriptionChanged (provider : String) (instrument : Instrument) (kind : EventKind)
      (active : Bool)
  | gap (provider : String) (instrument : Instrument) (span : GapSpan)
  | providerError (provider message : String)
  | sessionClosing
  deriving DecidableEq, Repr

structure Control where
  sourceTs : Timestamp
  rxTs : Timestamp
  seq : Seq
  kind : ControlKind
  deriving DecidableEq, Repr

/-- The unified output stream entry. -/
inductive MarketEvent
  | trade (t : Trade)
  | quote (q : Quote)
  | bar (b : Bar)
  | control (c : Control)
  deriving DecidableEq, Repr

namespace MarketEvent

/-- The venue time of any event (`source_ts`). -/
def sourceTs : MarketEvent → Timestamp
  | trade t => t.sourceTs
  | quote q => q.sourceTs
  | bar b => b.sourceTs
  | control c => c.sourceTs

/-- `source_ts` of data events only; `none` for controls. -/
def dataSourceTs : MarketEvent → Option Timestamp
  | trade t => some t.sourceTs
  | quote q => some q.sourceTs
  | bar b => some b.sourceTs
  | control _ => none

/-- The `matches!(ev, Trade | Quote | Bar)` test of the tee and of consumers. -/
def isData (ev : MarketEvent) : Bool := ev.dataSourceTs.isSome

/-- The pair a data event belongs to; `none` for controls (`event_route_key`). -/
def routeKey : MarketEvent → Option (Instrument × EventKind)
  | trade t => some (t.instrument, .trade)
  | quote q => some (q.instrument, .quote)
  | bar b => some (b.instrument, .bar b.interval)
  | control _ => none

/-- The ordering field (`seq`); every event has one today. -/
def seq : MarketEvent → Seq
  | trade t => t.seq
  | quote q => q.seq
  | bar b => b.seq
  | control c => c.seq

/-- The instrument of a data event (`data_instrument`). -/
def dataInstrument : MarketEvent → Option Instrument
  | trade t => some t.instrument
  | quote q => some q.instrument
  | bar b => some b.instrument
  | control _ => none

/-- Overwrite an event's `seq`. -/
def stampSeq (seq : Seq) : MarketEvent → MarketEvent
  | trade t => trade { t with seq }
  | quote q => quote { q with seq }
  | bar b => bar { b with seq }
  | control c => control { c with seq }

@[simp] theorem sourceTs_stampSeq (s : Seq) (ev : MarketEvent) :
    (ev.stampSeq s).sourceTs = ev.sourceTs := by cases ev <;> rfl

@[simp] theorem dataSourceTs_stampSeq (s : Seq) (ev : MarketEvent) :
    (ev.stampSeq s).dataSourceTs = ev.dataSourceTs := by cases ev <;> rfl

@[simp] theorem isData_stampSeq (s : Seq) (ev : MarketEvent) :
    (ev.stampSeq s).isData = ev.isData := by simp [isData]

@[simp] theorem stampSeq_stampSeq (s s' : Seq) (ev : MarketEvent) :
    (ev.stampSeq s').stampSeq s = ev.stampSeq s := by cases ev <;> rfl

@[simp] theorem seq_stampSeq (s : Seq) (ev : MarketEvent) : (ev.stampSeq s).seq = s := by
  cases ev <;> rfl

theorem dataSourceTs_of_routed {ev : MarketEvent} {route : Instrument × EventKind}
    (h : ev.routeKey = some route) : ev.dataSourceTs = some ev.sourceTs := by
  cases ev with
  | control c => simp [routeKey] at h
  | _ => rfl

theorem isData_of_routed {ev : MarketEvent} {route : Instrument × EventKind}
    (h : ev.routeKey = some route) : ev.isData = true := by
  simp [isData, dataSourceTs_of_routed h]

end MarketEvent

end Datamancer
