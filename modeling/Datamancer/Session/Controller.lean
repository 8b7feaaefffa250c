import Datamancer.Core.Traits

/-!
# Datamancer.Session.Controller

The per-session controller's own operations (`impl Controller`): stamping,
delivering, teeing, the controls it originates, and its commands.

A step that would exhaust the source `seq` counter panics; it is `none`. The
consumer's channel, the resume ring and the fan-out are not part of this model: an
event handed to `deliver` is appended to `delivered`. What each operation emits is
stated once as an `Emits` fact and composed from there.
-/

namespace Datamancer

/-! ### Configuration and commands -/

structure PersistenceOptions where
  readCache : Bool
  writeCache : Bool
  writeTapLog : Bool
  deriving DecidableEq, Repr

namespace PersistenceOptions

/-- No persistence: always hit the provider, store nothing. -/
def none : PersistenceOptions := ⟨false, false, false⟩

/-- Read-through cache: serve covered ranges, fetch and store only gaps. -/
def cached : PersistenceOptions := ⟨true, true, false⟩

/-- Serve from cache and fetch gaps for this run, but do not persist them. -/
def readOnly : PersistenceOptions := ⟨true, false, false⟩

/-- Ignore cached coverage, re-fetch the whole range, overwrite the cache. -/
def refresh : PersistenceOptions := ⟨false, true, false⟩

def usesCache (o : PersistenceOptions) : Bool := o.readCache || o.writeCache

end PersistenceOptions

/-- What data a session covers. -/
inductive Scope
  | historical (fromTs toTs : Timestamp)
  | live (backfillFrom : Option Timestamp)
  deriving DecidableEq, Repr

def Scope.isLive : Scope → Bool
  | .historical _ _ => false
  | .live _ => true

/-- A command to the controller, without the channel its answer goes to. -/
inductive SessionCommand
  | setPersistence (options : PersistenceOptions)
  | close
  | addSubscriber (id : Nat)
  deriving DecidableEq, Repr

/-- The answer sent back for a command. -/
inductive CommandAck
  | persistence (res : Except Error Unit)
  | closed
  | subscribed (id : Nat)

/-- The parts of a session that never change. -/
structure SessionInner where
  instrument : Instrument
  kind : EventKind
  scope : Scope
  adjustment : Adjustment
  deriving DecidableEq, Repr

/-- The controller of one session, over a cache of type `σ`. -/
structure Controller (σ : Type) where
  inner : SessionInner
  providerId : String
  persistence : PersistenceOptions
  /-- `historical_cache`, with the state it is in. -/
  cache : Option σ
  hasTapLog : Bool
  nextSeq : UInt64
  dataForwarded : Bool
  /-- `history_fetches` of the provider's accounting. -/
  historyFetches : Nat
  /-- Successive readings of the wall clock. -/
  clock : Nat → Timestamp
  clockReads : Nat
  /-- Events handed to `deliver`, in order. -/
  delivered : List MarketEvent
  /-- Events appended to the tap log, in order. -/
  teed : List MarketEvent
  acks : List CommandAck

namespace Controller

variable {σ : Type}

def cacheKey (c : Controller σ) (f t : Timestamp) : CacheKey :=
  ⟨c.inner.instrument, c.inner.kind, f, t, c.inner.adjustment⟩

def historyRequest (c : Controller σ) (f t : Timestamp) : HistoryRequest :=
  ⟨c.inner.instrument, c.inner.kind, f, t, c.inner.adjustment⟩

/-! ### Stamping and delivery -/

/-- Assign the next source `seq`. The counter stops short of `Seq::SYNTHETIC`;
reaching it panics. -/
def stamp (c : Controller σ) (ev : MarketEvent) : Option (MarketEvent × Controller σ) :=
  if c.nextSeq.toNat + 1 < 2 ^ 64 - 1 then
    some (ev.stampSeq ⟨c.nextSeq⟩, { c with nextSeq := c.nextSeq + 1 })
  else none

def deliver (c : Controller σ) (ev : MarketEvent) : Controller σ :=
  { c with delivered := c.delivered ++ [ev] }

/-- Stamp and deliver, without teeing. -/
def emit (c : Controller σ) (ev : MarketEvent) : Option (Controller σ) := do
  let (ev, c) ← c.stamp ev
  return c.deliver ev

/-- Append a data event of a live session to the tap log, when configured. -/
def tee (c : Controller σ) (ev : MarketEvent) : Controller σ :=
  if ev.isData && c.inner.scope.isLive && c.hasTapLog && c.persistence.writeTapLog then
    { c with teed := c.teed ++ [ev] }
  else c

/-- Stamp, tee and deliver. -/
def forward (c : Controller σ) (ev : MarketEvent) : Option (Controller σ) := do
  let (ev, c) ← c.stamp ev
  let c := if ev.isData then { c with dataForwarded := true } else c
  return (c.tee ev).deliver ev

/-! ### Controls the controller originates -/

def gapControl (c : Controller σ) (sourceTs f t : Timestamp) : MarketEvent :=
  .control ⟨sourceTs, sourceTs, ⟨0⟩, .gap c.providerId c.inner.instrument ⟨f, t⟩⟩

def emitGap (c : Controller σ) (sourceTs f t : Timestamp) : Option (Controller σ) :=
  c.forward (c.gapControl sourceTs f t)

def providerErrorControl (c : Controller σ) (sourceTs : Timestamp) (message : String) :
    MarketEvent :=
  .control ⟨sourceTs, sourceTs, ⟨0⟩, .providerError c.providerId message⟩

def emitProviderError (c : Controller σ) (sourceTs : Timestamp) (message : String) :
    Option (Controller σ) :=
  c.forward (c.providerErrorControl sourceTs message)

/-- `SessionClosing`, at the wall clock. -/
def closingControl (c : Controller σ) : MarketEvent :=
  .control ⟨c.clock c.clockReads, c.clock c.clockReads, ⟨0⟩, .sessionClosing⟩

def emitClosing (c : Controller σ) : Option (Controller σ) :=
  { c with clockReads := c.clockReads + 1 }.emit c.closingControl

/-- `shutdown`; flushing the tap log and the sink changes nothing modelled here. -/
def shutdown (c : Controller σ) : Option (Controller σ) := c.emitClosing

/-! ### Commands -/

def applyPersistence (c : Controller σ) (options : PersistenceOptions) :
    Except Error Unit × Controller σ :=
  if options.usesCache && c.cache.isNone then (.error .persistenceRequired, c)
  else if options.writeTapLog && !c.hasTapLog then (.error .persistenceRequired, c)
  else (.ok (), { c with persistence := options })

/-- Handle one command, or the end of the command channel (`none`). The boolean is
`false` when the controller must exit. -/
def handleCommand (c : Controller σ) : Option SessionCommand → Option (Bool × Controller σ)
  | some (.setPersistence options) =>
      let (res, c) := c.applyPersistence options
      some (true, { c with acks := c.acks ++ [.persistence res] })
  | some (.addSubscriber id) => some (true, { c with acks := c.acks ++ [.subscribed id] })
  | some .close => do
      let c ← c.shutdown
      return (false, { c with acks := c.acks ++ [.closed] })
  | none => some (false, c)

/-! ### What a step emits -/

/-- Consecutive stamps from `n` on. -/
def stampAll (n : UInt64) : List MarketEvent → List MarketEvent
  | [] => []
  | ev :: evs => ev.stampSeq ⟨n⟩ :: stampAll (n + 1) evs

/-- From `c` to `c'` exactly `evs` were stamped, in order, and handed to `deliver`. -/
structure Trail (c c' : Controller σ) (evs : List MarketEvent) : Prop where
  inner : c'.inner = c.inner
  providerId : c'.providerId = c.providerId
  hasTapLog : c'.hasTapLog = c.hasTapLog
  nextSeq : c'.nextSeq = c.nextSeq + UInt64.ofNat evs.length
  delivered : c'.delivered = c.delivered ++ stampAll c.nextSeq evs

/-- The same, and neither the cache nor the provider was asked for anything. -/
structure Emits (c c' : Controller σ) (evs : List MarketEvent) : Prop extends Trail c c' evs where
  cache : c'.cache = c.cache
  historyFetches : c'.historyFetches = c.historyFetches

theorem stampAll_append (n : UInt64) (evs evs' : List MarketEvent) :
    stampAll n (evs ++ evs') = stampAll n evs ++ stampAll (n + UInt64.ofNat evs.length) evs' := by
  induction evs generalizing n with
  | nil => simp [stampAll]
  | cons ev evs ih =>
      rw [List.cons_append, stampAll, ih, stampAll, List.cons_append, List.length_cons,
        UInt64.ofNat_add, UInt64.add_assoc, UInt64.add_comm (UInt64.ofNat evs.length)]
      rfl

/-- What is stamped does not depend on the stamp an event carried before. -/
theorem stampAll_map_stampSeq (s : Seq) (n : UInt64) (evs : List MarketEvent) :
    stampAll n (evs.map (MarketEvent.stampSeq s)) = stampAll n evs := by
  induction evs generalizing n with
  | nil => rfl
  | cons ev evs ih => simp [stampAll, ih]

theorem Trail.refl (c : Controller σ) : Trail c c [] := ⟨rfl, rfl, rfl, by simp, by simp [stampAll]⟩

theorem Trail.trans {c c' c'' : Controller σ} {evs evs' : List MarketEvent} (h : Trail c c' evs)
    (h' : Trail c' c'' evs') : Trail c c'' (evs ++ evs') where
  inner := h'.inner.trans h.inner
  providerId := h'.providerId.trans h.providerId
  hasTapLog := h'.hasTapLog.trans h.hasTapLog
  nextSeq := by
    rw [h'.nextSeq, h.nextSeq, List.length_append, UInt64.ofNat_add, UInt64.add_assoc]
  delivered := by
    rw [h'.delivered, h.delivered, h.nextSeq, stampAll_append, List.append_assoc]

theorem Emits.refl (c : Controller σ) : Emits c c [] := ⟨.refl c, rfl, rfl⟩

theorem Emits.trans {c c' c'' : Controller σ} {evs evs' : List MarketEvent} (h : Emits c c' evs)
    (h' : Emits c' c'' evs') : Emits c c'' (evs ++ evs') :=
  ⟨h.toTrail.trans h'.toTrail, h'.cache.trans h.cache, h'.historyFetches.trans h.historyFetches⟩

theorem stamp_eq_some {c : Controller σ} {ev : MarketEvent} {r : MarketEvent × Controller σ}
    (h : c.stamp ev = some r) :
    r = (ev.stampSeq ⟨c.nextSeq⟩, { c with nextSeq := c.nextSeq + 1 }) := by
  rw [stamp] at h
  split_ifs at h
  exact (Option.some.inj h).symm

theorem emits_emit {c c' : Controller σ} {ev : MarketEvent} (h : c.emit ev = some c') :
    Emits c c' [ev] := by
  obtain ⟨r, hr, hc⟩ := Option.bind_eq_some_iff.mp h
  obtain rfl := stamp_eq_some hr
  obtain rfl := Option.some.inj hc
  exact ⟨⟨rfl, rfl, rfl, rfl, rfl⟩, rfl, rfl⟩

theorem emits_forward {c c' : Controller σ} {ev : MarketEvent} (h : c.forward ev = some c') :
    Emits c c' [ev] := by
  obtain ⟨r, hr, hc⟩ := Option.bind_eq_some_iff.mp h
  obtain rfl := stamp_eq_some hr
  obtain rfl := Option.some.inj hc
  dsimp only [deliver, tee]
  split_ifs <;> exact ⟨⟨rfl, rfl, rfl, rfl, rfl⟩, rfl, rfl⟩

theorem emits_emitGap {c c' : Controller σ} {ts f t : Timestamp} (h : c.emitGap ts f t = some c') :
    Emits c c' [c.gapControl ts f t] := emits_forward h

theorem emits_emitProviderError {c c' : Controller σ} {ts : Timestamp} {message : String}
    (h : c.emitProviderError ts message = some c') :
    Emits c c' [c.providerErrorControl ts message] := emits_forward h

theorem emits_shutdown {c c' : Controller σ} (h : c.shutdown = some c') :
    Emits c c' [c.closingControl] := by
  have hemit := emits_emit h
  exact ⟨⟨hemit.inner, hemit.providerId, hemit.hasTapLog, hemit.nextSeq, hemit.delivered⟩,
    hemit.cache, hemit.historyFetches⟩

theorem emits_applyPersistence (c : Controller σ) (options : PersistenceOptions) :
    Emits c (c.applyPersistence options).2 [] := by
  rw [applyPersistence]
  split_ifs
  · exact .refl c
  · exact .refl c
  · exact ⟨⟨rfl, rfl, rfl, by simp, by simp [stampAll]⟩, rfl, rfl⟩

theorem emits_ack (c : Controller σ) (acks : List CommandAck) :
    Emits c { c with acks := acks } [] := ⟨⟨rfl, rfl, rfl, by simp, by simp [stampAll]⟩, rfl, rfl⟩

/-- A command the controller stays open after emits nothing; the others emit at most
the `SessionClosing` of a shutdown. -/
theorem emits_handleCommand {c c' : Controller σ} {cmd : Option SessionCommand} {go : Bool}
    (h : c.handleCommand cmd = some (go, c')) :
    ∃ evs, Emits c c' evs ∧ (∀ ev ∈ evs, ev = c.closingControl) ∧ (go = true → evs = []) := by
  cases cmd with
  | none =>
      obtain ⟨rfl, rfl⟩ := Prod.mk.inj (Option.some.inj h)
      exact ⟨[], .refl c, by simp, fun _ => rfl⟩
  | some cmd =>
      cases cmd with
      | setPersistence options =>
          obtain ⟨rfl, rfl⟩ := Prod.mk.inj (Option.some.inj h)
          exact ⟨[], (emits_applyPersistence c options).trans (emits_ack _ _), by simp,
            fun _ => rfl⟩
      | addSubscriber id =>
          obtain ⟨rfl, rfl⟩ := Prod.mk.inj (Option.some.inj h)
          exact ⟨[], emits_ack c _, by simp, fun _ => rfl⟩
      | close =>
          obtain ⟨c₁, hc₁, hrest⟩ := Option.bind_eq_some_iff.mp h
          obtain ⟨rfl, rfl⟩ := Prod.mk.inj (Option.some.inj hrest)
          exact ⟨[c.closingControl], (emits_shutdown hc₁).trans (emits_ack _ _), by simp, by simp⟩

end Controller

end Datamancer
