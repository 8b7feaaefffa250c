import Datamancer.Lib.ActionSystem
import Datamancer.Transport.Payload

/-!
# Datamancer.Transport.Sink

The per-client data-plane sink (`sink.rs`): one service carries the client's events as
payloads, a second one the announcements of the symbols they use. A new symbol is
announced before the first sample that uses it, and the whole table is announced again
every `reannounceInterval` samples and on `flush`.

The state holds the sink together with what its two publishers have sent. Which calls of
the transport fail is part of a step. A panic of the interner has no step.
-/

namespace Datamancer

namespace Transport

/-- Republish the full announcement table every this many data sends. -/
def reannounceInterval : UInt64 := 256

/-- A sample on the data service: the payload, its place on the service and the event it
was sent for. Only the payload travels; the other two are kept to speak about it. -/
structure Sample where
  payload : DataPayload
  offset : Nat
  origin : MarketEvent
  deriving DecidableEq

/-- The sink, and what it has sent on its two services, oldest first. -/
structure Iceoryx2DataSink where
  table : SymbolTable
  announced : List SymbolId
  sends : UInt64
  data : List Sample
  announcements : List SymbolAnnouncement

/-- Which calls of the transport fail: sending the new symbol's announcement, sending the
sample, and sending the announcement at some place of a full republish. -/
structure Faults where
  announcement : Bool
  sample : Bool
  republish : Option Nat
  deriving DecidableEq, Repr

inductive PublishOutcome
  | delivered
  | rejected (ev : MarketEvent)
  deriving DecidableEq, Repr

namespace Iceoryx2DataSink

def new : Iceoryx2DataSink := ⟨.new, [], 0, [], []⟩

/-- `republish_all_announcements`: up to the announcement that fails to send, if any. -/
def republishAll (accepts : ByteArray → Bool) (fault : Option Nat) (s : Iceoryx2DataSink) :
    Bool × Iceoryx2DataSink :=
  let all := s.table.announcements accepts
  let sent := (fault.map all.take).getD all
  (sent.length = all.length, { s with announcements := s.announcements ++ sent })

/-- The announcement an event has to wait for, if its symbol was not announced yet. -/
def pendingAnnouncement (accepts : ByteArray → Bool) (s : Iceoryx2DataSink) (pod : DataPayload) :
    Option SymbolAnnouncement :=
  if pod.symbol ≠ .connection ∧ pod.symbol ∉ s.announced then
    s.table.announcement accepts pod.symbol
  else none

/-- Send the announcement and mark its symbol, in that order. -/
def announce (s : Iceoryx2DataSink) (pod : DataPayload) : Option SymbolAnnouncement →
    Iceoryx2DataSink
  | some a =>
      { s with
        announcements := s.announcements ++ [a]
        announced := pod.symbol :: s.announced }
  | none => s

/-- Send the sample, and the whole table again when its turn has come. -/
def send (accepts : ByteArray → Bool) (faults : Faults) (s : Iceoryx2DataSink) (ev : MarketEvent)
    (pod : DataPayload) : Bool × Iceoryx2DataSink :=
  if faults.sample then (false, s)
  else
    let s : Iceoryx2DataSink :=
      { s with
        data := s.data ++ [⟨pod, s.data.length, ev⟩]
        sends := s.sends + 1 }
    if s.sends % reannounceInterval = 0 then s.republishAll accepts faults.republish
    else (true, s)

/-- `deliver`: whether the transport took the event (or suppressed it), and the sink after
it. `none` where the interner panics. -/
def deliver (accepts : ByteArray → Bool) (faults : Faults) (s : Iceoryx2DataSink)
    (ev : MarketEvent) : Option (Bool × Iceoryx2DataSink) :=
  match toPod ev s.table with
  | .error .exhausted => none
  | .error (.tooLong _) => some (false, s)
  | .ok (none, table) => some (true, { s with table })
  | .ok (some pod, table) =>
      let s : Iceoryx2DataSink := { s with table }
      let pending := s.pendingAnnouncement accepts pod
      if pending.isSome ∧ faults.announcement then some (false, s)
      else some ((s.announce pod pending).send accepts faults ev pod)

/-- `publish`. -/
def publish (accepts : ByteArray → Bool) (faults : Faults) (s : Iceoryx2DataSink)
    (ev : MarketEvent) : Option (PublishOutcome × Iceoryx2DataSink) :=
  (s.deliver accepts faults ev).map fun r => (if r.1 then .delivered else .rejected ev, r.2)

/-- `flush`: whether it succeeded. -/
def flush (accepts : ByteArray → Bool) (fault : Option Nat) (s : Iceoryx2DataSink) :
    Bool × Iceoryx2DataSink := s.republishAll accepts fault

/-! ### Runs -/

/-- What is asked of a sink. -/
inductive Op
  | publish (ev : MarketEvent) (faults : Faults)
  | flush (fault : Option Nat)
  deriving DecidableEq, Repr

def step (accepts : ByteArray → Bool) (s : Iceoryx2DataSink) : Op → Option Iceoryx2DataSink
  | .publish ev faults => (s.publish accepts faults ev).map Prod.snd
  | .flush fault => some (s.flush accepts fault).2

/-- A sink some sequence of calls has led to, from the moment it was created. -/
def Reachable (accepts : ByteArray → Bool) (s : Iceoryx2DataSink) : Prop :=
  ∃ ops, ActionSystem.run (step accepts) new ops = some s

/-- A publish delivers. -/
theorem deliver_of_publish {accepts : ByteArray → Bool} {s s' : Iceoryx2DataSink}
    {ev : MarketEvent} {faults : Faults} (h : step accepts s (.publish ev faults) = some s') :
    ∃ taken, s.deliver accepts faults ev = some (taken, s') := by
  obtain ⟨⟨_, s₁⟩, hpub, rfl⟩ := Option.map_eq_some_iff.mp h
  obtain ⟨⟨taken, s₂⟩, hdel, heq⟩ := Option.map_eq_some_iff.mp hpub
  cases heq
  exact ⟨taken, hdel⟩

/-! ### What was sent is what was published -/

/-- Every sample carries its event, at its place; every announcement that can be decoded
names the instrument of its id. -/
structure Sound (s : Iceoryx2DataSink) : Prop where
  carries : ∀ x ∈ s.data, Carries s.table x.payload x.origin
  offsets : s.data.map Sample.offset = List.range s.data.length
  announced : ∀ a ∈ s.announcements, ∀ i, a.instrument = .ok i → s.table.lookup a.id = some i

theorem sound_new : Sound new := ⟨by simp [new], rfl, by simp [new]⟩

/-- A grown table keeps what was sent under it readable. -/
theorem Sound.grow {s : Iceoryx2DataSink} (h : Sound s) {table : SymbolTable}
    (ht : s.table.Extends table) : Sound { s with table } where
  carries x hx := (h.carries x hx).mono ht
  offsets := h.offsets
  announced a ha i hi := ht.lookup (h.announced a ha i hi)

theorem Sound.announcements {s : Iceoryx2DataSink} (h : Sound s) (accepts : ByteArray → Bool)
    {as : List SymbolAnnouncement}
    (has : ∀ a ∈ as, ∃ id, s.table.announcement accepts id = some a) (ids : List SymbolId) :
    Sound { s with announcements := s.announcements ++ as, announced := ids } where
  carries := h.carries
  offsets := h.offsets
  announced a ha i hi := by
    rcases List.mem_append.mp ha with ha | ha
    · exact h.announced a ha i hi
    · obtain ⟨id, hid⟩ := has a ha
      obtain ⟨rfl, hnames⟩ := SymbolTable.instrument_of_announcement hid
      exact hnames i hi

theorem mem_announcements {accepts : ByteArray → Bool} {t : SymbolTable} {a : SymbolAnnouncement}
    (h : a ∈ t.announcements accepts) : ∃ id, t.announcement accepts id = some a := by
  obtain ⟨n, -, hn⟩ := List.mem_filterMap.mp h
  exact ⟨_, hn⟩

theorem Sound.republishAll {s : Iceoryx2DataSink} (h : Sound s) (accepts : ByteArray → Bool)
    (fault : Option Nat) : Sound (s.republishAll accepts fault).2 := by
  refine h.announcements accepts (fun a ha => mem_announcements ?_) s.announced
  cases fault with
  | none => exact ha
  | some n => exact List.mem_of_mem_take ha

theorem Sound.announce {s : Iceoryx2DataSink} (h : Sound s) (accepts : ByteArray → Bool)
    (pod : DataPayload) : Sound (s.announce pod (s.pendingAnnouncement accepts pod)) := by
  cases hp : s.pendingAnnouncement accepts pod with
  | none => exact h
  | some a =>
      refine h.announcements accepts (fun b hb => ?_) _
      obtain rfl := List.mem_singleton.mp hb
      rw [pendingAnnouncement] at hp
      split_ifs at hp
      exact ⟨_, hp⟩

theorem Sound.push {s : Iceoryx2DataSink} (h : Sound s) {pod : DataPayload} {ev : MarketEvent}
    (hc : Carries s.table pod ev) :
    Sound { s with data := s.data ++ [⟨pod, s.data.length, ev⟩], sends := s.sends + 1 } where
  carries x hx := by
    rcases List.mem_append.mp hx with hx | hx
    · exact h.carries x hx
    · obtain rfl := List.mem_singleton.mp hx
      exact hc
  offsets := by simp [h.offsets, List.range_succ]
  announced := h.announced

theorem Sound.send {s : Iceoryx2DataSink} (h : Sound s) {accepts : ByteArray → Bool}
    {faults : Faults} {ev : MarketEvent} {pod : DataPayload} (hc : Carries s.table pod ev) :
    Sound (s.send accepts faults ev pod).2 := by
  simp only [Iceoryx2DataSink.send]
  split_ifs
  · exact h
  · exact (h.push hc).republishAll accepts _
  · exact h.push hc

@[simp] theorem table_announce (s : Iceoryx2DataSink) (pod : DataPayload)
    (a : Option SymbolAnnouncement) : (s.announce pod a).table = s.table := by
  cases a <;> rfl

theorem Sound.deliver {s s' : Iceoryx2DataSink} (h : Sound s) {accepts : ByteArray → Bool}
    {faults : Faults} {ev : MarketEvent} {taken : Bool}
    (hs : s.deliver accepts faults ev = some (taken, s')) : Sound s' := by
  simp only [Iceoryx2DataSink.deliver] at hs
  split at hs
  · cases hs
  · cases hs
    exact h
  · rename_i table hpod
    cases hs
    rw [table_of_suppressed hpod]
    exact h
  · rename_i pod table hpod
    obtain ⟨hext, hc⟩ := carries_of_toPod hpod
    have hgrown := h.grow hext
    split_ifs at hs
    · cases hs
      exact hgrown
    · obtain ⟨rfl, rfl⟩ := Prod.mk.inj (Option.some.inj hs)
      refine (hgrown.announce accepts pod).send ?_
      rw [table_announce]
      exact hc

theorem Sound.step {s s' : Iceoryx2DataSink} (h : Sound s) {accepts : ByteArray → Bool} {op : Op}
    (hs : step accepts s op = some s') : Sound s' := by
  cases op with
  | publish ev faults =>
      obtain ⟨taken, hdel⟩ := deliver_of_publish hs
      exact h.deliver hdel
  | flush fault =>
      cases hs
      exact h.republishAll accepts fault

theorem Reachable.sound {accepts : ByteArray → Bool} {s : Iceoryx2DataSink}
    (h : Reachable accepts s) : Sound s := by
  obtain ⟨ops, hrun⟩ := h
  exact ActionSystem.invariant (P := Sound) (fun hP hstep => hP.step hstep) sound_new hrun

/-! ### A symbol is announced before it is used -/

/-- Every symbol marked announced was, and so was every symbol of a sample whose tuple the
announcement string takes. -/
structure Announced (accepts : ByteArray → Bool) (s : Iceoryx2DataSink) : Prop where
  marked : ∀ id ∈ s.announced, ∃ a ∈ s.announcements, a.id = id
  sent : ∀ x ∈ s.data, ∀ i, subject x.origin = some i → accepts (encodeInstrument i) = true →
    ∃ a ∈ s.announcements, a.id = x.payload.symbol

theorem announced_new (accepts : ByteArray → Bool) : Announced accepts new :=
  ⟨by simp [new], by simp [new]⟩

theorem Announced.republishAll {accepts : ByteArray → Bool} {s : Iceoryx2DataSink}
    (h : Announced accepts s) (fault : Option Nat) :
    Announced accepts (s.republishAll accepts fault).2 where
  marked id hid := by
    obtain ⟨a, ha, haid⟩ := h.marked id hid
    exact ⟨a, List.mem_append_left _ ha, haid⟩
  sent x hx i hi hacc := by
    obtain ⟨a, ha, haid⟩ := h.sent x hx i hi hacc
    exact ⟨a, List.mem_append_left _ ha, haid⟩

theorem Announced.announce {accepts : ByteArray → Bool} {s : Iceoryx2DataSink}
    (h : Announced accepts s) {pod : DataPayload} {a : SymbolAnnouncement}
    (ha : a.id = pod.symbol) : Announced accepts (s.announce pod (some a)) where
  marked id hid := by
    rcases List.mem_cons.mp hid with rfl | hid
    · exact ⟨a, List.mem_append_right _ List.mem_cons_self, ha⟩
    · obtain ⟨b, hb, hbid⟩ := h.marked id hid
      exact ⟨b, List.mem_append_left _ hb, hbid⟩
  sent x hx i hi hacc := by
    obtain ⟨b, hb, hbid⟩ := h.sent x hx i hi hacc
    exact ⟨b, List.mem_append_left _ hb, hbid⟩

theorem Announced.send {accepts : ByteArray → Bool} {s : Iceoryx2DataSink}
    (h : Announced accepts s) {faults : Faults} {ev : MarketEvent} {pod : DataPayload}
    (hpod : ∀ i, subject ev = some i → accepts (encodeInstrument i) = true →
      ∃ a ∈ s.announcements, a.id = pod.symbol) :
    Announced accepts (s.send accepts faults ev pod).2 := by
  have hpush : Announced accepts
      { s with data := s.data ++ [⟨pod, s.data.length, ev⟩], sends := s.sends + 1 } := by
    refine ⟨h.marked, fun x hx i hi hacc => ?_⟩
    rcases List.mem_append.mp hx with hx | hx
    · exact h.sent x hx i hi hacc
    · obtain rfl := List.mem_singleton.mp hx
      exact hpod i hi hacc
  simp only [Iceoryx2DataSink.send]
  split_ifs
  · exact h
  · exact hpush.republishAll _
  · exact hpush

/-- An event that waits for no announcement has its symbol announced already, or a tuple
that cannot be. -/
theorem announced_of_pending_none {accepts : ByteArray → Bool} {s : Iceoryx2DataSink}
    (h : Announced accepts s) {pod : DataPayload} {ev : MarketEvent}
    (hc : Carries s.table pod ev) (hp : s.pendingAnnouncement accepts pod = none) :
    ∀ i, subject ev = some i → accepts (encodeInstrument i) = true →
      ∃ a ∈ s.announcements, a.id = pod.symbol := by
  intro i hi hacc
  by_cases hmem : pod.symbol ∈ s.announced
  · exact h.marked _ hmem
  · obtain ⟨a, ha⟩ := SymbolTable.exists_announcement (hc.symbol i hi) hacc
    rw [pendingAnnouncement, if_pos ⟨hc.symbol_ne hi, hmem⟩, ha] at hp
    cases hp

theorem Announced.deliver {accepts : ByteArray → Bool} {s s' : Iceoryx2DataSink}
    (h : Announced accepts s) {faults : Faults} {ev : MarketEvent} {taken : Bool}
    (hs : s.deliver accepts faults ev = some (taken, s')) : Announced accepts s' := by
  simp only [Iceoryx2DataSink.deliver] at hs
  split at hs
  · cases hs
  · cases hs
    exact h
  · cases hs
    exact ⟨h.marked, h.sent⟩
  · rename_i pod table hpod
    obtain ⟨-, hc⟩ := carries_of_toPod hpod
    have hgrown : Announced accepts { s with table } := ⟨h.marked, h.sent⟩
    split_ifs at hs
    · cases hs
      exact hgrown
    · obtain ⟨rfl, rfl⟩ := Prod.mk.inj (Option.some.inj hs)
      cases hp : pendingAnnouncement accepts { s with table } pod with
      | none => exact hgrown.send (announced_of_pending_none hgrown hc hp)
      | some a =>
          have ha : a.id = pod.symbol := by
            rw [pendingAnnouncement] at hp
            split_ifs at hp
            exact (SymbolTable.instrument_of_announcement hp).1
          refine (hgrown.announce ha).send fun _ _ _ => ?_
          exact ⟨a, List.mem_append_right _ List.mem_cons_self, ha⟩

theorem Announced.step {accepts : ByteArray → Bool} {s s' : Iceoryx2DataSink}
    (h : Announced accepts s) {op : Op} (hs : step accepts s op = some s') :
    Announced accepts s' := by
  cases op with
  | publish ev faults =>
      obtain ⟨taken, hdel⟩ := deliver_of_publish hs
      exact h.deliver hdel
  | flush fault =>
      cases hs
      exact h.republishAll fault

theorem Reachable.announced {accepts : ByteArray → Bool} {s : Iceoryx2DataSink}
    (h : Reachable accepts s) : Announced accepts s := by
  obtain ⟨ops, hrun⟩ := h
  exact ActionSystem.invariant (P := Announced accepts) (fun hP hstep => hP.step hstep)
    (announced_new accepts) hrun

end Iceoryx2DataSink

end Transport

end Datamancer
