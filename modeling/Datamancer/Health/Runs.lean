import Datamancer.Health.View
import Mathlib.Algebra.BigOperators.Group.Finset.Piecewise

/-!
# Datamancer.Health.Runs

The diagnostics plane over whole runs: live sessions side by side, each with its controller, the
providers whose accounting they share, and the snapshot assembled from both whenever one is asked
for (`assemble_snapshot`). The maps of providers and of sessions give their entries in any order.
A snapshot is taken at one instant here; the source reads its fields one after another.

What a session's controller does is one action at a time, in any interleaving with the others: a
control is folded at receipt, first into the phase and then into the provider's accounting; events
are stamped and delivered, with or without being counted; the session is released when its last
referrer goes, while its controller runs on until it has noticed. A session reads its own actions
and nothing else (`own_history`), which is what makes the health of a stream a verdict on that
stream (`stream_verdicts`).
-/

namespace Datamancer

namespace Health

open ActionSystem Connection

/-! ### A session and its controller -/

/-- A call made to a provider, or a failure of one. -/
inductive Call
  | historyFetch
  | historyFetchCoalesced
  | liveStart
  | subscribe
  | unsubscribe
  | error (message : String)
  | openFailure (e : Error)
  deriving DecidableEq, Repr

def Call.tick : Call → Tick
  | historyFetch => .historyFetch
  | historyFetchCoalesced => .historyFetchCoalesced
  | liveStart => .liveStart
  | subscribe => .subscribe
  | unsubscribe => .unsubscribe
  | error message => .error message
  | openFailure e => .openFailure e

inductive Act
  /-- A control arrives: its phase is recorded. -/
  | receive (c : Control)
  /-- The control received last is folded into the provider's accounting. -/
  | account
  /-- `forward`: stamped, counted, delivered. -/
  | forward (ev : MarketEvent)
  /-- `forward_with(seed, Arrival::Seed)`. -/
  | seed (ev : MarketEvent)
  /-- `emit`: stamped and delivered. -/
  | emit (ev : MarketEvent)
  | backfill (active : Bool)
  | subscribers (n : Nat)
  | call (c : Call)
  /-- The last strong reference to the session is dropped. -/
  | release
  deriving DecidableEq, Repr

/-- A live session, its controller included. -/
structure Stream where
  provider : String
  pair : Pair
  stats : LiveStats
  nextSeq : UInt64
  /-- Whether the registry's `Weak` still upgrades. -/
  registered : Bool
  /-- A control whose phase is recorded and that is not accounted for yet. -/
  hand : Option (ControlKind × ConnectionChange)

namespace Stream

def opened (provider : String) (pair : Pair) : Stream := ⟨provider, pair, .new, 0, true, none⟩

/-- Stamp the event, unless the counter is exhausted, and hand it on as a touch. -/
def stamp (s : Stream) (ev : MarketEvent) (touch : MarketEvent → Touch) : Option Stream :=
  if s.nextSeq.toNat + 1 < 2 ^ 64 - 1 then
    some { s with
      nextSeq := s.nextSeq + 1
      stats := s.stats.touch (touch (ev.stampSeq ⟨s.nextSeq⟩)) }
  else none

/-- One act, with what it is to the provider's accounting. -/
def step (s : Stream) : Act → Option (Stream × Option Tick)
  | .receive c =>
      match s.hand with
      | some _ => none
      | none =>
          let r := s.stats.recordConnection c
          some ({ s with stats := r.1, hand := some (c.kind, r.2) }, none)
  | .account =>
      s.hand.map fun (kind, change) => ({ s with hand := none }, some (.providerControl kind change))
  | .forward ev => (s.stamp ev .event).map fun s => (s, some (.forwarded ev true))
  | .seed ev => (s.stamp ev .seed).map fun s => (s, some (.forwarded ev false))
  | .emit ev => (s.stamp ev .event).map fun s => (s, none)
  | .backfill active => some ({ s with stats := s.stats.setBackfilling active }, none)
  | .subscribers n => some ({ s with stats := s.stats.setSubscribers n }, none)
  | .call c => some (s, some c.tick)
  | .release => if s.registered then some ({ s with registered := false }, none) else none

/-- One act, to the session alone. -/
def own (s : Stream) (a : Act) : Option Stream := (s.step a).map Prod.fst

end Stream

/-- The event an act stamps. -/
def Act.stamped : Act → Option MarketEvent
  | .forward ev | .emit ev | .seed ev => some ev
  | _ => none

/-- How an act touches what its session keeps, when `n` is the next `seq`. -/
def Act.touch (n : Nat) : Act → Option Touch
  | .receive c => some (.received c)
  | .forward ev | .emit ev => some (.event (ev.stampSeq ⟨UInt64.ofNat n⟩))
  | .seed ev => some (.seed (ev.stampSeq ⟨UInt64.ofNat n⟩))
  | .backfill active => some (.backfill active)
  | .subscribers k => some (.subscribers k)
  | .account | .call _ | .release => none

/-- How acts touch it, from the next `seq` on. -/
def touches : Nat → List Act → List Touch
  | _, [] => []
  | n, a :: as => (a.touch n).toList ++ touches (n + a.stamped.toList.length) as

/-! ### Sessions side by side -/

/-- A registered provider. -/
structure Registered where
  id : String
  enabled : Bool
  /-- `bytes` and `rate_limit_hits` of its metrics hook. -/
  metrics : Option (Nat × Nat)
  accounting : Accounting
  deriving DecidableEq, Repr

structure World where
  providers : List Registered
  /-- Every session opened so far, in the order of opening. -/
  streams : List Stream

/-- Providers as registered, before any session. -/
def World.new (ids : List String) : World := ⟨ids.map fun id => ⟨id, true, none, .new⟩, []⟩

inductive Action
  /-- A session of the pair takes the registry's slot. -/
  | opened (provider : String) (pair : Pair)
  | act (i : Nat) (a : Act)
  /-- What a historical session does at its provider. -/
  | historical (provider : String) (c : Call)
  | historicalForward (provider : String) (ev : MarketEvent)
  | setEnabled (provider : String) (enabled : Bool)
  | metrics (provider : String) (bytes rateLimitHits : Nat)
  deriving DecidableEq, Repr

namespace World

/-- Rewrite a provider's entry. -/
def update (w : World) (provider : String) (f : Registered → Registered) : World :=
  { w with providers := w.providers.map fun r => if r.id = provider then f r else r }

def tick (w : World) (provider : String) (t : Option Tick) : World :=
  w.update provider fun r => { r with accounting := r.accounting.tickAll t.toList }

def hasProvider (w : World) (provider : String) : Bool := w.providers.any fun r => r.id = provider

/-- A session of the pair is in the registry. -/
def occupied (w : World) (pair : Pair) : Bool :=
  w.streams.any fun s => s.registered && s.pair = pair

def step (w : World) : Action → Option World
  | .opened provider pair =>
      if w.hasProvider provider && !w.occupied pair then
        some { w with streams := w.streams ++ [.opened provider pair] }
      else none
  | .act i a =>
      match w.streams[i]? with
      | none => none
      | some s =>
          (s.step a).map fun (s', t) =>
            ({ w with streams := w.streams.set i s' } : World).tick s.provider t
  | .historical provider c => some (w.tick provider (some c.tick))
  | .historicalForward provider ev => some (w.tick provider (some (.forwarded ev false)))
  | .setEnabled provider enabled => some (w.update provider fun r => { r with enabled })
  | .metrics provider bytes hits =>
      some (w.update provider fun r => { r with metrics := some (bytes, hits) })

/-- The sessions the registry still upgrades. -/
def active (w : World) : List Stream := w.streams.filter Stream.registered

/-- A provider's entry, its connection read off its own active sessions, whose order plays no part
in it. -/
def providerSnapshot (w : World) (r : Registered) : ProviderSnapshot :=
  let own := w.active.filter fun s => s.provider = r.id
  { provider := r.id
    connectionState :=
      r.accounting.connection.connectionState (own.map fun s => s.stats.connection)
    historyFetches := r.accounting.historyFetches
    historyFetchCoalesced := r.accounting.historyFetchCoalesced
    liveStarts := r.accounting.liveStarts
    subscribes := r.accounting.subscribes
    unsubscribes := r.accounting.unsubscribes
    reconnects := r.accounting.connection.reconnects
    rateLimitHits := r.metrics.map Prod.snd
    messages := r.accounting.messages
    bytes := r.metrics.map Prod.fst
    gapsEmitted := r.accounting.gapsEmitted
    lastError := r.accounting.connection.lastError
    enabled := r.enabled
    activeSubscriptions := min own.length (2 ^ 32 - 1) }

/-- The orders in which the maps give the providers and the sessions. -/
structure Sample (w : World) where
  providers : List Registered
  sessions : List Stream
  perm_providers : providers.Perm w.providers
  perm_sessions : sessions.Perm w.active

/-- In the order of registration and of opening. -/
def inOrder (w : World) : w.Sample := ⟨w.providers, w.active, .refl _, .refl _⟩

/-- `assemble_snapshot`, at an instant. -/
def snapshot (w : World) (o : w.Sample) (capturedAt : Timestamp) : SystemSnapshot where
  capturedAt := capturedAt
  providers := o.providers.map w.providerSnapshot
  authoritativeSessions := o.sessions.map fun s => .ofStats s.pair.1 s.pair.2 s.stats

/-- The view of an instant. -/
def view (w : World) (o : w.Sample) (capturedAt : Timestamp) (quietAfterNs : Int64) : HealthView :=
  .fromSnapshot (w.snapshot o capturedAt) quietAfterNs

end World

/-- The acts of one session in a schedule. -/
def actsOf (i : Nat) (as : List Action) : List Act :=
  as.filterMap fun
    | .act j a => if j = i then some a else none
    | _ => none

/-! ### A session's own history -/

/-- What one act leaves of a session: who it is of, and what it keeps. -/
theorem Stream.own_cases {s s' : Stream} {a : Act} (h : s.own a = some s') :
    s'.provider = s.provider ∧ s'.pair = s.pair ∧
      (s'.registered = true → s.registered = true) ∧
      s'.nextSeq.toNat = s.nextSeq.toNat + a.stamped.toList.length ∧
      s'.stats = (a.touch s.nextSeq.toNat).toList.foldl LiveStats.touch s.stats := by
  have hstamp : ∀ {ev touch u}, s.stamp ev touch = some u →
      u.provider = s.provider ∧ u.pair = s.pair ∧ (u.registered = true → s.registered = true) ∧
        u.nextSeq.toNat = s.nextSeq.toNat + 1 ∧
        u.stats = s.stats.touch (touch (ev.stampSeq ⟨UInt64.ofNat s.nextSeq.toNat⟩)) := by
    intro ev touch u hu
    rw [stamp] at hu
    split_ifs at hu with hroom
    obtain rfl := Option.some.inj hu
    refine ⟨rfl, rfl, id, ?_, by rw [UInt64.ofNat_toNat]⟩
    rw [UInt64.toNat_add, UInt64.toNat_one]
    omega
  obtain ⟨⟨u, t⟩, hu, rfl⟩ := Option.map_eq_some_iff.mp h
  cases a with
  | receive c =>
      rw [step] at hu
      split at hu
      · cases hu
      · cases hu
        exact ⟨rfl, rfl, id, rfl, rfl⟩
  | account =>
      obtain ⟨_, -, hu⟩ := Option.map_eq_some_iff.mp hu
      cases hu
      exact ⟨rfl, rfl, id, rfl, rfl⟩
  | forward ev | seed ev | emit ev =>
      obtain ⟨v, hv, hu⟩ := Option.map_eq_some_iff.mp hu
      cases hu
      exact hstamp hv
  | backfill active | subscribers n | call c =>
      cases hu
      exact ⟨rfl, rfl, id, rfl, rfl⟩
  | release =>
      rw [step] at hu
      split_ifs at hu with hreg
      cases hu
      exact ⟨rfl, rfl, fun hfalse => absurd hfalse (by simp), rfl, rfl⟩

/-- After acts of its own a session keeps what they touched. -/
theorem Stream.run_own {s s' : Stream} {as : List Act} (h : run Stream.own s as = some s') :
    s'.stats = (touches s.nextSeq.toNat as).foldl LiveStats.touch s.stats := by
  induction as generalizing s with
  | nil =>
      obtain rfl := Option.some.inj h
      rfl
  | cons a as ih =>
      obtain ⟨u, hu, hrest⟩ := Option.bind_eq_some_iff.mp h
      obtain ⟨-, -, -, hseq, hstats⟩ := own_cases hu
      rw [ih hrest, hseq, hstats, touches, List.foldl_append]

/-- Of a session opened, it is the stats of a history. -/
theorem Stream.stats_eq {provider : String} {pair : Pair} {s : Stream} {as : List Act}
    (h : run Stream.own (.opened provider pair) as = some s) :
    s.stats = .of (touches 0 as) := run_own h

/-- Whatever a session's history, the positions it has stamped count up from zero. -/
theorem seqs_touches (n : Nat) (as : List Act) :
    seqs (touches n as)
      = (List.range' n (as.filterMap Act.stamped).length).map fun k => ⟨UInt64.ofNat k⟩ := by
  induction as generalizing n with
  | nil => rfl
  | cons a as ih =>
      rw [touches, seqs, List.filterMap_append, ← seqs, ← seqs, ih]
      cases a <;>
        simp [Act.touch, Act.stamped, seqs, Touch.seq, Touch.stamped, List.filterMap_cons,
          List.range'_succ]

/-! ### What a step does to the world -/

/-- A step opens a session, is an act of one, or leaves the sessions alone. -/
theorem World.step_cases {w w' : World} {a : Action} (h : w.step a = some w') :
    (∃ provider pair, a = .opened provider pair ∧ w.hasProvider provider = true ∧
        w.occupied pair = false ∧ w'.providers = w.providers ∧
        w'.streams = w.streams ++ [.opened provider pair]) ∨
    (∃ i act s s' t, a = .act i act ∧ w.streams[i]? = some s ∧ s.step act = some (s', t) ∧
        w' = ({ w with streams := w.streams.set i s' } : World).tick s.provider t) ∨
    (w'.streams = w.streams ∧ ∀ i act, a ≠ .act i act) := by
  cases a with
  | opened provider pair =>
      rw [step] at h
      split_ifs at h with hguard
      cases h
      rw [Bool.and_eq_true, Bool.not_eq_true'] at hguard
      exact .inl ⟨provider, pair, rfl, hguard.1, hguard.2, rfl, rfl⟩
  | act i act =>
      rw [step] at h
      cases hs : w.streams[i]? with
      | none => simp [hs] at h
      | some s =>
          simp only [hs] at h
          obtain ⟨⟨s', t⟩, hstep, hw⟩ := Option.map_eq_some_iff.mp h
          exact .inr (.inl ⟨i, act, s, s', t, rfl, hs, hstep, hw.symm⟩)
  | historical _ _ | historicalForward _ _ | setEnabled _ _ | metrics _ _ _ =>
      cases h
      exact .inr (.inr ⟨rfl, by simp⟩)

theorem actsOf_append (i : Nat) (as bs : List Action) :
    actsOf i (as ++ bs) = actsOf i as ++ actsOf i bs := List.filterMap_append

/-- A session has done what its own acts say, and one not opened yet has done nothing. -/
structure OwnHistory (past : List Action) (w : World) : Prop where
  own : ∀ {i s}, w.streams[i]? = some s →
    run Stream.own (.opened s.provider s.pair) (actsOf i past) = some s
  unopened : ∀ {i}, w.streams.length ≤ i → actsOf i past = []

theorem ownHistory_step {past : List Action} {w w' : World} {a : Action} (h : OwnHistory past w)
    (hstep : w.step a = some w') : OwnHistory (past ++ [a]) w' := by
  rcases World.step_cases hstep with
    ⟨provider, pair, rfl, -, -, -, hstreams⟩ | ⟨i, act, s, s', t, rfl, hs, hact, rfl⟩ |
    ⟨hstreams, hnot⟩
  · have hskip : ∀ i, actsOf i (past ++ [.opened provider pair]) = actsOf i past := fun i => by
      simp [actsOf]
    constructor
    · intro i s hs
      rw [hskip]
      rw [hstreams] at hs
      rcases Nat.lt_or_ge i w.streams.length with hlt | hge
      · exact h.own (by rwa [List.getElem?_append_left hlt] at hs)
      · rw [List.getElem?_append_right hge, List.getElem?_singleton] at hs
        split_ifs at hs
        obtain rfl := Option.some.inj hs
        rw [h.unopened hge]
        rfl
    · intro i hi
      rw [hskip]
      rw [hstreams, List.length_append] at hi
      exact h.unopened (by omega)
  · have hlt : i < w.streams.length := (List.getElem?_eq_some_iff.mp hs).1
    have hown : s.own act = some s' := by simp [Stream.own, hact]
    constructor
    · intro j u hu
      show run _ _ (actsOf j (past ++ [.act i act])) = some u
      rw [actsOf_append]
      change (w.streams.set i s')[j]? = some u at hu
      by_cases hij : j = i
      · subst hij
        rw [List.getElem?_set_self hlt] at hu
        obtain rfl := Option.some.inj hu
        obtain ⟨hprov, hpair, -⟩ := Stream.own_cases hown
        rw [hprov, hpair, run_append, h.own hs]
        simp [actsOf, run, hown]
      · rw [List.getElem?_set_ne (Ne.symm hij)] at hu
        simpa [actsOf, Ne.symm hij] using h.own hu
    · intro j hj
      change (w.streams.set i s').length ≤ j at hj
      rw [List.length_set] at hj
      have hij : i ≠ j := by omega
      rw [actsOf_append, h.unopened hj]
      simp [actsOf, hij]
  · have hskip : ∀ i, actsOf i (past ++ [a]) = actsOf i past := by
      intro i
      cases a with
      | act j act => exact absurd rfl (hnot j act)
      | _ => simp [actsOf]
    exact ⟨fun hs => by rw [hskip]; exact h.own (hstreams ▸ hs),
      fun hi => by rw [hskip]; exact h.unopened (hstreams ▸ hi)⟩

/-- Whatever the others do meanwhile, a session is where its own acts lead. -/
theorem own_history {ids : List String} {as : List Action} {w : World}
    (h : run World.step (.new ids) as = some w) : OwnHistory as w :=
  history_invariant [] ownHistory_step ⟨fun hs => by simp [World.new] at hs, fun _ => rfl⟩ h

/-- No two sessions of one pair are in the registry. -/
def OneEach (w : World) : Prop :=
  ∀ {i j : Nat} {s u : Stream}, w.streams[i]? = some s → w.streams[j]? = some u →
    s.registered = true → u.registered = true → s.pair = u.pair → i = j

theorem not_occupied {w : World} {pair : Pair} (h : w.occupied pair = false) {i : Nat} {s : Stream}
    (hs : w.streams[i]? = some s) (hreg : s.registered = true) : s.pair ≠ pair := by
  intro hpair
  have hall := List.any_eq_false.mp h s (List.mem_of_getElem? hs)
  simp [hreg, hpair] at hall

theorem oneEach_step {w w' : World} {a : Action} (h : OneEach w) (hstep : w.step a = some w') :
    OneEach w' := by
  rcases World.step_cases hstep with
    ⟨provider, pair, rfl, -, hfree, -, hstreams⟩ | ⟨k, act, v, v', t, rfl, hv, hact, rfl⟩ |
    ⟨hstreams, -⟩
  · -- a session opened is the only one of its pair
    have hget : ∀ {i : Nat} {s : Stream}, w'.streams[i]? = some s →
        w.streams[i]? = some s ∨ (i = w.streams.length ∧ s = .opened provider pair) := by
      intro i s hs
      rw [hstreams] at hs
      rcases Nat.lt_or_ge i w.streams.length with hlt | hge
      · exact .inl (by rwa [List.getElem?_append_left hlt] at hs)
      · rw [List.getElem?_append_right hge, List.getElem?_singleton] at hs
        split_ifs at hs with hzero
        exact .inr ⟨by omega, (Option.some.inj hs).symm⟩
    intro i j s u hs hu hsreg hureg hpair
    rcases hget hs with hs | ⟨rfl, rfl⟩ <;> rcases hget hu with hu | ⟨rfl, rfl⟩
    · exact h hs hu hsreg hureg hpair
    · exact absurd hpair (not_occupied hfree hs hsreg)
    · exact absurd hpair.symm (not_occupied hfree hu hureg)
    · rfl
  · -- an act keeps its session's pair, and registers no session
    have hown : v.own act = some v' := by simp [Stream.own, hact]
    obtain ⟨-, hpair', hreg', -⟩ := Stream.own_cases hown
    have hlt : k < w.streams.length := (List.getElem?_eq_some_iff.mp hv).1
    have hget : ∀ {i : Nat} {s : Stream}, (w.streams.set k v')[i]? = some s →
        ∃ s₀ : Stream, w.streams[i]? = some s₀ ∧ s₀.pair = s.pair ∧
          (s.registered = true → s₀.registered = true) := by
      intro i s hs
      by_cases hik : i = k
      · subst hik
        rw [List.getElem?_set_self hlt] at hs
        obtain rfl := Option.some.inj hs
        exact ⟨v, hv, hpair'.symm, hreg'⟩
      · rw [List.getElem?_set_ne (Ne.symm hik)] at hs
        exact ⟨s, hs, rfl, id⟩
    intro i j s u hs hu hsreg hureg hpair
    obtain ⟨s₀, hs₀, hsp, hsr⟩ := hget hs
    obtain ⟨u₀, hu₀, hup, hur⟩ := hget hu
    exact h hs₀ hu₀ (hsr hsreg) (hur hureg) (by rw [hsp, hup, hpair])
  · intro i j s u hs hu
    exact h (hstreams ▸ hs) (hstreams ▸ hu)

theorem oneEach_run {ids : List String} {as : List Action} {w : World}
    (h : run World.step (.new ids) as = some w) : OneEach w :=
  invariant (fun {_ _ _} hone hstep => @oneEach_step _ _ _ @hone hstep)
    (fun {_ _ _ _} hs => by simp [World.new] at hs) h

theorem nodup_active {w : World} (h : OneEach w) : (w.active.map Stream.pair).Nodup := by
  rw [World.active, List.Nodup, List.pairwise_map, List.pairwise_filter,
    List.pairwise_iff_getElem]
  intro i j hi hj hij hs hu hpair
  have heq := h (List.getElem?_eq_getElem hi) (List.getElem?_eq_getElem hj) hs hu hpair
  omega

theorem mem_active {w : World} {s : Stream} :
    s ∈ w.active ↔ ∃ i : Nat, w.streams[i]? = some s ∧ s.registered = true := by
  rw [World.active, List.mem_filter, List.mem_iff_getElem?]
  exact ⟨fun ⟨⟨i, hi⟩, hreg⟩ => ⟨i, hi, hreg⟩, fun ⟨i, hi, hreg⟩ => ⟨⟨i, hi⟩, hreg⟩⟩

/-- What a session keeps is what its own acts touched. -/
theorem stats_of_run {ids : List String} {as : List Action} {w : World}
    (h : run World.step (.new ids) as = some w) {i : Nat} {s : Stream}
    (hs : w.streams[i]? = some s) : s.stats = .of (touches 0 (actsOf i as)) :=
  Stream.stats_eq ((own_history h).own hs)

/-- In every interleaving, at every instant, in whatever order the maps give their entries: the view
lists each pair of the registry once, and judges it by the verdict of what its own session did and received, and of nothing else. -/
theorem stream_verdicts {ids : List String} {as : List Action} {w : World}
    (h : run World.step (.new ids) as = some w) (o : w.Sample) (capturedAt : Timestamp)
    (quietAfterNs : Int64) :
    ((w.view o capturedAt quietAfterNs).streams.map fun e => (e.instrument, e.kind)).Nodup ∧
    ∀ instrument kind l,
      (∃ e ∈ (w.view o capturedAt quietAfterNs).streams,
        e.instrument = instrument ∧ e.kind = kind ∧ e.liveness = l) ↔
      ∃ (i : Nat) (s : Stream), w.streams[i]? = some s ∧ s.registered = true ∧
        s.pair = (instrument, kind) ∧
        Verdict (touches 0 (actsOf i as)) capturedAt quietAfterNs l := by
  have hstreams : (w.view o capturedAt quietAfterNs).streams
      = o.sessions.map fun s =>
          streamHealth capturedAt quietAfterNs (.ofStats s.pair.1 s.pair.2 s.stats) := by
    simp [World.view, HealthView.fromSnapshot, World.snapshot]
  have hmem : ∀ s, s ∈ o.sessions ↔ ∃ i : Nat, w.streams[i]? = some s ∧ s.registered = true :=
    fun s => o.perm_sessions.mem_iff.trans mem_active
  refine ⟨?_, fun instrument kind l => ?_⟩
  · rw [hstreams, List.map_map]
    exact (o.perm_sessions.map Stream.pair).nodup_iff.mpr (nodup_active (oneEach_run h))
  · rw [hstreams]
    constructor
    · rintro ⟨e, he, rfl, rfl, rfl⟩
      obtain ⟨s, hs, rfl⟩ := List.mem_map.mp he
      obtain ⟨i, hi, hreg⟩ := (hmem s).mp hs
      refine ⟨i, s, hi, hreg, rfl, ?_⟩
      show Verdict _ _ _ (liveness _ _ _)
      rw [stats_of_run h hi]
      exact liveness_iff.mp rfl
    · rintro ⟨i, s, hi, hreg, hpair, hverdict⟩
      refine ⟨_, List.mem_map.mpr ⟨s, (hmem s).mpr ⟨i, hi, hreg⟩, rfl⟩, ?_, ?_, ?_⟩
      · exact congrArg Prod.fst hpair
      · exact congrArg Prod.snd hpair
      · show liveness _ _ _ = l
        rw [stats_of_run h hi]
        exact liveness_iff.mpr hverdict

/-- A session that delivers a trade, and whose connection then drops. -/
def outage : List Action :=
  let abc : Instrument := ⟨"tape", .equity, "ABC"⟩
  [.opened "tape" (abc, .trade), .act 0 (.receive connect), .act 0 .account,
    .act 0 (.forward (.trade ⟨abc, ⟨2⟩, ⟨2⟩, ⟨0⟩, ⟨1⟩, ⟨1⟩⟩)),
    .act 0 (.receive ⟨⟨3⟩, ⟨3⟩, ⟨0⟩, .providerDisconnected "tape" "closed" .error⟩),
    .act 0 .account]

/-- The dropped stream reads stale since the drop was received. -/
theorem stream_verdicts_outage :
    ∃ w, run World.step (.new ["tape"]) outage = some w ∧
      (w.view w.inOrder ⟨10⟩ defaultQuietAfterNs).streams.map StreamHealth.liveness = [.stale ⟨3⟩] ∧
      ((w.view w.inOrder ⟨10⟩ defaultQuietAfterNs).streams.map fun e => (e.instrument, e.kind)).Nodup := by
  obtain ⟨w, hrun, hstale⟩ : ∃ w, run World.step (.new ["tape"]) outage = some w ∧
      (w.view w.inOrder ⟨10⟩ defaultQuietAfterNs).streams.map StreamHealth.liveness = [.stale ⟨3⟩] :=
    ⟨_, rfl, by decide⟩
  exact ⟨w, hrun, hstale, (stream_verdicts hrun w.inOrder ⟨10⟩ _).1⟩

/-! ### What the entries say -/

/-- The event an act delivers, if it is no seed. -/
def Act.delivered : Act → Option MarketEvent
  | .forward ev | .emit ev => some ev
  | _ => none

/-- The control an act receives. -/
def Act.received : Act → Option Control
  | .receive c => some c
  | _ => none

/-- The events a session has delivered, seeds aside. -/
def delivered (as : List Act) : List MarketEvent := as.filterMap Act.delivered

/-- The controls a session has received. -/
def received (as : List Act) : List Control := as.filterMap Act.received

/-- What is read off touches one by one is read off the acts, if the stamp does not matter. -/
theorem filterMap_touches {β : Type} {f : Touch → Option β} {g : Act → Option β}
    (h : ∀ n a, (Act.touch n a).bind f = g a) (n : Nat) (as : List Act) :
    (touches n as).filterMap f = as.filterMap g := by
  induction as generalizing n with
  | nil => rfl
  | cons a as ih =>
      rw [touches, List.filterMap_append, ih, List.filterMap_cons, ← h n a]
      cases ht : a.touch n with
      | none => simp
      | some t => cases hf : f t <;> simp [hf]

theorem dataStamps_touches (n : Nat) (as : List Act) :
    dataStamps (touches n as) = (delivered as).filterMap MarketEvent.dataStamps := by
  rw [delivered, List.filterMap_filterMap]
  refine filterMap_touches (fun n a => ?_) n as
  cases a <;> simp [Act.touch, Act.delivered, Touch.dataStamps, Touch.delivered]

theorem gaps_touches (n : Nat) (as : List Act) :
    gaps (touches n as) = (delivered as).filterMap MarketEvent.gapStamp := by
  rw [delivered, List.filterMap_filterMap]
  refine filterMap_touches (fun n a => ?_) n as
  cases a <;> simp [Act.touch, Act.delivered, Touch.gapStamp, Touch.delivered]

theorem controls_touches (n : Nat) (as : List Act) : controls (touches n as) = received as :=
  filterMap_touches (fun n a => by cases a <;> rfl) n as

/-- What the snapshot says of a session in the registry, by what the session itself has done. -/
structure Entry (as : List Act) (e : AuthoritativeSessionSnapshot) : Prop where
  /-- The position is that of the last event stamped, and they are stamped from zero on. -/
  seqPosition : e.seqPosition
    = ((List.range (as.filterMap Act.stamped).length).getLast?).map fun k => ⟨UInt64.ofNat k⟩
  gapCount : e.gapCount = ((delivered as).filterMap MarketEvent.gapStamp).length
  /-- The spans are those of the last gaps delivered, eight at most. -/
  recentGaps : e.recentGaps
    = (((delivered as).filterMap MarketEvent.gapStamp).map Prod.fst).drop (e.gapCount - 8)
  lastSourceTs : e.lastSourceTs
    = ((delivered as).filterMap MarketEvent.dataSourceTs).getLast?
  lastRxTs : e.lastRxTs = ((delivered as).filterMap MarketEvent.dataRxTs).getLast?
  latencyNs : ∀ source rx, e.lastSourceTs = some source → e.lastRxTs = some rx →
    e.latencyNs = some (rx.nanos - source.nanos)

theorem dataStamps_fst (evs : List MarketEvent) :
    (evs.filterMap MarketEvent.dataStamps).map Prod.fst
      = evs.filterMap MarketEvent.dataSourceTs := by
  rw [List.map_filterMap]
  refine List.filterMap_congr fun ev _ => ?_
  cases ev <;> rfl

theorem dataStamps_snd (evs : List MarketEvent) :
    (evs.filterMap MarketEvent.dataStamps).map Prod.snd = evs.filterMap MarketEvent.dataRxTs := by
  rw [List.map_filterMap]
  refine List.filterMap_congr fun ev _ => ?_
  cases ev <;> rfl

theorem entry_ofStats (instrument : Instrument) (kind : EventKind) (as : List Act) :
    Entry as (.ofStats instrument kind (.of (touches 0 as))) := by
  have hkept := LiveStats.kept_of (touches 0 as)
  have hgaps := gaps_touches 0 as
  have hcount : (LiveStats.of (touches 0 as)).gapCount
      = ((delivered as).filterMap MarketEvent.gapStamp).length := by rw [hkept.gapCount, hgaps]
  constructor
  · show (LiveStats.of _).lastSeq = _
    rw [hkept.lastSeq, seqs_touches, List.getLast?_map, List.range_eq_range']
  · exact hcount
  · show (LiveStats.of _).recentGaps.buf = List.drop ((LiveStats.of _).gapCount - 8) _
    rw [LiveStats.recentGaps_of, hcount, hgaps]
    rfl
  · show (LiveStats.of _).lastTs.map Prod.fst = _
    rw [hkept.lastTs, dataStamps_touches, ← List.getLast?_map, dataStamps_fst]
  · show (LiveStats.of _).lastTs.map Prod.snd = _
    rw [hkept.lastTs, dataStamps_touches, ← List.getLast?_map, dataStamps_snd]
  · intro source rx hsource hrx
    obtain ⟨stamps, hstamps, rfl⟩ := Option.map_eq_some_iff.mp hsource
    obtain ⟨stamps', hstamps', rfl⟩ := Option.map_eq_some_iff.mp hrx
    cases Option.some.inj (hstamps.symm.trans hstamps')
    show (LiveStats.of _).lastTs.map _ = _
    rw [hstamps]
    rfl

/-! ### What the counters say -/

/-- What an act is to the counters of its session's provider. -/
def Act.counted : Act → Option Tick
  | .forward ev => some (.forwarded ev true)
  | .seed ev => some (.forwarded ev false)
  | .call c => some c.tick
  | _ => none

/-- What an action is to the counters of a provider. -/
def World.tickOf (w : World) (provider : String) : Action → Option Tick
  | .act i a => if (w.streams[i]?).any (fun s => s.provider = provider) then a.counted else none
  | .historical p c => if p = provider then some c.tick else none
  | .historicalForward p ev => if p = provider then some (.forwarded ev false) else none
  | _ => none

/-- What a schedule is to them. -/
def World.ticks (w : World) (provider : String) (as : List Action) : List Tick :=
  as.filterMap (w.tickOf provider)

/-- A session stays, with its provider. -/
theorem World.stream_stays {w w' : World} {a : Action} (h : w.step a = some w') {i : Nat}
    {s : Stream} (hs : w.streams[i]? = some s) :
    ∃ s' : Stream, w'.streams[i]? = some s' ∧ s'.provider = s.provider := by
  have hlt : i < w.streams.length := (List.getElem?_eq_some_iff.mp hs).1
  rcases step_cases h with
    ⟨provider, pair, rfl, -, -, -, hstreams⟩ | ⟨k, act, v, v', t, rfl, hv, hact, rfl⟩ |
    ⟨hstreams, -⟩
  · exact ⟨s, by rw [hstreams, List.getElem?_append_left hlt, hs], rfl⟩
  · have hown : v.own act = some v' := by simp [Stream.own, hact]
    obtain ⟨hprov, -⟩ := Stream.own_cases hown
    change ∃ s' : Stream, (w.streams.set k v')[i]? = some s' ∧ _
    by_cases hik : i = k
    · subst hik
      cases Option.some.inj (hv.symm.trans hs)
      exact ⟨v', List.getElem?_set_self hlt, hprov⟩
    · exact ⟨s, by rw [List.getElem?_set_ne (Ne.symm hik), hs], rfl⟩
  · exact ⟨s, hstreams ▸ hs, rfl⟩

/-- So what an action was to the counters stays so too. -/
theorem World.tickOf_stays {w w' : World} {a b : Action} (h : w.step a = some w')
    (hopen : ∀ i act, b = .act i act → i < w.streams.length) (provider : String) :
    w'.tickOf provider b = w.tickOf provider b := by
  cases b with
  | act i act =>
      have hlt := hopen i act rfl
      obtain ⟨s', hs', hprov⟩ := stream_stays h (List.getElem?_eq_getElem hlt)
      simp [tickOf, hs', List.getElem?_eq_getElem hlt, hprov]
  | _ => rfl

/-- Of an act that ticks, either the counters see the tick or it is the connection's. -/
theorem Stream.step_tick {s s' : Stream} {a : Act} {t : Option Tick}
    (h : s.step a = some (s', t)) :
    t = a.counted ∨ ∃ kind change, t = some (.providerControl kind change) ∧ a.counted = none := by
  cases a with
  | receive c =>
      rw [step] at h
      split at h
      · cases h
      · cases h
        exact .inl rfl
  | account =>
      obtain ⟨⟨kind, change⟩, -, h⟩ := Option.map_eq_some_iff.mp h
      cases h
      exact .inr ⟨kind, change, rfl, rfl⟩
  | forward ev | seed ev | emit ev =>
      obtain ⟨_, -, h⟩ := Option.map_eq_some_iff.mp h
      cases h
      exact .inl rfl
  | backfill active | subscribers n | call c =>
      cases h
      exact .inl rfl
  | release =>
      rw [step] at h
      split_ifs at h
      cases h
      exact .inl rfl

/-- What a step is to the accounting of a provider. -/
def World.tickAt (w : World) (provider : String) : Action → Option Tick
  | .act i a =>
      (w.streams[i]?).bind fun s =>
        if s.provider = provider then (s.step a).bind Prod.snd else none
  | .historical p c => if p = provider then some c.tick else none
  | .historicalForward p ev => if p = provider then some (.forwarded ev false) else none
  | _ => none

/-- An entry is rewritten for its own provider only. -/
theorem World.mem_update {w : World} {provider : String} {f : Registered → Registered}
    {r : Registered} (h : r ∈ (w.update provider f).providers) :
    ∃ r₀ ∈ w.providers, r = if r₀.id = provider then f r₀ else r₀ := by
  obtain ⟨r₀, hr₀, rfl⟩ := List.mem_map.mp h
  exact ⟨r₀, hr₀, rfl⟩

/-- A step moves the accounting of a provider by what it is to it. -/
theorem World.accounting_step {w w' : World} {a : Action} (h : w.step a = some w') {r : Registered}
    (hr : r ∈ w'.providers) :
    ∃ r₀ ∈ w.providers, r.id = r₀.id ∧
      r.accounting = r₀.accounting.tickAll (w.tickAt r₀.id a).toList := by
  -- a step that ticks one provider
  have htick : ∀ {v : World} {provider : String} {t : Option Tick}, v.providers = w.providers →
      w' = v.tick provider t → (∀ p, w.tickAt p a = if p = provider then t else none) →
      ∃ r₀ ∈ w.providers, r.id = r₀.id ∧
        r.accounting = r₀.accounting.tickAll (w.tickAt r₀.id a).toList := by
    rintro v provider t hv rfl hat
    obtain ⟨r₀, hr₀, rfl⟩ := mem_update hr
    refine ⟨r₀, hv ▸ hr₀, by split_ifs <;> rfl, ?_⟩
    rw [hat]
    split_ifs <;> rfl
  -- a step that leaves the accounting as it is
  have hsame : ∀ {provider : String} {f : Registered → Registered}, w' = w.update provider f →
      (∀ r, (f r).id = r.id ∧ (f r).accounting = r.accounting) → (∀ p, w.tickAt p a = none) →
      ∃ r₀ ∈ w.providers, r.id = r₀.id ∧
        r.accounting = r₀.accounting.tickAll (w.tickAt r₀.id a).toList := by
    rintro provider f rfl hf hnone
    obtain ⟨r₀, hr₀, rfl⟩ := mem_update hr
    refine ⟨r₀, hr₀, ?_, ?_⟩
    · split_ifs
      · exact (hf r₀).1
      · rfl
    · rw [hnone]
      split_ifs
      · exact (hf r₀).2
      · rfl
  cases a with
  | opened provider pair =>
      rw [step] at h
      split_ifs at h
      cases h
      exact ⟨r, hr, rfl, rfl⟩
  | act i act =>
      obtain ⟨_, _, ha, -⟩ | ⟨_, _, s, s', t, ha, hs, hact, hw⟩ | ⟨-, hnot⟩ := step_cases h
      · cases ha
      · cases ha
        have hprov : { w with streams := w.streams.set i s' }.providers = w.providers := rfl
        refine htick hprov hw fun p => ?_
        simp [tickAt, hs, hact, eq_comm]
      · exact absurd rfl (hnot i act)
  | historical provider c =>
      exact htick rfl (Option.some.inj h).symm fun p => by simp [tickAt, eq_comm]
  | historicalForward provider ev =>
      exact htick rfl (Option.some.inj h).symm fun p => by simp [tickAt, eq_comm]
  | setEnabled _ _ | metrics _ _ _ =>
      exact hsame (Option.some.inj h).symm (fun _ => ⟨rfl, rfl⟩) fun _ => rfl

/-- What a step is to the accounting is what it is to the counters, or is of the connection. -/
theorem World.tickAt_cases (w : World) {w' : World} {a : Action} (h : w.step a = some w')
    (provider : String) :
    w.tickAt provider a = w.tickOf provider a ∨
      ∃ kind change, w.tickAt provider a = some (.providerControl kind change) ∧
        w.tickOf provider a = none := by
  cases a with
  | act i act =>
      obtain ⟨_, _, ha, -⟩ | ⟨_, _, s, s', t, ha, hs, hact, -⟩ | ⟨-, hnot⟩ := step_cases h
      · cases ha
      · cases ha
        by_cases hp : s.provider = provider
        · simpa [tickAt, tickOf, hs, hact, hp] using Stream.step_tick hact
        · exact .inl (by simp [tickAt, tickOf, hs, hp])
      · exact absurd rfl (hnot i act)
  | _ => exact .inl rfl

theorem Counted.tickOpt {ts : List Tick} {acc : Accounting} (h : Counted ts acc) (t : Option Tick) :
    Counted (ts ++ t.toList) (acc.tickAll t.toList) := by
  cases t with
  | none => simpa [Accounting.tickAll] using h
  | some t => exact h.tick t

/-- A step moves the counters of a provider by what it is to them. -/
theorem World.counted_step {w w' : World} {a : Action} (h : w.step a = some w') {r : Registered}
    (hr : r ∈ w'.providers) :
    ∃ r₀ ∈ w.providers, r.id = r₀.id ∧ ∀ ts, Counted ts r₀.accounting →
      Counted (ts ++ (w.tickOf r₀.id a).toList) r.accounting := by
  obtain ⟨r₀, hr₀, hid, hacc⟩ := accounting_step h hr
  refine ⟨r₀, hr₀, hid, fun ts hts => ?_⟩
  rw [hacc]
  rcases tickAt_cases w h r₀.id with hat | ⟨kind, change, hat, hof⟩
  · rw [hat]
    exact hts.tickOpt _
  · rw [hat, hof, Option.toList_none, List.append_nil]
    exact hts.providerControl kind change

/-- Every provider's counters count what the schedule was to them. -/
def Tallied (past : List Action) (w : World) : Prop :=
  ∀ r ∈ w.providers, Counted (w.ticks r.id past) r.accounting

theorem tallied_step {past : List Action} {w w' : World} {a : Action} (hown : OwnHistory past w)
    (h : Tallied past w) (hstep : w.step a = some w') : Tallied (past ++ [a]) w' := by
  intro r hr
  obtain ⟨r₀, hr₀, hid, hcount⟩ := World.counted_step hstep hr
  -- neither the acts before nor this one are of a session that is still to be opened
  have hpast : w'.ticks r.id past = w.ticks r.id past := by
    refine List.filterMap_congr fun b hb => World.tickOf_stays hstep (fun i act hact => ?_) _
    by_contra hge
    have hnil := hown.unopened (not_lt.mp hge)
    rw [actsOf, List.filterMap_eq_nil_iff] at hnil
    subst hact
    simpa using hnil _ hb
  have hlast : w'.tickOf r.id a = w.tickOf r.id a := by
    refine World.tickOf_stays hstep (fun i act hact => ?_) _
    obtain ⟨_, _, ha, -⟩ | ⟨_, _, _, _, _, ha, hs, -⟩ | ⟨-, hnot⟩ := World.step_cases hstep
    · cases hact.symm.trans ha
    · cases hact.symm.trans ha
      exact (List.getElem?_eq_some_iff.mp hs).1
    · exact absurd hact (hnot i act)
  have hsnoc : w'.ticks r.id (past ++ [a]) = w.ticks r.id past ++ (w.tickOf r.id a).toList := by
    rw [← hpast, ← hlast, World.ticks, filterMap_snoc, World.ticks]
  rw [hsnoc, hid]
  exact hcount _ (hid ▸ h r₀ hr₀)

theorem World.ids_update (w : World) (provider : String) {f : Registered → Registered}
    (hf : ∀ r, (f r).id = r.id) :
    (w.update provider f).providers.map Registered.id = w.providers.map Registered.id := by
  rw [update, List.map_map]
  refine List.map_congr_left fun r _ => ?_
  simp only [Function.comp]
  split_ifs
  · exact hf r
  · rfl

theorem World.ids_step {w w' : World} {a : Action} (h : w.step a = some w') :
    w'.providers.map Registered.id = w.providers.map Registered.id := by
  rcases step_cases h with
    ⟨_, _, -, -, -, hproviders, -⟩ | ⟨i, _, s, s', t, -, -, -, rfl⟩ | ⟨-, hnot⟩
  · rw [hproviders]
  · exact ids_update { w with streams := w.streams.set i s' } _ (by exact fun _ => rfl)
  · cases a with
    | act i act => exact absurd rfl (hnot i act)
    | opened _ _ =>
        rw [step] at h
        split_ifs at h
        cases h
        rfl
    | historical _ _ | historicalForward _ _ | setEnabled _ _ | metrics _ _ _ =>
        obtain rfl := Option.some.inj h
        exact ids_update _ _ (by exact fun _ => rfl)

/-! ### Reconnects -/

/-- The controls of a session that have reached the accounting: all but one in hand. -/
def accounted (as : List Act) : List Control := (received as).take (as.count .account)

/-- The session is of the provider. -/
def World.isOf (w : World) (provider : String) (i : Nat) : Bool :=
  (w.streams[i]?).any fun s => s.provider = provider

/-- The reconnects of a provider: those of its sessions, each by its own controls. -/
def World.reconnects (w : World) (provider : String) (as : List Action) : Nat :=
  ∑ i ∈ Finset.range w.streams.length,
    if w.isOf provider i then downToUp .pending (accounted (actsOf i as)) else 0

/-- What a tick adds to the reconnects. -/
def Tick.reconnects : Tick → Nat
  | .providerControl _ change => change.reconnects
  | _ => 0

theorem reconnects_tick (acc : Accounting) (t : Tick) :
    (acc.tick t).connection.reconnects = acc.connection.reconnects + t.reconnects := by
  cases t with
  | forwarded ev live =>
      rw [Accounting.tick, recordForwarded_eq]
      rfl
  | providerControl kind change => exact reconnects_recordProviderControl _ _ _
  | openFailure e => exact reconnects_recordOpenFailure _ _
  | _ => rfl

theorem reconnects_tickAll (acc : Accounting) (t : Option Tick) :
    (acc.tickAll t.toList).connection.reconnects
      = acc.connection.reconnects + t.elim 0 Tick.reconnects := by
  cases t with
  | none => rfl
  | some t => exact reconnects_tick acc t

/-- What a session has received is what it has accounted for, and the control in hand. -/
structure Handed (as : List Act) (s : Stream) : Prop where
  free : s.hand = none → (received as).length = as.count .account
  held : ∀ kind change, s.hand = some (kind, change) → ∃ cs c, received as = cs ++ [c] ∧
    cs.length = as.count .account ∧ change = (recordConnection (foldPhase cs) c).2

theorem phase_of_run {provider : String} {pair : Pair} {s : Stream} {as : List Act}
    (h : run Stream.own (.opened provider pair) as = some s) :
    s.stats.connection = foldPhase (received as) := by
  rw [Stream.stats_eq h, (LiveStats.kept_of _).connection, controls_touches]

/-- An act that receives and accounts for nothing leaves both as they were. -/
theorem Handed.of_other {as : List Act} {s s' : Stream} {a : Act} (h : Handed as s)
    (hreceived : a.received = none) (haccount : a ≠ .account) (hhand : s'.hand = s.hand) :
    Handed (as ++ [a]) s' ∧ accounted (as ++ [a]) = accounted as := by
  have hsame : received (as ++ [a]) = received as := by
    rw [received, filterMap_snoc, hreceived, Option.toList_none, List.append_nil, received]
  have hcount : (as ++ [a]).count .account = as.count .account := by
    rw [List.count_append, List.count_singleton, if_neg (by simpa using haccount), Nat.add_zero]
  refine ⟨⟨fun hfree => ?_, fun kind change hheld => ?_⟩, by rw [accounted, hsame, hcount, accounted]⟩
  · rw [hsame, hcount]
    exact h.free (hhand ▸ hfree)
  · rw [hsame, hcount]
    exact h.held kind change (hhand ▸ hheld)

theorem Stream.stamp_hand {s u : Stream} {ev : MarketEvent} {touch : MarketEvent → Touch}
    (h : s.stamp ev touch = some u) : u.hand = s.hand := by
  rw [stamp] at h
  split_ifs at h
  obtain rfl := Option.some.inj h
  rfl

/-- A control that is received is in hand: the accounting has not got it. -/
theorem Handed.of_receive {provider : String} {pair : Pair} {s : Stream} {as : List Act}
    {c : Control} {s' : Stream} {kind : ControlKind}
    (hrun : run Stream.own (.opened provider pair) as = some s) (h : Handed as s)
    (hfree : s.hand = none)
    (hhand : s'.hand = some (kind, (recordConnection s.stats.connection c).2)) :
    Handed (as ++ [.receive c]) s' ∧ accounted (as ++ [.receive c]) = accounted as := by
  have hreceived : received (as ++ [.receive c]) = received as ++ [c] := by
    rw [received, filterMap_snoc]
    rfl
  have hcount : (as ++ [Act.receive c]).count .account = as.count .account := by
    rw [List.count_append, List.count_singleton, if_neg (by simp), Nat.add_zero]
  have hlen := h.free hfree
  refine ⟨⟨fun hnone => ?_, fun kind' change hheld => ?_⟩, ?_⟩
  · cases hhand.symm.trans hnone
  · cases hhand.symm.trans hheld
    exact ⟨received as, c, hreceived, by rw [hlen, hcount], by rw [phase_of_run hrun]⟩
  · rw [accounted, accounted, hreceived, hcount, ← hlen, List.take_left, List.take_length]

/-- The control in hand goes to the accounting, as the last one of those received. -/
theorem Handed.of_account {s s' : Stream} {as : List Act} {kind : ControlKind}
    {change : ConnectionChange} (h : Handed as s) (hhand : s.hand = some (kind, change))
    (hfree : s'.hand = none) :
    Handed (as ++ [.account]) s' ∧ ∃ c, accounted (as ++ [.account]) = accounted as ++ [c] ∧
      change = (recordConnection (foldPhase (accounted as)) c).2 := by
  obtain ⟨cs, c, hreceived, hlen, hchange⟩ := h.held kind change hhand
  have hreceived' : received (as ++ [.account]) = cs ++ [c] := by
    rw [received, filterMap_snoc, ← received, hreceived]
    exact List.append_nil _
  have hcount : (as ++ [Act.account]).count .account = (cs ++ [c]).length := by
    rw [List.count_append, List.count_singleton_self, List.length_append, ← hlen]
    rfl
  have hbefore : accounted as = cs := by
    rw [accounted, hreceived, ← hlen, List.take_left]
  refine ⟨⟨fun _ => by rw [hreceived', hcount], fun _ _ hheld => ?_⟩, c, ?_, hbefore ▸ hchange⟩
  · cases hfree.symm.trans hheld
  · rw [accounted, hreceived', hcount, List.take_length, hbefore]

/-- An act of a session adds to its reconnects what it is to them in the accounting. -/
theorem Handed.step {provider : String} {pair : Pair} {s s' : Stream} {as : List Act} {a : Act}
    {t : Option Tick} (hrun : run Stream.own (.opened provider pair) as = some s)
    (h : Handed as s) (hstep : s.step a = some (s', t)) :
    Handed (as ++ [a]) s' ∧ downToUp .pending (accounted (as ++ [a]))
      = downToUp .pending (accounted as) + t.elim 0 Tick.reconnects := by
  -- no reconnect but by accounting for a control
  have hother : a.received = none → a ≠ .account → s'.hand = s.hand →
      t.elim 0 Tick.reconnects = 0 → Handed (as ++ [a]) s' ∧
        downToUp .pending (accounted (as ++ [a]))
          = downToUp .pending (accounted as) + t.elim 0 Tick.reconnects := by
    intro hreceived haccount hhand hnone
    obtain ⟨hhanded, hsame⟩ := h.of_other hreceived haccount hhand
    exact ⟨hhanded, by rw [hsame, hnone, Nat.add_zero]⟩
  cases a with
  | receive c =>
      rw [Stream.step] at hstep
      split at hstep
      · cases hstep
      · rename_i hfree
        obtain ⟨hs', rfl⟩ := Prod.mk.inj (Option.some.inj hstep)
        obtain ⟨hhanded, hsame⟩ :=
          h.of_receive (c := c) hrun hfree (congrArg Stream.hand hs').symm
        exact ⟨hhanded, by rw [hsame]; rfl⟩
  | account =>
      obtain ⟨⟨kind, change⟩, hhand, hstep⟩ := Option.map_eq_some_iff.mp hstep
      obtain ⟨hs', rfl⟩ := Prod.mk.inj hstep
      obtain ⟨hhanded, c, hafter, hchange⟩ := h.of_account hhand (congrArg Stream.hand hs').symm
      refine ⟨hhanded, ?_⟩
      rw [hafter, downToUp_append, hchange]
      rfl
  | forward ev | seed ev | emit ev =>
      obtain ⟨u, hu, hstep⟩ := Option.map_eq_some_iff.mp hstep
      cases hstep
      exact hother rfl (by simp) (Stream.stamp_hand hu) rfl
  | backfill active | subscribers n =>
      cases hstep
      exact hother rfl (by simp) rfl rfl
  | call c =>
      cases hstep
      exact hother rfl (by simp) rfl (by cases c <;> rfl)
  | release =>
      rw [Stream.step] at hstep
      split_ifs at hstep
      cases hstep
      exact hother rfl (by simp) rfl rfl

theorem handed_run {provider : String} {pair : Pair} {s : Stream} {as : List Act}
    (h : run Stream.own (.opened provider pair) as = some s) : Handed as s := by
  refine (history_invariant (P := fun as s => run Stream.own (.opened provider pair) as = some s ∧
    Handed as s) [] (fun {past s a s'} hpast hstep => ?_) ⟨rfl, fun _ => rfl, fun _ _ hheld => ?_⟩ h).2
  · obtain ⟨⟨u, t⟩, hu, rfl⟩ := Option.map_eq_some_iff.mp hstep
    refine ⟨?_, (hpast.2.step hpast.1 hu).1⟩
    rw [run_append, hpast.1]
    simp [run, hstep]
  · cases hheld

/-- The reconnects of every provider are those of its sessions. -/
def Reconnected (past : List Action) (w : World) : Prop :=
  ∀ r ∈ w.providers, r.accounting.connection.reconnects = w.reconnects r.id past

theorem World.isOf_stays {w w' : World} {a : Action} (h : w.step a = some w') (provider : String)
    {i : Nat} (hi : i < w.streams.length) : w'.isOf provider i = w.isOf provider i := by
  obtain ⟨s', hs', hprov⟩ := stream_stays h (List.getElem?_eq_getElem hi)
  simp [isOf, hs', List.getElem?_eq_getElem hi, hprov]

/-- What is not an act of a session is none of its acts, and no reconnect. -/
theorem actsOf_of_other {past : List Action} {a : Action} (hnot : ∀ i act, a ≠ .act i act)
    (i : Nat) : actsOf i (past ++ [a]) = actsOf i past := by
  rw [actsOf_append]
  cases a with
  | act j act => exact absurd rfl (hnot j act)
  | _ => exact List.append_nil _

theorem World.tickAt_of_other (w : World) {a : Action} (hnot : ∀ i act, a ≠ .act i act)
    (provider : String) : (w.tickAt provider a).elim 0 Tick.reconnects = 0 := by
  cases a with
  | act j act => exact absurd rfl (hnot j act)
  | historical q c =>
      rw [tickAt]
      split_ifs
      · cases c <;> rfl
      · rfl
  | historicalForward q ev =>
      rw [tickAt]
      split_ifs <;> rfl
  | _ => rfl

/-- A step adds to the reconnects of a provider what it is to them in the accounting. -/
theorem World.reconnects_step {past : List Action} {w w' : World} {a : Action}
    (hown : OwnHistory past w) (h : w.step a = some w') (provider : String) :
    w'.reconnects provider (past ++ [a])
      = w.reconnects provider past + (w.tickAt provider a).elim 0 Tick.reconnects := by
  rcases step_cases h with
    ⟨q, pair, rfl, -, -, -, hstreams⟩ | ⟨k, act, s, s', t, rfl, hs, hact, hw⟩ | ⟨hstreams, hnot⟩
  · -- the session opened has done nothing
    have hlen : w'.streams.length = w.streams.length + 1 := by
      rw [hstreams, List.length_append, List.length_singleton]
    have hacts : ∀ i, actsOf i (past ++ [.opened q pair]) = actsOf i past :=
      actsOf_of_other (by simp)
    have hnew : downToUp .pending (accounted (actsOf w.streams.length past)) = 0 := by
      rw [hown.unopened (le_refl _)]
      rfl
    rw [World.reconnects, hlen, Finset.sum_range_succ, hacts, hnew, ite_self, Nat.add_zero]
    refine Finset.sum_congr rfl fun i hi => ?_
    rw [hacts, isOf_stays h provider (Finset.mem_range.mp hi)]
  · have hlen : w'.streams.length = w.streams.length := by
      rw [hw]
      exact List.length_set
    have hk : k < w.streams.length := (List.getElem?_eq_some_iff.mp hs).1
    have hat : (w.tickAt provider (.act k act)).elim 0 Tick.reconnects
        = if w.isOf provider k then t.elim 0 Tick.reconnects else 0 := by
      by_cases hp : s.provider = provider <;> simp [tickAt, isOf, hs, hact, hp]
    have hself : actsOf k (past ++ [.act k act]) = actsOf k past ++ [act] := by
      rw [actsOf_append]
      simp [actsOf]
    have hrun := hown.own hs
    have hstep := ((handed_run hrun).step hrun hact).2
    have hterm : ∀ i ∈ Finset.range w.streams.length,
        (if w'.isOf provider i then
          downToUp .pending (accounted (actsOf i (past ++ [.act k act]))) else 0)
        = (if w.isOf provider i then downToUp .pending (accounted (actsOf i past)) else 0)
          + if k = i then (if w.isOf provider k then t.elim 0 Tick.reconnects else 0) else 0 := by
      intro i hi
      rw [isOf_stays h provider (Finset.mem_range.mp hi)]
      by_cases hki : k = i
      · subst hki
        rw [if_pos rfl, hself, hstep]
        split_ifs <;> rfl
      · have hother : actsOf i (past ++ [.act k act]) = actsOf i past := by
          rw [actsOf_append]
          simp [actsOf, hki]
        rw [if_neg hki, hother, Nat.add_zero]
    rw [World.reconnects, hlen, Finset.sum_congr rfl hterm, Finset.sum_add_distrib,
      Finset.sum_ite_eq, if_pos (Finset.mem_range.mpr hk), hat, World.reconnects]
  · rw [w.tickAt_of_other hnot, Nat.add_zero, World.reconnects, hstreams]
    refine Finset.sum_congr rfl fun i hi => ?_
    rw [actsOf_of_other hnot, isOf_stays h provider (Finset.mem_range.mp hi)]

theorem reconnected_step {past : List Action} {w w' : World} {a : Action} (hown : OwnHistory past w)
    (h : Reconnected past w) (hstep : w.step a = some w') : Reconnected (past ++ [a]) w' := by
  intro r hr
  obtain ⟨r₀, hr₀, hid, hacc⟩ := World.accounting_step hstep hr
  rw [hid, World.reconnects_step hown hstep, ← h r₀ hr₀, hacc, reconnects_tickAll]

/-! ### The snapshot's counters -/

/-- What the snapshot says of a provider's calls and throughput, by what was done at it. -/
structure Counts (ts : List Tick) (reconnects : Nat) (p : ProviderSnapshot) : Prop where
  historyFetches : p.historyFetches = ts.count .historyFetch
  historyFetchCoalesced : p.historyFetchCoalesced = ts.count .historyFetchCoalesced
  liveStarts : p.liveStarts = ts.count .liveStart
  subscribes : p.subscribes = ts.count .subscribe
  unsubscribes : p.unsubscribes = ts.count .unsubscribe
  reconnects : p.reconnects = reconnects
  messages : p.messages = ts.countP Tick.isMessage
  gapsEmitted : p.gapsEmitted = ts.countP Tick.isGap

theorem counted_run {ids : List String} {as : List Action} {w : World}
    (h : run World.step (.new ids) as = some w) : Tallied as w ∧ Reconnected as w := by
  have hinit : Tallied [] (.new ids) ∧ Reconnected [] (.new ids) := by
    constructor <;>
    · intro r hr
      obtain ⟨id, -, rfl⟩ := List.mem_map.mp hr
      first | exact counted_new | rfl
  exact (history_invariant
    (P := fun past w => OwnHistory past w ∧ Tallied past w ∧ Reconnected past w) []
    (fun hpast hstep => ⟨ownHistory_step hpast.1 hstep, tallied_step hpast.1 hpast.2.1 hstep,
      reconnected_step hpast.1 hpast.2.2 hstep⟩)
    ⟨⟨fun hs => by simp [World.new] at hs, fun _ => rfl⟩, hinit⟩ h).2

/-- In every interleaving, at every instant, the snapshot reports of each session what that
session itself has stamped and delivered, and of each provider as many calls, reconnects, messages
and gaps as were made at it, whoever made them: a seed, a replayed event and an event of a
historical session are no messages, and a session released goes on counting. The providers come in
any order, each of them once. -/
theorem snapshot_counts {ids : List String} {as : List Action} {w : World}
    (h : run World.step (.new ids) as = some w) (o : w.Sample) (capturedAt : Timestamp) :
    (∀ (i : Nat) (s : Stream), w.streams[i]? = some s → s.registered = true →
      ∃ e ∈ (w.snapshot o capturedAt).authoritativeSessions,
        (e.instrument, e.kind) = s.pair ∧ Entry (actsOf i as) e) ∧
    ((w.snapshot o capturedAt).providers.map ProviderSnapshot.provider).Perm ids ∧
    ∀ p ∈ (w.snapshot o capturedAt).providers,
      Counts (w.ticks p.provider as) (w.reconnects p.provider as) p := by
  refine ⟨fun i s hs hreg => ?_, ?_, ?_⟩
  · have hsampled : s ∈ o.sessions := o.perm_sessions.mem_iff.mpr (mem_active.mpr ⟨i, hs, hreg⟩)
    refine ⟨_, List.mem_map.mpr ⟨s, hsampled, rfl⟩, rfl, ?_⟩
    rw [stats_of_run h hs]
    exact entry_ofStats _ _ _
  · have hids := invariant (P := fun w : World => w.providers.map Registered.id = ids)
      (fun hw hstep => (World.ids_step hstep).trans hw) (by simp [World.new, Function.comp_def]) h
    have hsame : (w.snapshot o capturedAt).providers.map ProviderSnapshot.provider
        = o.providers.map Registered.id := by
      simp [World.snapshot, World.providerSnapshot, Function.comp_def]
    rw [hsame, ← hids]
    exact o.perm_providers.map _
  · intro p hp
    obtain ⟨r, hsampled, rfl⟩ := List.mem_map.mp hp
    have hr : r ∈ w.providers := o.perm_providers.mem_iff.mp hsampled
    obtain ⟨htallied, hreconnected⟩ := counted_run h
    obtain ⟨hfetch, hcoal, hstart, hsub, hunsub, hmsg, hgap⟩ := htallied r hr
    exact ⟨hfetch, hcoal, hstart, hsub, hunsub, hreconnected r hr, hmsg, hgap⟩

theorem snapshot_counts_outage :
    ∃ w, run World.step (.new ["tape"]) outage = some w ∧
      (w.snapshot w.inOrder ⟨10⟩).providers.map ProviderSnapshot.messages = [1] ∧
      ((w.snapshot w.inOrder ⟨10⟩).providers.map ProviderSnapshot.provider).Perm ["tape"] := by
  obtain ⟨w, hrun, hmessages⟩ : ∃ w, run World.step (.new ["tape"]) outage = some w ∧
      (w.snapshot w.inOrder ⟨10⟩).providers.map ProviderSnapshot.messages = [1] :=
    ⟨_, rfl, by decide⟩
  exact ⟨w, hrun, hmessages, (snapshot_counts hrun w.inOrder ⟨10⟩).2.1⟩

/-! ### Provider states -/

/-- The phases of the sessions a provider has in the registry. -/
def World.phases (w : World) (provider : String) : List StreamConnection :=
  (w.active.filter fun s => s.provider = provider).map fun s => s.stats.connection

theorem connectionState_providerSnapshot (w : World) (r : Registered) :
    (w.providerSnapshot r).connectionState
      = r.accounting.connection.connectionState (w.phases r.id) := rfl

theorem activeSubscriptions_eq_zero (w : World) (r : Registered) :
    (w.providerSnapshot r).activeSubscriptions = 0 ↔ w.phases r.id = [] := by
  show min (w.active.filter fun s => s.provider = r.id).length (2 ^ 32 - 1) = 0 ↔ _
  rw [World.phases, List.map_eq_nil_iff, ← List.length_eq_zero_iff]
  omega

/-- With nothing requested, the sticky rejection decides. -/
theorem providerState_of_nil {w : World} {r : Registered} (h : w.phases r.id = []) :
    providerState (w.providerSnapshot r)
      = if r.enabled then (if r.accounting.connection.authFailed then .unauthenticated else .idle)
        else .disabled := by
  simp only [providerState, (activeSubscriptions_eq_zero w r).mpr h,
    connectionState_providerSnapshot, h, connectionState_nil]
  show (if (!r.enabled) = true then _ else _) = _
  cases r.enabled <;> cases r.accounting.connection.authFailed <;>
    cases r.accounting.connection.everConnected <;> rfl

/-- With something requested, the phases decide. -/
theorem providerState_of_cons {w : World} {r : Registered} (h : w.phases r.id ≠ []) :
    providerState (w.providerSnapshot r)
      = if r.enabled then
          (if (w.phases r.id).any StreamConnection.isUp then .connected
          else if (w.phases r.id).any StreamConnection.isUnauthenticated then .unauthenticated
          else if (w.phases r.id).any StreamConnection.isDown then .disconnected
          else .connecting)
        else .disabled := by
  have hsome := mt (activeSubscriptions_eq_zero w r).mp h
  have hempty : (w.phases r.id).isEmpty = false := by simpa using h
  simp only [providerState, connectionState_providerSnapshot, ProviderAccounting.connectionState,
    hempty, hsome]
  show (if (!r.enabled) = true then _ else _) = _
  cases r.enabled <;> cases (w.phases r.id).any StreamConnection.isUp <;>
    cases (w.phases r.id).any StreamConnection.isUnauthenticated <;>
    cases (w.phases r.id).any StreamConnection.isDown <;> rfl

/-- The session is of the provider, and in the registry. -/
def World.Own (w : World) (provider : String) (i : Nat) : Prop :=
  ∃ s : Stream, w.streams[i]? = some s ∧ s.registered = true ∧ s.provider = provider

/-- Some phase has a property when what some session of the provider has received leads to one
that has it. -/
theorem any_phases {ids : List String} {as : List Action} {w : World}
    (h : run World.step (.new ids) as = some w) (provider : String) (P : StreamConnection → Bool) :
    (w.phases provider).any P = true ↔
      ∃ i, w.Own provider i ∧ P (foldPhase (received (actsOf i as))) = true := by
  have hphase : ∀ {i : Nat} {s : Stream}, w.streams[i]? = some s →
      s.stats.connection = foldPhase (received (actsOf i as)) := fun hs => by
    rw [stats_of_run h hs, (LiveStats.kept_of _).connection, controls_touches]
  simp only [World.phases, List.any_map, List.any_filter, List.any_eq_true, mem_active,
    Bool.and_eq_true, decide_eq_true_eq, Function.comp]
  constructor
  · rintro ⟨s, ⟨i, hs, hreg⟩, hprov, hP⟩
    exact ⟨i, ⟨s, hs, hreg, hprov⟩, hphase hs ▸ hP⟩
  · rintro ⟨i, ⟨s, hs, hreg, hprov⟩, hP⟩
    exact ⟨s, ⟨i, hs, hreg⟩, hprov, (hphase hs).symm ▸ hP⟩

theorem phases_eq_nil {w : World} {provider : String} :
    w.phases provider = [] ↔ ∀ i, ¬ w.Own provider i := by
  rw [World.phases, List.map_eq_nil_iff, List.filter_eq_nil_iff]
  constructor
  · rintro h i ⟨s, hs, hreg, hprov⟩
    exact h s (mem_active.mpr ⟨i, hs, hreg⟩) (by simpa using hprov)
  · intro h s hs hprov
    obtain ⟨i, hi, hreg⟩ := mem_active.mp hs
    exact h i ⟨s, hi, hreg, by simpa using hprov⟩

/-- In every interleaving, at every instant, a provider reads as the sessions listed beside it
say, by what each of them has received, and with none of them by the sticky rejection. -/
theorem provider_states {ids : List String} {as : List Action} {w : World}
    (h : run World.step (.new ids) as = some w) (o : w.Sample) (capturedAt : Timestamp)
    (quietAfterNs : Int64) :
    ∀ e ∈ (w.view o capturedAt quietAfterNs).providers, ∃ r ∈ w.providers, r.id = e.provider ∧
      e.detail = r.accounting.connection.lastError ∧
      (e.state = .disabled ↔ r.enabled = false) ∧
      (e.state = .connected ↔ r.enabled = true ∧
        ∃ i, w.Own r.id i ∧ Reached (received (actsOf i as))) ∧
      (e.state = .unauthenticated ↔ r.enabled = true ∧
        (∀ i, w.Own r.id i → ¬ Reached (received (actsOf i as))) ∧
        ((∃ i since, w.Own r.id i ∧ Outage (received (actsOf i as)) since .unauthenticated) ∨
          (∀ i, ¬ w.Own r.id i) ∧ r.accounting.connection.authFailed = true)) ∧
      (e.state = .disconnected ↔ r.enabled = true ∧
        (∀ i, w.Own r.id i → ¬ Reached (received (actsOf i as))) ∧
        (∀ i since, w.Own r.id i → ¬ Outage (received (actsOf i as)) since .unauthenticated) ∧
        ∃ i since cause, w.Own r.id i ∧ Outage (received (actsOf i as)) since cause) ∧
      (e.state = .connecting ↔ r.enabled = true ∧ (∃ i, w.Own r.id i) ∧
        ∀ i, w.Own r.id i → Untouched (received (actsOf i as))) ∧
      (e.state = .idle ↔ r.enabled = true ∧ (∀ i, ¬ w.Own r.id i) ∧
        r.accounting.connection.authFailed = false) := by
  intro e he
  have hproviders : (w.view o capturedAt quietAfterNs).providers
      = o.providers.map fun r => providerHealth (w.providerSnapshot r) := by
    simp [World.view, HealthView.fromSnapshot, World.snapshot]
  rw [hproviders] at he
  obtain ⟨r, hsampled, rfl⟩ := List.mem_map.mp he
  have hr : r ∈ w.providers := o.perm_providers.mem_iff.mp hsampled
  have hup : (w.phases r.id).any StreamConnection.isUp = true ↔
      ∃ i, w.Own r.id i ∧ Reached (received (actsOf i as)) := by
    simp only [any_phases h, foldPhase_up_iff]
  have hunauth : (w.phases r.id).any StreamConnection.isUnauthenticated = true ↔
      ∃ i since, w.Own r.id i ∧ Outage (received (actsOf i as)) since .unauthenticated := by
    simp only [any_phases h, ← foldPhase_down_iff]
    refine exists_congr fun i => ?_
    cases foldPhase (received (actsOf i as)) with
    | down since cause => cases cause <;> simp [StreamConnection.isUnauthenticated]
    | _ => simp [StreamConnection.isUnauthenticated]
  have hdown : (w.phases r.id).any StreamConnection.isDown = true ↔
      ∃ i since cause, w.Own r.id i ∧ Outage (received (actsOf i as)) since cause := by
    simp only [any_phases h, ← foldPhase_down_iff]
    refine exists_congr fun i => ?_
    cases foldPhase (received (actsOf i as)) <;> simp [StreamConnection.isDown]
  have huntouched : (∀ i, w.Own r.id i → Untouched (received (actsOf i as))) ↔
      (w.phases r.id).any StreamConnection.isUp = false ∧
        (w.phases r.id).any StreamConnection.isDown = false := by
    rw [Bool.eq_false_iff, Bool.eq_false_iff, ne_eq, ne_eq, any_phases h, any_phases h]
    simp only [← foldPhase_pending_iff, not_exists, not_and, ← forall_and]
    refine forall_congr' fun i => ?_
    cases foldPhase (received (actsOf i as)) <;>
      simp [StreamConnection.isUp, StreamConnection.isDown]
  refine ⟨r, hr, rfl, rfl, ?_⟩
  rw [show (providerHealth (w.providerSnapshot r)).state
    = providerState (w.providerSnapshot r) from rfl]
  by_cases hnil : w.phases r.id = []
  · -- nothing requested: no session is there to have received anything
    have hnone := phases_eq_nil.mp hnil
    rw [providerState_of_nil hnil]
    cases r.enabled <;> cases r.accounting.connection.authFailed <;> simp [hnone]
  · have hsome : ∃ i, w.Own r.id i := by
      simpa using mt phases_eq_nil.mpr hnil
    have hnot : ¬ ∀ i, ¬ w.Own r.id i := by simpa using hsome
    rw [providerState_of_cons hnil, huntouched, ← hup]
    have hnotUp : (∀ i, w.Own r.id i → ¬ Reached (received (actsOf i as))) ↔
        (w.phases r.id).any StreamConnection.isUp = false := by
      rw [Bool.eq_false_iff, ne_eq, hup]
      simp
    have hnotUnauth : (∀ i since, w.Own r.id i →
        ¬ Outage (received (actsOf i as)) since .unauthenticated) ↔
        (w.phases r.id).any StreamConnection.isUnauthenticated = false := by
      rw [Bool.eq_false_iff, ne_eq, hunauth]
      simp only [not_exists, not_and]
    rw [hnotUp, hnotUnauth, ← hunauth, ← hdown]
    have hle : (w.phases r.id).any StreamConnection.isUnauthenticated = true →
        (w.phases r.id).any StreamConnection.isDown = true := fun hany => by
      obtain ⟨i, since, hown, hout⟩ := hunauth.mp hany
      exact hdown.mpr ⟨i, since, _, hown, hout⟩
    revert hle
    cases r.enabled <;> cases (w.phases r.id).any StreamConnection.isUp <;>
      cases (w.phases r.id).any StreamConnection.isUnauthenticated <;>
      cases (w.phases r.id).any StreamConnection.isDown <;>
      simp [hsome, hnot]

theorem provider_states_outage :
    ∃ w, run World.step (.new ["tape"]) outage = some w ∧
      ∀ e ∈ (w.view w.inOrder ⟨10⟩ defaultQuietAfterNs).providers,
        e.state = .disconnected ∧ ∃ r ∈ w.providers, r.id = e.provider := by
  obtain ⟨w, hrun, hstates⟩ : ∃ w, run World.step (.new ["tape"]) outage = some w ∧
      ∀ e ∈ (w.view w.inOrder ⟨10⟩ defaultQuietAfterNs).providers, e.state = .disconnected :=
    ⟨_, rfl, by decide⟩
  refine ⟨w, hrun, fun e he => ⟨hstates e he, ?_⟩⟩
  obtain ⟨r, hr, hid, -⟩ := provider_states hrun w.inOrder _ _ e he
  exact ⟨r, hr, hid⟩

end Health

end Datamancer
