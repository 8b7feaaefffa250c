import Datamancer.Client.Multiplex

/-!
# Datamancer.Client.Coalesce

The connection controls a client lets through (`note_conn`).

The hub of a provider broadcasts one sequence of transitions to all substreams, which
come through at speeds of their own. The client keeps the last state it has let through
and no more: what it lets through is the hub's sequence as long as no substream takes a
transition while it is behind by a positive even number of them (`InStep`); its
transition then looks new.
-/

namespace Datamancer

open ActionSystem

/-! ### Transitions -/

/-- The connection state of a provider that an event announces. -/
def MarketEvent.connState (provider : String) : MarketEvent → Option ConnState
  | .control ⟨_, _, _, .providerConnected p⟩ => if p = provider then some .connected else none
  | .control ⟨_, _, _, .providerDisconnected p _ _⟩ =>
      if p = provider then some .disconnected else none
  | _ => none

@[simp] theorem connState_stampSeq (provider : String) (s : Seq) (ev : MarketEvent) :
    (ev.stampSeq s).connState provider = ev.connState provider := by
  cases ev with
  | control c =>
      obtain ⟨_, _, _, kind⟩ := c
      cases kind <;> rfl
  | _ => rfl

/-- The connection controls of a provider among events, as its hub sent them, before
they were stamped. -/
def transitions (provider : String) (evs : List MarketEvent) : List MarketEvent :=
  (evs.filter fun ev => (ev.connState provider).isSome).map (MarketEvent.stampSeq ⟨0⟩)

section

variable {provider : String}

@[simp] theorem transitions_nil : transitions provider [] = [] := rfl

theorem transitions_append (xs ys : List MarketEvent) :
    transitions provider (xs ++ ys) = transitions provider xs ++ transitions provider ys := by
  simp [transitions]

theorem transitions_of_some {ev : MarketEvent} {s : ConnState}
    (h : ev.connState provider = some s) : transitions provider [ev] = [ev.stampSeq ⟨0⟩] := by
  simp [transitions, h]

theorem transitions_of_none {ev : MarketEvent} (h : ev.connState provider = none) :
    transitions provider [ev] = [] := by
  simp [transitions, h]

theorem transitions_initial {xs ys : List MarketEvent} (h : xs <+: ys) :
    transitions provider xs <+: transitions provider ys := (h.filter _).map _

end

/-- A sequence of transitions of one provider, each to the state it was not in. -/
structure Alternating (provider : String) (hub : List MarketEvent) : Prop where
  transition : ∀ ev ∈ hub, (ev.connState provider).isSome
  alternates : hub.IsChain fun a b => a.connState provider ≠ b.connState provider

namespace Alternating

variable {provider : String} {hub : List MarketEvent}

theorem ne_next (h : Alternating provider hub) {i : Nat} {a b : MarketEvent}
    (ha : hub[i]? = some a) (hb : hub[i + 1]? = some b) :
    a.connState provider ≠ b.connState provider := by
  obtain ⟨hi, rfl⟩ := List.getElem?_eq_some_iff.mp ha
  obtain ⟨hj, rfl⟩ := List.getElem?_eq_some_iff.mp hb
  exact List.isChain_iff_getElem.mp h.alternates i hj

/-- There are two states, so transitions an even number apart are to the same. -/
theorem eq_of_even (h : Alternating provider hub) {i : Nat} {a : MarketEvent}
    (ha : hub[i]? = some a) (k : Nat) {b : MarketEvent} (hb : hub[i + 2 * k]? = some b) :
    a.connState provider = b.connState provider := by
  induction k generalizing b with
  | zero =>
      obtain rfl := Option.some.inj (ha.symm.trans hb)
      rfl
  | succ k ih =>
      have hlen := (List.getElem?_eq_some_iff.mp hb).1
      have hx : hub[i + 2 * k]? = some hub[i + 2 * k] := List.getElem?_eq_getElem (by omega)
      have hy : hub[i + 2 * k + 1]? = some hub[i + 2 * k + 1] :=
        List.getElem?_eq_getElem (by omega)
      have hxy := h.ne_next hx hy
      have hyb := h.ne_next hy hb
      rw [ih hx]
      have hb' := h.transition b (List.mem_of_getElem? hb)
      have hy' := h.transition _ (List.mem_of_getElem? hy)
      have hx' := h.transition _ (List.mem_of_getElem? hx)
      obtain ⟨sb, hsb⟩ := Option.isSome_iff_exists.mp hb'
      obtain ⟨sy, hsy⟩ := Option.isSome_iff_exists.mp hy'
      obtain ⟨sx, hsx⟩ := Option.isSome_iff_exists.mp hx'
      rw [hsx, hsy] at hxy
      rw [hsy, hsb] at hyb
      rw [hsx, hsb]
      cases sx <;> cases sy <;> cases sb <;> simp at hxy hyb ⊢

end Alternating

/-! ### A sink that loses nothing -/

/-- The ring does not overflow and the consumer keeps its stream. -/
def ClientOutput.Lossless (o : ClientOutput) : SinkAction → Prop
  | .proceed => ∀ ring ∈ o.ring, ring.ring.buf.length < ring.ring.capacity
  | .dropStream => False
  | _ => True

instance (o : ClientOutput) : DecidablePred o.Lossless
  | .proceed => inferInstanceAs (Decidable (∀ ring ∈ o.ring, _))
  | .dropStream => .isFalse id
  | .deliver .. | .take .. | .consume => .isTrue trivial

/-- The sink has all that was handed in, in order. -/
structure Intact (handed : List (MarketEvent × String)) (o : ClientOutput) : Prop where
  flow : o.accepted ++ (o.buffered ++ o.replay).map Prod.fst = handed.map Prod.fst
  receiver : ∀ tx, o.sink = .attached tx → tx.isOpen = true
  former : o.former = []
  dropped : ∀ ring, o.sink = .detached ring → ring.dropped.entries = []

namespace Intact

variable {handed : List (MarketEvent × String)} {o o' : ClientOutput}

theorem flow_attached {tx : Channel MarketEvent} (h : Intact handed o)
    (hsink : o.sink = .attached tx) :
    tx.accepted ++ o.replay.map Prod.fst = handed.map Prod.fst := by
  have hflow := h.flow
  rw [ClientOutput.buffered, ClientOutput.ring, hsink, ClientOutput.accepted,
    ClientOutput.streams, hsink, h.former] at hflow
  simpa using hflow

theorem flow_detached {ring : ClientRing} (h : Intact handed o)
    (hsink : o.sink = .detached ring) :
    (ring.ring.buf ++ o.replay).map Prod.fst = handed.map Prod.fst := by
  have hflow := h.flow
  rwa [ClientOutput.buffered, ClientOutput.ring, hsink, ClientOutput.accepted,
    ClientOutput.streams, hsink, h.former] at hflow

theorem of_attached {tx : Channel MarketEvent} (hsink : o.sink = .attached tx)
    (hopen : tx.isOpen = true) (hformer : o.former = [])
    (hflow : tx.accepted ++ o.replay.map Prod.fst = handed.map Prod.fst) : Intact handed o := by
  refine ⟨?_, ?_, hformer, ?_⟩
  · rw [ClientOutput.buffered, ClientOutput.ring, hsink, ClientOutput.accepted,
      ClientOutput.streams, hsink, hformer]
    simpa using hflow
  · intro tx' hsink'
    obtain rfl := ClientSink.attached.inj (hsink.symm.trans hsink')
    exact hopen
  · intro ring hring
    cases hsink.symm.trans hring

theorem step {a : SinkAction} (h : Intact handed o) (hok : o.Lossless a)
    (hstep : o.step a = some o') : Intact (handed ++ handedIn [a]) o' := by
  cases ClientOutput.step_cases hstep with
  | @deliver x hidle =>
      refine ⟨?_, h.receiver, h.former, h.dropped⟩
      show o.accepted ++ (o.buffered ++ [x]).map Prod.fst = (handed ++ [x]).map Prod.fst
      have hflow := h.flow
      rw [hidle, List.append_nil] at hflow
      rw [List.map_append, ← List.append_assoc, hflow, List.map_append]
  | @send x replay tx tx' hreplay hsink hsend =>
      obtain ⟨hopen, rfl⟩ := Channel.eq_of_sent hsend
      refine of_attached rfl hopen h.former ?_
      have hflow := h.flow_attached hsink
      rw [hreplay] at hflow
      simpa [handedIn, Channel.accepted] using hflow
  | detach hreplay hsink hsend =>
      have hopen := h.receiver _ hsink
      rw [Channel.isOpen_of_closed hsend] at hopen
      cases hopen
  | @push x replay ring hreplay hsink =>
      have hroom := hok ring (by simp [ClientOutput.ring, hsink])
      -- with room nothing is evicted
      rcases ring.ring.push_cases x with ⟨b, rest, hbuf, hev, -⟩ | ⟨hev, hpush, -⟩
      · have hfull : ring.ring.isFull = true := by
          by_contra hno
          simp [EvictRing.evicted, hno] at hev
        have hlen : ring.ring.buf.length = ring.ring.capacity := beq_iff_eq.mp hfull
        omega
      · refine ⟨?_, ?_, h.former, ?_⟩
        · have hflow := h.flow_detached hsink
          rw [hreplay] at hflow
          show o.former.flatMap _ ++ ((ring.ring.push x).buf ++ replay).map Prod.fst = _
          rw [h.former, hpush]
          simpa [handedIn] using hflow
        · intro tx htx
          cases htx
        · intro ring' hring
          obtain rfl := ClientSink.detached.inj hring
          show (ring.ring.evicted.elim ring.dropped (noteDrop ring.dropped)).entries = []
          rw [hev]
          exact h.dropped ring hsink
  | taken => simpa [handedIn] using h
  | attach hidle hsink hclosed =>
      have hopen := h.receiver _ hsink
      rw [hclosed] at hopen
      cases hopen
  | @flush gaps ring hidle hsink hgaps =>
      have hnil : gaps = [] := by
        have hperm := hgaps.1
        rw [ClientRing.gaps, h.dropped ring hsink] at hperm
        exact hperm.eq_nil
      refine of_attached rfl rfl h.former ?_
      have hflow := h.flow_detached hsink
      rw [hidle] at hflow
      simpa [handedIn, hnil] using hflow
  | @consume tx tx' hsink hrecv =>
      have hopen := h.receiver _ hsink
      have haccepted := Channel.accepted_recv hrecv
      obtain ⟨-, x, queue, -, rfl⟩ := Channel.recv_eq_some hrecv
      refine of_attached rfl hopen h.former ?_
      rw [haccepted]
      simpa [handedIn] using h.flow_attached hsink
  | dropStream => cases hok

theorem init (ringCapacity buffer : Nat) : Intact [] (.init ringCapacity buffer) where
  flow := rfl
  receiver tx htx := by cases htx
  former := rfl
  dropped ring hring := by
    obtain rfl := ClientSink.detached.inj hring
    rfl

/-- What the consumer has received is a first part of what was handed in. -/
theorem received_initial (h : Intact handed o) : o.received <+: handed.map Prod.fst := by
  have hpart : o.received <+: o.accepted := by
    unfold ClientOutput.received ClientOutput.accepted ClientOutput.streams
    rw [h.former]
    cases o.sink with
    | attached tx => simpa using tx.taken_initial
    | detached ring => exact ⟨[], rfl⟩
  exact hpart.trans ⟨_, h.flow⟩

end Intact

theorem Intact.received_of_drained {handed : List (MarketEvent × String)} {o : ClientOutput}
    (h : Intact handed o) (hdrained : o.Drained) : o.received = handed.map Prod.fst := by
  have hflow := h.flow
  rw [hdrained.buffered, hdrained.replay] at hflow
  rw [hdrained.received]
  simpa using hflow

/-! ### The hub's broadcast -/

/-- The transitions of a provider that the client has let through. -/
def Multiplex.letThrough (m : Multiplex) (provider : String) : List MarketEvent :=
  transitions provider (m.items.map Prod.fst)

/-- What is asked of the provider and of the pace of the consumer: each
substream is sent the hub's transitions in order, each to a channel with room, and the
sink loses nothing. -/
def Multiplex.Broadcast (provider : String) (hub : List MarketEvent) (m : Multiplex) :
    MultiplexAction → Prop
  | .forward p ev => ∀ r ∈ (m.feed p).solo.2, r.tx.hasRoom = true ∧
      ((ev.connState provider).isSome →
        hub[(transitions provider r.tx.accepted).length]? = some (ev.stampSeq ⟨0⟩))
  | .sink a => m.client.output.Lossless a
  | _ => True

/-- A substream that takes its next transition has delivered all those the client has
let through, or all but an odd number of them. -/
def Multiplex.InStep (provider : String) (m : Multiplex) : MultiplexAction → Prop
  | .receive p => ∀ tx ∈ m.substream p, ∀ ev ∈ tx.queue.head?, (ev.connState provider).isSome →
      let behind := (m.letThrough provider).length - (transitions provider tx.taken).length
      behind = 0 ∨ behind % 2 = 1
  | _ => True

instance (provider : String) (hub : List MarketEvent) (m : Multiplex) :
    DecidablePred (m.Broadcast provider hub)
  | .forward p _ => inferInstanceAs (Decidable (∀ r ∈ (m.feed p).solo.2, _))
  | .sink a => inferInstanceAs (Decidable (m.client.output.Lossless a))
  | .renew .. | .subscribe .. | .unsubscribe .. | .receive .. | .substreamEnd .. | .close .. =>
      .isTrue trivial

instance (provider : String) (m : Multiplex) : DecidablePred (m.InStep provider)
  | .receive p => inferInstanceAs (Decidable (∀ tx ∈ m.substream p, _))
  | .forward .. | .renew .. | .subscribe .. | .unsubscribe .. | .substreamEnd .. | .close ..
  | .sink .. => .isTrue trivial

namespace ClientController

variable {c : ClientController} {provider : String} {p : Pair} {ev : MarketEvent}

/-- Another event leaves the recorded state of the provider as it is. -/
theorem seen_route_of_none (h : ev.connState provider = none) :
    (c.route p ev).2.seenProviderState.lookup provider =
      c.seenProviderState.lookup provider := by
  have hnote : ∀ q new, q ≠ provider → (c.noteConn q new).2.seenProviderState.lookup provider =
      c.seenProviderState.lookup provider := by
    intro q new hq
    unfold noteConn
    split
    · rfl
    · exact AList.lookup_insert_ne hq.symm
  cases ev with
  | control ctl =>
      obtain ⟨_, _, _, kind⟩ := ctl
      cases kind with
      | providerConnected q | providerDisconnected q _ _ =>
          refine hnote q _ ?_
          intro hq
          simp [MarketEvent.connState, hq] at h
      | providerError q message =>
          show (c.duplicateError q message).2.seenProviderState.lookup provider = _
          unfold duplicateError
          split <;> rfl
      | _ => rfl
  | _ => rfl

theorem noteConn_spec (c : ClientController) (provider : String) (new : ConnState) :
    (c.noteConn provider new).2.seenProviderState.lookup provider = some new ∧
    ((c.noteConn provider new).1 = true ↔ c.seenProviderState.lookup provider ≠ some new) := by
  unfold noteConn
  split
  · next hseen => exact ⟨hseen, by simp [hseen]⟩
  · next hseen => exact ⟨AList.lookup_insert _, by simp [hseen]⟩

/-- A transition is let through when it is not to the recorded state, which it becomes. -/
theorem route_of_some {s : ConnState} (h : ev.connState provider = some s) :
    (c.route p ev).2.seenProviderState.lookup provider = some s ∧
    (c.seenProviderState.lookup provider = some s → (c.route p ev).1 = none) ∧
    (c.seenProviderState.lookup provider ≠ some s → (c.route p ev).1.isSome) := by
  cases ev with
  | control ctl =>
      obtain ⟨_, _, _, kind⟩ := ctl
      cases kind with
      | providerConnected q | providerDisconnected q _ _ =>
          obtain ⟨rfl, hs⟩ := Option.ite_none_right_eq_some.mp h
          obtain ⟨hlookup, hnew⟩ := c.noteConn_spec q s
          obtain rfl := Option.some.inj hs
          refine ⟨hlookup, ?_, ?_⟩
          · intro hseen
            exact if_neg fun hyes => hnew.mp hyes hseen
          · intro hseen
            exact (congrArg Option.isSome (if_pos (hnew.mpr hseen))).trans rfl
      | _ => cases h
  | _ => cases h

end ClientController

namespace Multiplex

variable {provider : String} {hub : List MarketEvent} {m m' : Multiplex}

structure Coalesced (provider : String) (hub : List MarketEvent) (m : Multiplex) : Prop where
  initial : m.letThrough provider <+: hub
  seen : m.client.seenProviderState.lookup provider =
    (m.letThrough provider).getLast?.bind (MarketEvent.connState provider)
  referrer : ∀ p r, (m.feed p).solo.2 = some r → r.pending = none ∧ r.tx.isOpen = true
  cached : ∀ p ev, (m.feed p).solo.1 = some ev → ev.connState provider = none
  sent : ∀ p tx, m.substream p = some tx → transitions provider tx.accepted <+: hub
  behind : ∀ p tx, m.substream p = some tx →
    (transitions provider tx.taken).length ≤ (m.letThrough provider).length
  sink : Intact m.items m.client.output

/-- What a step does to what is let through, in all but the receipt of a transition. -/
theorem letThrough_of_items {xs : List (MarketEvent × String)} (h : m'.items = m.items ++ xs)
    (hxs : ∀ x ∈ xs, x.1.connState provider = none) :
    m'.letThrough provider = m.letThrough provider := by
  have hnone : transitions provider (xs.map Prod.fst) = [] := by
    simp only [transitions, List.map_eq_nil_iff, List.filter_eq_nil_iff]
    intro ev hev
    obtain ⟨x, hx, rfl⟩ := List.mem_map.mp hev
    simp [hxs x hx]
  rw [letThrough, letThrough, h, List.map_append, transitions_append, hnone, List.append_nil]

/-- The hub's next transition is to the state the client has not recorded. -/
theorem Coalesced.seen_ne (h : Coalesced provider hub m) (hhub : Alternating provider hub)
    {ev : MarketEvent} (hev : hub[(m.letThrough provider).length]? = some ev) :
    m.client.seenProviderState.lookup provider ≠ ev.connState provider := by
  have hsome := hhub.transition ev (List.mem_of_getElem? hev)
  rw [h.seen]
  rcases List.eq_nil_or_concat (m.letThrough provider) with hnil | ⟨init, last, hlast⟩
  · rw [hnil]
    intro heq
    rw [← heq] at hsome
    cases hsome
  · rw [List.concat_eq_append] at hlast
    have hprev : hub[init.length]? = some last := by
      obtain ⟨rest, hrest⟩ := h.initial
      rw [← hrest, hlast]
      simp
    rw [hlast, List.length_append, List.length_singleton] at hev
    rw [hlast, List.getLast?_concat]
    exact hhub.ne_next hprev hev

/-- One an odd number behind is to the state it has recorded. -/
theorem Coalesced.seen_eq (h : Coalesced provider hub m) (hhub : Alternating provider hub)
    {j : Nat} {ev : MarketEvent} (hev : hub[j]? = some ev)
    (hodd : ((m.letThrough provider).length - j) % 2 = 1) :
    m.client.seenProviderState.lookup provider = ev.connState provider := by
  rw [h.seen]
  rcases List.eq_nil_or_concat (m.letThrough provider) with hnil | ⟨init, last, hlast⟩
  · rw [hnil, List.length_nil, Nat.zero_sub] at hodd
    cases hodd
  · rw [List.concat_eq_append] at hlast
    have hprev : hub[init.length]? = some last := by
      obtain ⟨rest, hrest⟩ := h.initial
      rw [← hrest, hlast]
      simp
    rw [hlast, List.length_append, List.length_singleton] at hodd
    rw [hlast, List.getLast?_concat]
    have hk : init.length = j + 2 * ((init.length - j) / 2) := by omega
    rw [hk] at hprev
    exact (hhub.eq_of_even hev _ hprev).symm

/-- A transition off a substream that is in step. -/
theorem Coalesced.route (h : Coalesced provider hub m) (hhub : Alternating provider hub)
    {p : Pair} {ev : MarketEvent} {j : Nat} {s : ConnState} (hev : ev.connState provider = some s)
    (hj : hub[j]? = some (ev.stampSeq ⟨0⟩)) (hle : j ≤ (m.letThrough provider).length)
    (hstep : (m.letThrough provider).length - j = 0 ∨ ((m.letThrough provider).length - j) % 2 = 1)
    {t : Multiplex} (hclient : t.client = m.client) (hitems : t.items = m.items) :
    (t.route p ev).letThrough provider <+: hub ∧
    (t.route p ev).client.seenProviderState.lookup provider =
      ((t.route p ev).letThrough provider).getLast?.bind (MarketEvent.connState provider) ∧
    (m.letThrough provider).length ≤ ((t.route p ev).letThrough provider).length ∧
    j < ((t.route p ev).letThrough provider).length := by
  obtain ⟨hseen, hsame, hnew⟩ :=
    ClientController.route_of_some (c := t.client) (p := p) hev
  have hseen' : (t.route p ev).client.seenProviderState.lookup provider = some s := by
    rw [seenProviderState_route, hseen]
  have hlet : (t.route p ev).letThrough provider = m.letThrough provider ++
      transitions provider ((t.client.route p ev).1.toList.map Prod.fst) := by
    rw [letThrough, letThrough, items_route_eq, hitems, List.map_append, transitions_append]
  have hstamp : (ev.stampSeq ⟨0⟩).connState provider = some s := by simpa using hev
  rcases hstep with hstep | hstep
  · -- the furthest substream: the transition is new
    have hj' : j = (m.letThrough provider).length := by omega
    subst hj'
    have hne := h.seen_ne hhub hj
    rw [hstamp, ← hclient] at hne
    obtain ⟨x, hx⟩ := Option.isSome_iff_exists.mp (hnew hne)
    have hpass : (t.route p ev).letThrough provider =
        m.letThrough provider ++ [ev.stampSeq ⟨0⟩] := by
      rw [hlet, hx, ← transitions_of_some hev]
      simp [ClientController.route_event hx]
    rw [hpass, hseen', List.getLast?_concat]
    refine ⟨?_, hstamp.symm, by simp, by simp⟩
    obtain ⟨rest, hrest⟩ := h.initial
    rw [← hrest, List.getElem?_append_right le_rfl, Nat.sub_self] at hj
    obtain ⟨rest', rfl⟩ : ∃ rest', rest = ev.stampSeq ⟨0⟩ :: rest' := by
      cases rest with
      | nil => cases hj
      | cons x rest' =>
          obtain rfl := Option.some.inj hj
          exact ⟨rest', rfl⟩
    exact ⟨rest', by rw [← hrest]; simp⟩
  · -- a lagging one, in step: the transition is to the recorded state
    have heq := h.seen_eq hhub hj hstep
    rw [hstamp, ← hclient] at heq
    have hpass : (t.route p ev).letThrough provider = m.letThrough provider := by
      rw [hlet, hsame heq]
      simp
    rw [hpass]
    refine ⟨h.initial, ?_, le_rfl, by omega⟩
    rw [hseen', ← h.seen, ← hclient, heq]

/-- With room and nothing owed, a referrer is sent the event itself. -/
theorem fanout_of_room {r : Referrer} (hnone : r.pending = none) (hopen : r.tx.isOpen = true)
    (hroom : r.tx.hasRoom = true) (ev : MarketEvent) :
    r.fanout ev = some { r with tx := { r.tx with queue := r.tx.queue ++ [ev] } } := by
  unfold Referrer.fanout Referrer.relay Channel.trySend
  rw [hnone]
  simp [hopen, hroom]

theorem connState_of_activation {ev : MarketEvent} (h : ev.isActivation = true) :
    ev.connState provider = none := by
  cases ev with
  | control c =>
      obtain ⟨_, _, _, kind⟩ := c
      cases kind with
      | subscriptionChanged => rfl
      | _ => cases h
  | _ => cases h

/-- What the hub has sent on a substream stays a first part of its sequence, and what
the client took off it stays behind what it let through. -/
theorem Coalesced.pair {a : MultiplexAction} (h : Coalesced provider hub m)
    (hok : m.Broadcast provider hub a) (hstep : m.step a = some m')
    (hlen : (m.letThrough provider).length ≤ (m'.letThrough provider).length)
    (hreceive : ∀ q tx ev, a = .receive q → m.substream q = some tx → tx.queue.head? = some ev →
      (transitions provider (tx.taken ++ [ev])).length ≤ (m'.letThrough provider).length)
    (q : Pair) :
    (∀ r, (m'.feed q).solo.2 = some r → r.pending = none ∧ r.tx.isOpen = true) ∧
    (∀ ev, (m'.feed q).solo.1 = some ev → ev.connState provider = none) ∧
    ∀ tx, m'.substream q = some tx → transitions provider tx.accepted <+: hub ∧
      (transitions provider tx.taken).length ≤ (m'.letThrough provider).length := by
  have hsame : ∀ tx, m.substream q = some tx → transitions provider tx.accepted <+: hub ∧
      (transitions provider tx.taken).length ≤ (m'.letThrough provider).length :=
    fun tx htx => ⟨h.sent q tx htx, (h.behind q tx htx).trans hlen⟩
  have hpair := pair_cases hstep q
  rw [Multiplex.substream]
  generalize m'.feed q = f at hpair
  generalize m'.ended q = e at hpair
  cases hpair with
  | other => exact ⟨h.referrer q, h.cached q, hsame⟩
  | @forward ev f hf =>
      obtain ⟨-, -, hcached, hreferrer⟩ := Feed.forward_eq_some hf
      refine ⟨?_, ?_, ?_⟩
      · intro r' hr'
        rw [hreferrer] at hr'
        obtain ⟨r, hr, hfan⟩ := Option.bind_eq_some_iff.mp hr'
        obtain ⟨hnone, hopen⟩ := h.referrer q r hr
        -- there is room, so nothing is pending after the send either
        rw [fanout_of_room hnone hopen (hok r hr).1] at hfan
        obtain rfl := Option.some.inj hfan
        exact ⟨hnone, hopen⟩
      · intro last hlast
        rw [hcached] at hlast
        split_ifs at hlast with hact
        · obtain rfl := Option.some.inj hlast
          exact connState_of_activation hact
        · exact h.cached q last hlast
      · intro tx htx
        cases hr : (m.feed q).solo.2 with
        | none =>
            rw [hreferrer, hr, Option.bind_none] at htx
            exact hsame tx (by rw [substream_of_ended hr]; exact htx)
        | some r =>
            obtain ⟨hnone, hopen⟩ := h.referrer q r hr
            obtain ⟨hroom, hnext⟩ := hok r hr
            rw [hreferrer, hr, Option.bind_some, fanout_of_room hnone hopen hroom] at htx
            obtain rfl := Option.some.inj htx
            obtain ⟨hinit, hle⟩ := hsame r.tx (substream_of_referrer hr)
            refine ⟨?_, hle⟩
            rw [Channel.accepted, ← List.append_assoc, transitions_append]
            change transitions provider r.tx.accepted ++ _ <+: hub
            -- a transition of the provider is the one the hub's sequence has next
            cases hs : ev.connState provider with
            | none =>
                rw [transitions_of_none (by simpa using hs), List.append_nil]
                exact hinit
            | some s =>
                rw [transitions_of_some (s := s) (by simpa using hs), MarketEvent.stampSeq_stampSeq]
                have hget := hnext (by simp [hs])
                obtain ⟨rest, hrest⟩ := hinit
                rw [← hrest, List.getElem?_append_right le_rfl, Nat.sub_self] at hget
                rw [← hrest, List.prefix_append_right_inj]
                cases rest with
                | nil => cases hget
                | cons x rest =>
                    obtain rfl := Option.some.inj hget
                    exact ⟨rest, rfl⟩
  | renewIdle hr =>
      refine ⟨by simp [Feed.new], by simp [Feed.new], ?_⟩
      intro tx htx
      exact hsame tx (by rw [substream_of_ended hr]; exact htx)
  | renew hr =>
      refine ⟨by simp [Feed.new], by simp [Feed.new], ?_⟩
      intro tx htx
      exact hsame tx (by rw [substream_of_referrer hr]; exact htx)
  | subscribe =>
      have hjoined : transitions provider (FanOut.joined ⟨∅, (m.feed q).solo.1, false⟩
          (.new defaultBuffer)).accepted = [] ∧
          (FanOut.joined ⟨∅, (m.feed q).solo.1, false⟩ (.new defaultBuffer)).taken = [] ∧
          (FanOut.joined ⟨∅, (m.feed q).solo.1, false⟩ (.new defaultBuffer)).isOpen = true := by
        -- a subscriber that joins late is shown an activation at most, which is no transition
        cases hlast : (m.feed q).solo.1 with
        | none => exact ⟨rfl, rfl, rfl⟩
        | some ev => exact ⟨transitions_of_none (h.cached q ev hlast), rfl, rfl⟩
      refine ⟨?_, h.cached q, ?_⟩
      · intro r hr
        obtain rfl := Option.some.inj hr
        exact ⟨rfl, hjoined.2.2⟩
      · intro tx htx
        obtain rfl := Option.some.inj htx
        rw [hjoined.1, hjoined.2.1]
        exact ⟨List.nil_prefix, Nat.zero_le _⟩
  | unsubscribe | substreamEnd =>
      refine ⟨by simp [Feed.leave], h.cached q, ?_⟩
      intro tx htx
      cases htx
  | @receive ev queue r hr hqueue =>
      refine ⟨?_, h.cached q, ?_⟩
      · intro r' hr'
        obtain rfl := Option.some.inj hr'
        exact h.referrer q r hr
      · intro tx htx
        obtain rfl := Option.some.inj htx
        refine ⟨?_, hreceive q r.tx ev rfl (substream_of_referrer hr) (by simp [hqueue])⟩
        have hinit := (hsame r.tx (substream_of_referrer hr)).1
        simpa [Channel.accepted, hqueue] using hinit
  | @receiveEnded ev queue tx hr htx hqueue =>
      have htx₀ : m.substream q = some tx := (substream_of_ended hr).trans htx
      refine ⟨h.referrer q, h.cached q, ?_⟩
      intro tx' htx'
      rw [hr] at htx'
      obtain rfl := Option.some.inj htx'
      refine ⟨?_, hreceive q tx ev rfl htx₀ (by simp [hqueue])⟩
      have hinit := (hsame tx htx₀).1
      simpa [Channel.accepted, hqueue] using hinit

theorem Coalesced.sink_step {a : MultiplexAction} (h : Coalesced provider hub m)
    (hok : m.Broadcast provider hub a) (hstep : m.step a = some m') :
    Intact m'.items m'.client.output := by
  rcases sink_of_step hstep with ⟨ho, hi⟩ | ⟨sa, hsa, ho, hi⟩
  · rw [ho, hi]
    exact h.sink
  · rw [hi]
    refine h.sink.step ?_ ho
    rcases hsa with rfl | ⟨x, rfl⟩
    · exact hok
    · trivial

/-- What an event taken off a substream does to what is let through. -/
theorem Coalesced.receipt (h : Coalesced provider hub m) (hhub : Alternating provider hub)
    {p : Pair} {ev : MarketEvent} {queue : List MarketEvent} {tx : Channel MarketEvent}
    (hinstep : m.InStep provider (.receive p)) (htx : m.substream p = some tx)
    (hqueue : tx.queue = ev :: queue) {t : Multiplex} (hclient : t.client = m.client)
    (hitems : t.items = m.items) :
    (t.route p ev).letThrough provider <+: hub ∧
    (t.route p ev).client.seenProviderState.lookup provider =
      ((t.route p ev).letThrough provider).getLast?.bind (MarketEvent.connState provider) ∧
    (m.letThrough provider).length ≤ ((t.route p ev).letThrough provider).length ∧
    (transitions provider (tx.taken ++ [ev])).length ≤
      ((t.route p ev).letThrough provider).length := by
  have hle := h.behind p tx htx
  cases hs : ev.connState provider with
  | none =>
      -- no word of the provider: nothing is coalesced, and nothing let through
      have hlet : (t.route p ev).letThrough provider = m.letThrough provider := by
        have hrouted : (t.route p ev).items = m.items ++ (t.client.route p ev).1.toList := by
          rw [items_route_eq, hitems]
        refine letThrough_of_items hrouted ?_
        intro x hx
        rw [ClientController.route_event (Option.mem_toList.mp hx)]
        exact hs
      rw [hlet, seenProviderState_route, ClientController.seen_route_of_none hs, hclient,
        transitions_append, transitions_of_none hs, List.append_nil]
      exact ⟨h.initial, h.seen, le_rfl, hle⟩
  | some s =>
      -- its place in the hub's sequence is how many were taken off this substream before
      have hj : hub[(transitions provider tx.taken).length]? = some (ev.stampSeq ⟨0⟩) := by
        obtain ⟨rest, hrest⟩ := h.sent p tx htx
        have hcons : transitions provider (ev :: queue) =
            ev.stampSeq ⟨0⟩ :: transitions provider queue := by
          simp [transitions, hs]
        rw [← hrest, Channel.accepted, hqueue, transitions_append, hcons]
        simp
      have hodd := hinstep tx htx ev (by simp [hqueue]) (by simp [hs])
      obtain ⟨hinit, hseen, hlen, hlt⟩ := h.route hhub hs hj hle hodd hclient hitems (p := p)
      refine ⟨hinit, hseen, hlen, ?_⟩
      rw [transitions_append, transitions_of_some hs, List.length_append, List.length_singleton]
      exact hlt

/-- What a step lets through: a first part of the hub's notices that the client has seen, no
shorter than before, nor than what the substream it receives from has handed over. -/
structure LetsThrough (provider : String) (hub : List MarketEvent) (m : Multiplex)
    (a : MultiplexAction) (m' : Multiplex) : Prop where
  initial : m'.letThrough provider <+: hub
  seen : m'.client.seenProviderState.lookup provider =
    (m'.letThrough provider).getLast?.bind (MarketEvent.connState provider)
  grown : (m.letThrough provider).length ≤ (m'.letThrough provider).length
  taken : ∀ q tx ev, a = .receive q → m.substream q = some tx → tx.queue.head? = some ev →
    (transitions provider (tx.taken ++ [ev])).length ≤ (m'.letThrough provider).length

/-- A step that receives nothing and hands no notice over. -/
theorem Coalesced.letsThrough_local {a : MultiplexAction} (h : Coalesced provider hub m)
    {xs : List (MarketEvent × String)} (hno : ∀ q, a ≠ .receive q)
    (hseen : m'.client.seenProviderState = m.client.seenProviderState)
    (hitems : m'.items = m.items ++ xs) (hxs : ∀ x ∈ xs, x.1.connState provider = none) :
    LetsThrough provider hub m a m' := by
  have hlet := letThrough_of_items hitems hxs
  refine ⟨?_, ?_, ?_, fun q _ _ hq => absurd hq (hno q)⟩
  · rw [hlet]
    exact h.initial
  · rw [hlet, hseen]
    exact h.seen
  · rw [hlet]

/-- The receipt of the front of a substream. -/
theorem Coalesced.letsThrough_receive (h : Coalesced provider hub m)
    (hhub : Alternating provider hub) {p : Pair} {t : Multiplex} {tx : Channel MarketEvent}
    {ev : MarketEvent} {queue : List MarketEvent} (hinstep : m.InStep provider (.receive p))
    (htx : m.substream p = some tx) (hqueue : tx.queue = ev :: queue)
    (hclient : t.client = m.client) (hitems : t.items = m.items) :
    LetsThrough provider hub m (.receive p) (t.route p ev) := by
  obtain ⟨hinit, hseen, hlen, htaken⟩ := h.receipt hhub hinstep htx hqueue hclient hitems
  refine ⟨hinit, hseen, hlen, fun q tx' ev' hq htx' hev' => ?_⟩
  obtain rfl := MultiplexAction.receive.inj hq
  obtain rfl := Option.some.inj (htx.symm.trans htx')
  rw [hqueue] at hev'
  obtain rfl := Option.some.inj hev'
  exact htaken

theorem Coalesced.letsThrough {a : MultiplexAction} (h : Coalesced provider hub m)
    (hhub : Alternating provider hub) (hinstep : m.InStep provider a)
    (hstep : m.step a = some m') : LetsThrough provider hub m a m' := by
  have hnone : ∀ x ∈ ([] : List (MarketEvent × String)), x.1.connState provider = none :=
    fun _ hx => absurd hx List.not_mem_nil
  cases step_cases hstep with
  | forward | renewIdle | renew | subscribe | sink =>
      exact h.letsThrough_local (fun _ hq => (by cases hq)) rfl (List.append_nil _).symm hnone
  | unsubscribe | substreamEnd | close =>
      refine h.letsThrough_local (fun _ hq => (by cases hq)) rfl (items_hand _ _ _) ?_
      intro x hx
      obtain rfl := List.mem_singleton.mp hx
      rfl
  | receive hidle hr hqueue =>
      exact h.letsThrough_receive hhub hinstep (substream_of_referrer hr) hqueue rfl rfl
  | receiveEnded hidle hr htx hqueue =>
      exact h.letsThrough_receive hhub hinstep ((substream_of_ended hr).trans htx) hqueue rfl rfl

theorem Coalesced.step {a : MultiplexAction} (h : Coalesced provider hub m)
    (hhub : Alternating provider hub) (hok : m.Broadcast provider hub a)
    (hinstep : m.InStep provider a) (hstep : m.step a = some m') : Coalesced provider hub m' := by
  have hthrough := h.letsThrough hhub hinstep hstep
  have hpair := h.pair hok hstep hthrough.grown hthrough.taken
  exact ⟨hthrough.initial, hthrough.seen, fun q => (hpair q).1, fun q => (hpair q).2.1,
    fun q tx htx => ((hpair q).2.2 tx htx).1, fun q tx htx => ((hpair q).2.2 tx htx).2,
    h.sink_step hok hstep⟩

theorem Coalesced.init (ringCapacity : Nat) : Coalesced provider hub (init ringCapacity) where
  initial := List.nil_prefix
  seen := rfl
  referrer p r hr := by cases hr
  cached p ev hev := by cases hev
  sent p tx htx := by cases htx
  behind p tx htx := by cases htx
  sink := .init ringCapacity defaultBuffer

/-- In every run in which the substreams are in step, the connection controls the
consumer receives are the hub's transitions, each once and in order; and all of them
once a substream that has been sent them all is drained, and so is the consumer. -/
theorem transitions_received {ringCapacity : Nat} {as : List MultiplexAction}
    (hhub : Alternating provider hub)
    (hok : Meets Multiplex.step (Broadcast provider hub) (Multiplex.init ringCapacity) as)
    (hinstep : Meets Multiplex.step (InStep provider) (Multiplex.init ringCapacity) as)
    (h : run Multiplex.step (Multiplex.init ringCapacity) as = some m) :
    transitions provider m.client.output.received <+: hub ∧
    ∀ p tx, m.substream p = some tx → transitions provider tx.accepted = hub →
      tx.queue = [] → m.client.output.Drained →
      transitions provider m.client.output.received = hub := by
  have hinv : Coalesced provider hub m := by
    refine invariant_of_meets (P := Coalesced provider hub) ?_ (.init ringCapacity)
      (hok.and hinstep) h
    intro m a m' hP hboth hstep
    exact hP.step hhub hboth.1 hboth.2 hstep
  refine ⟨(transitions_initial hinv.sink.received_initial).trans hinv.initial, ?_⟩
  intro p tx htx hall hqueue hdrained
  rw [hinv.sink.received_of_drained hdrained]
  have hbehind := hinv.behind p tx htx
  have htaken : transitions provider tx.taken = hub := by
    rw [← hall, Channel.accepted, hqueue, List.append_nil]
  rw [htaken] at hbehind
  exact hinv.initial.eq_of_length_le hbehind

/-- The hub's transitions: up, then down. -/
def upDown : List MarketEvent :=
  [.control ⟨10, 10, ⟨0⟩, .providerConnected "p"⟩,
    .control ⟨20, 20, ⟨0⟩, .providerDisconnected "p" "gone" .error⟩]

theorem alternating_upDown : Alternating "p" upDown := ⟨by decide, by decide⟩

def msftTrades : Pair := (⟨"p", .equity, "MSFT"⟩, .trade)
def nvdaTrades : Pair := (⟨"p", .equity, "NVDA"⟩, .trade)

/-- Both are subscribed and the stream taken, and the hub broadcasts. -/
def broadcastRun : List MultiplexAction :=
  [.subscribe msftTrades "p", .subscribe nvdaTrades "p", .sink (.take [])] ++
  upDown.flatMap fun ev => [.forward msftTrades ev, .forward nvdaTrades ev]

/-- The second substream is taken from at the pace of the first. -/
def abreast : List MultiplexAction :=
  [.receive msftTrades, .sink .proceed, .receive nvdaTrades, .receive msftTrades,
    .sink .proceed, .receive nvdaTrades, .sink .consume, .sink .consume]

/-- The second substream is taken from after the first. -/
def lagging : List MultiplexAction :=
  [.receive msftTrades, .sink .proceed, .receive msftTrades, .sink .proceed,
    .receive nvdaTrades, .sink .proceed, .receive nvdaTrades, .sink .proceed,
    .sink .consume, .sink .consume, .sink .consume, .sink .consume]

theorem transitions_received_abreast : ∃ m,
    run Multiplex.step (Multiplex.init 16) (broadcastRun ++ abreast) = some m ∧
    transitions "p" m.client.output.received = upDown := by
  have hstate : ∃ m, run Multiplex.step (Multiplex.init 16) (broadcastRun ++ abreast) = some m ∧
      ∃ tx, m.substream nvdaTrades = some tx ∧ transitions "p" tx.accepted = upDown ∧
        tx.queue = [] ∧ m.client.output.streams.map Channel.queue = [[]] ∧
        m.client.output.buffered = [] ∧ m.client.output.replay = [] :=
    ⟨_, rfl, _, rfl, rfl, rfl, rfl, rfl, rfl⟩
  obtain ⟨m, hrun, tx, htx, hall, hqueue, hstreams, hbuffered, hreplay⟩ := hstate
  obtain ⟨-, hdrained⟩ := transitions_received alternating_upDown (by decide) (by decide) hrun
  refine ⟨m, hrun, hdrained nvdaTrades tx htx hall hqueue ⟨?_, hbuffered, hreplay⟩⟩
  intro c hc
  have hmem := List.mem_map_of_mem (f := Channel.queue) hc
  rw [hstreams] at hmem
  exact List.mem_singleton.mp hmem

/-- The lagging substream is two behind when it takes the first transition: the
consumer receives both transitions twice. -/
theorem not_coalesced_lagging : ∃ m,
    Meets Multiplex.step (Broadcast "p" upDown) (Multiplex.init 16) (broadcastRun ++ lagging) ∧
    run Multiplex.step (Multiplex.init 16) (broadcastRun ++ lagging) = some m ∧
    transitions "p" m.client.output.received = upDown ++ upDown ∧
    ¬ transitions "p" m.client.output.received <+: upDown := by
  refine ⟨_, by decide, rfl, rfl, ?_⟩
  decide

end Multiplex

end Datamancer
