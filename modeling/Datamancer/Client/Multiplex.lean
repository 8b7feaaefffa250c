import Datamancer.Client.Controller
import Datamancer.Client.Ledger

/-!
# Datamancer.Client.Multiplex

One client session at work: the authoritative sessions of its pairs, the client
controller between them and the consumer, and the consumer.

The controller takes one item at a time, off a substream or off its commands, and
finishes delivering it before the next. A pair may be subscribed, given up and
subscribed again, to the same authoritative session or to a later one; each
subscription is told apart by how often its pair had been subscribed (`epoch`), and
`handed` records the calls of `deliver` with the subscription each came from.
-/

namespace Datamancer

open ActionSystem

/-- A subscription of a client. -/
abbrev Subscription := Pair × Nat

/-- A call of `deliver`: of an event of a subscription, or of a control of the client's
own. -/
structure Handed where
  origin : Option Subscription
  item : MarketEvent × String

structure Multiplex where
  feed : Pair → Feed
  /-- A substream that the authoritative session has closed, still to be drained. -/
  ended : Pair → Option (Channel MarketEvent)
  client : ClientController
  epoch : Pair → Nat
  handed : List Handed
  /-- The client controller has left its loop. -/
  closed : Bool

inductive MultiplexAction
  /-- The authoritative controller of a pair forwards an event. -/
  | forward (p : Pair) (ev : MarketEvent)
  /-- The authoritative session of a pair ends; its successor starts afresh. -/
  | renew (p : Pair)
  /-- `Subscribe` succeeds; the guard names this provider. -/
  | subscribe (p : Pair) (provider : String)
  | unsubscribe (p : Pair) (now : Timestamp)
  /-- The next event of a substream. -/
  | receive (p : Pair)
  /-- A substream is drained and closed (`handle_substream_end`). -/
  | substreamEnd (p : Pair) (now : Timestamp)
  /-- `Close`, or the client handle dropped. -/
  | close (now : Timestamp)
  /-- What the sink or the consumer does. -/
  | sink (a : SinkAction)

/-- The pair whose authoritative session or substream an action is of. -/
def MultiplexAction.pair : MultiplexAction → Option Pair
  | .forward p _ | .renew p | .subscribe p _ | .unsubscribe p _ | .receive p
  | .substreamEnd p _ => some p
  | .close _ | .sink _ => none

namespace Multiplex

/-- A client session before its first subscription. -/
def init (ringCapacity : Nat) : Multiplex where
  feed _ := .new
  ended _ := none
  client := ⟨∅, ∅, ∅, .init ringCapacity defaultBuffer⟩
  epoch _ := 0
  handed := []
  closed := false

/-- The controller polls its substreams and its commands. -/
def idle (m : Multiplex) : Bool := m.client.output.replay.isEmpty && !m.closed

def setFeed (m : Multiplex) (p : Pair) (f : Feed) : Multiplex :=
  { m with feed := Function.update m.feed p f }

def setEnded (m : Multiplex) (p : Pair) (tx : Option (Channel MarketEvent)) : Multiplex :=
  { m with ended := Function.update m.ended p tx }

def setOutput (m : Multiplex) (o : ClientOutput) : Multiplex :=
  { m with client := { m.client with output := o } }

/-- Begin to deliver an item. -/
def hand (m : Multiplex) (origin : Option Subscription) (x : MarketEvent × String) : Multiplex :=
  { m.setOutput { m.client.output with replay := [x] } with
    handed := m.handed ++ [⟨origin, x⟩] }

/-- Route an event of a substream. -/
def route (m : Multiplex) (p : Pair) (ev : MarketEvent) : Multiplex :=
  let routed := m.client.route p ev
  match routed.1 with
  | none => { m with client := routed.2 }
  | some x => { m with client := routed.2 }.hand (some (p, m.epoch p)) x

/-- A subscription is given up or has ended: it is gone, and a client-local
`SubscriptionChanged { active: false }` tells. -/
def giveUp (m : Multiplex) (p : Pair) (provider : String) (now : Timestamp) : Multiplex :=
  { (m.setFeed p (m.feed p).leave).setEnded p none with
    client := { m.client with entries := m.client.entries.erase p } }.hand none
      (subscriptionChanged p provider false now, provider)

def step (m : Multiplex) : MultiplexAction → Option Multiplex
  | .forward p ev => ((m.feed p).forward ev).map (m.setFeed p)
  | .renew p =>
      match (m.feed p).solo.2 with
      | none => some (m.setFeed p .new)
      -- what was sent before the end is still in the channel
      | some r => some ((m.setFeed p .new).setEnded p (some r.tx))
  | .subscribe p provider =>
      if m.idle && (m.client.entries.lookup p).isNone then
        some { m.setFeed p (m.feed p).join with
          client := { m.client with entries := m.client.entries.insert p provider }
          epoch := Function.update m.epoch p (m.epoch p + 1) }
      else none
  | .unsubscribe p now =>
      match m.client.entries.lookup p with
      | some provider => if m.idle then some (m.giveUp p provider now) else none
      | none => none
  | .receive p =>
      if m.idle then
        match (m.feed p).solo.2, m.ended p with
        | some r, _ =>
            match r.tx.queue.head?, r.recv with
            | some ev, some r =>
                some ((m.setFeed p { m.feed p with
                  solo := ((m.feed p).solo.1, some r) }).route p ev)
            | _, _ => none
        | none, some tx =>
            match tx.queue.head?, tx.recv with
            | some ev, some tx => some ((m.setEnded p (some tx)).route p ev)
            | _, _ => none
        | none, none => none
      else none
  | .substreamEnd p now =>
      match m.ended p, m.client.entries.lookup p with
      | some tx, some provider =>
          if m.idle && tx.queue.isEmpty then some (m.giveUp p provider now) else none
      | _, _ => none
  | .close now =>
      if m.idle then some { m.hand none (clientClosing now, "") with closed := true } else none
  -- a deliver begins with an event routed, and never by itself
  | .sink (.deliver _) => none
  | .sink (.take gaps) =>
      if m.closed then none else (m.client.output.step (.take gaps)).map m.setOutput
  | .sink a => (m.client.output.step a).map m.setOutput

/-! ### Inversion of a step -/

/-- What each action can do, with what it needs. -/
inductive Step (m : Multiplex) : MultiplexAction → Multiplex → Prop
  | forward {p ev f} (hf : (m.feed p).forward ev = some f) : Step m (.forward p ev) (m.setFeed p f)
  | renewIdle {p} (hr : (m.feed p).solo.2 = none) : Step m (.renew p) (m.setFeed p .new)
  | renew {p r} (hr : (m.feed p).solo.2 = some r) :
      Step m (.renew p) ((m.setFeed p .new).setEnded p (some r.tx))
  | subscribe {p provider} (hidle : m.idle = true) (hp : m.client.entries.lookup p = none) :
      Step m (.subscribe p provider) { m.setFeed p (m.feed p).join with
        client := { m.client with entries := m.client.entries.insert p provider }
        epoch := Function.update m.epoch p (m.epoch p + 1) }
  | unsubscribe {p now provider} (hidle : m.idle = true)
      (hp : m.client.entries.lookup p = some provider) :
      Step m (.unsubscribe p now) (m.giveUp p provider now)
  | receive {p ev queue r} (hidle : m.idle = true) (hr : (m.feed p).solo.2 = some r)
      (hqueue : r.tx.queue = ev :: queue) (hopen : r.tx.isOpen = true) :
      Step m (.receive p) ((m.setFeed p { m.feed p with solo := ((m.feed p).solo.1,
        some { r with tx := { r.tx with queue, taken := r.tx.taken ++ [ev] } }) }).route p ev)
  | receiveEnded {p ev queue tx} (hidle : m.idle = true) (hr : (m.feed p).solo.2 = none)
      (htx : m.ended p = some tx) (hqueue : tx.queue = ev :: queue) (hopen : tx.isOpen = true) :
      Step m (.receive p)
        ((m.setEnded p (some { tx with queue, taken := tx.taken ++ [ev] })).route p ev)
  | substreamEnd {p now provider tx} (hidle : m.idle = true) (htx : m.ended p = some tx)
      (hqueue : tx.queue = []) (hp : m.client.entries.lookup p = some provider) :
      Step m (.substreamEnd p now) (m.giveUp p provider now)
  | close {now} (hidle : m.idle = true) :
      Step m (.close now) { m.hand none (clientClosing now, "") with closed := true }
  | sink {a o} (hdeliver : ∀ x, a ≠ .deliver x) (ho : m.client.output.step a = some o) :
      Step m (.sink a) (m.setOutput o)

theorem step_cases {m m' : Multiplex} {a : MultiplexAction} (h : m.step a = some m') :
    Step m a m' := by
  cases a with
  | forward p ev =>
      obtain ⟨f, hf, rfl⟩ := Option.map_eq_some_iff.mp h
      exact .forward hf
  | renew p =>
      simp only [step] at h
      split at h
      · obtain rfl := Option.some.inj h
        exact .renewIdle ‹_›
      · obtain rfl := Option.some.inj h
        exact .renew ‹_›
  | subscribe p provider =>
      obtain ⟨hidle, h⟩ := Option.ite_none_right_eq_some.mp h
      obtain rfl := Option.some.inj h
      obtain ⟨hidle, hp⟩ := Bool.and_eq_true_iff.mp hidle
      exact .subscribe hidle (Option.isNone_iff_eq_none.mp hp)
  | unsubscribe p now =>
      simp only [step] at h
      split at h
      · obtain ⟨hidle, h⟩ := Option.ite_none_right_eq_some.mp h
        obtain rfl := Option.some.inj h
        exact .unsubscribe hidle ‹_›
      · cases h
  | receive p =>
      obtain ⟨hidle, h⟩ := Option.ite_none_right_eq_some.mp h
      split at h
      · next r hr =>
        split at h
        · next ev r' hhead hrecv =>
          obtain rfl := Option.some.inj h
          obtain ⟨tx, htx, rfl⟩ := Option.map_eq_some_iff.mp hrecv
          obtain ⟨hopen, ev', queue, hqueue, rfl⟩ := Channel.recv_eq_some htx
          rw [hqueue] at hhead
          obtain rfl := Option.some.inj hhead
          exact .receive hidle hr hqueue hopen
        · cases h
      · next tx hr htx =>
        split at h
        · next ev tx' hhead hrecv =>
          obtain rfl := Option.some.inj h
          obtain ⟨hopen, ev', queue, hqueue, rfl⟩ := Channel.recv_eq_some hrecv
          rw [hqueue] at hhead
          obtain rfl := Option.some.inj hhead
          exact .receiveEnded hidle hr htx hqueue hopen
        · cases h
      · cases h
  | substreamEnd p now =>
      simp only [step] at h
      split at h
      · obtain ⟨hboth, h⟩ := Option.ite_none_right_eq_some.mp h
        obtain rfl := Option.some.inj h
        obtain ⟨hidle, hqueue⟩ := Bool.and_eq_true_iff.mp hboth
        exact .substreamEnd hidle ‹_› (List.isEmpty_iff.mp hqueue) ‹_›
      · cases h
  | close now =>
      obtain ⟨hidle, h⟩ := Option.ite_none_right_eq_some.mp h
      obtain rfl := Option.some.inj h
      exact .close hidle
  | sink a =>
      have hsink : (∀ x, a ≠ .deliver x) ∧
          ∃ o, m.client.output.step a = some o ∧ m.setOutput o = m' := by
        cases a with
        | deliver x => cases h
        | take gaps =>
            obtain ⟨-, h⟩ := Option.ite_none_left_eq_some.mp h
            exact ⟨fun x hx => (by cases hx), Option.map_eq_some_iff.mp h⟩
        | proceed | consume | dropStream =>
            exact ⟨fun x hx => (by cases hx), Option.map_eq_some_iff.mp h⟩
      obtain ⟨hdeliver, o, ho, rfl⟩ := hsink
      exact .sink hdeliver ho

/-! ### One pair -/

/-- The channel of a subscription, as its receiver has it. -/
def substream (m : Multiplex) (p : Pair) : Option (Channel MarketEvent) :=
  match (m.feed p).solo.2 with
  | some r => some r.tx
  | none => m.ended p

theorem substream_of_referrer {m : Multiplex} {p : Pair} {r : Referrer}
    (hr : (m.feed p).solo.2 = some r) :
    m.substream p = some r.tx := by
  simp [substream, hr]

theorem substream_of_ended {m : Multiplex} {p : Pair} (hr : (m.feed p).solo.2 = none) :
    m.substream p = m.ended p := by
  simp [substream, hr]

theorem feed_setFeed (m : Multiplex) (p q : Pair) (f : Feed) :
    (m.setFeed p f).feed q = if q = p then f else m.feed q := by
  simp [setFeed, Function.update_apply]

theorem ended_setEnded (m : Multiplex) (p q : Pair) (tx : Option (Channel MarketEvent)) :
    (m.setEnded p tx).ended q = if q = p then tx else m.ended q := by
  simp [setEnded, Function.update_apply]

/-- What an action does to the authoritative session and the substream of one pair. -/
inductive PairStep (m : Multiplex) (q : Pair) :
    MultiplexAction → Feed → Option (Channel MarketEvent) → Prop
  | other {a} (ha : a.pair ≠ some q) : PairStep m q a (m.feed q) (m.ended q)
  | forward {ev f} (hf : (m.feed q).forward ev = some f) :
      PairStep m q (.forward q ev) f (m.ended q)
  | renewIdle (hr : (m.feed q).solo.2 = none) : PairStep m q (.renew q) .new (m.ended q)
  | renew {r} (hr : (m.feed q).solo.2 = some r) : PairStep m q (.renew q) .new (some r.tx)
  | subscribe {provider} : PairStep m q (.subscribe q provider) (m.feed q).join (m.ended q)
  | unsubscribe {now} : PairStep m q (.unsubscribe q now) (m.feed q).leave none
  | receive {ev queue r} (hr : (m.feed q).solo.2 = some r) (hqueue : r.tx.queue = ev :: queue) :
      PairStep m q (.receive q) { m.feed q with solo := ((m.feed q).solo.1,
        some { r with tx := { r.tx with queue, taken := r.tx.taken ++ [ev] } }) } (m.ended q)
  | receiveEnded {ev queue tx} (hr : (m.feed q).solo.2 = none) (htx : m.ended q = some tx)
      (hqueue : tx.queue = ev :: queue) :
      PairStep m q (.receive q) (m.feed q) (some { tx with queue, taken := tx.taken ++ [ev] })
  | substreamEnd {now} : PairStep m q (.substreamEnd q now) (m.feed q).leave none

@[simp] theorem feed_route (m : Multiplex) (p : Pair) (ev : MarketEvent) :
    (m.route p ev).feed = m.feed := by
  unfold route
  cases hx : (m.client.route p ev).1 <;> simp [hx, hand, setOutput]

@[simp] theorem ended_route (m : Multiplex) (p : Pair) (ev : MarketEvent) :
    (m.route p ev).ended = m.ended := by
  unfold route
  cases hx : (m.client.route p ev).1 <;> simp [hx, hand, setOutput]

theorem pair_cases {m m' : Multiplex} {a : MultiplexAction} (h : m.step a = some m') (q : Pair) :
    PairStep m q a (m'.feed q) (m'.ended q) := by
  by_cases hq : a.pair = some q
  · cases step_cases h with
    | forward hf =>
        obtain rfl := Option.some.inj hq
        simpa [setFeed] using PairStep.forward hf
    | renewIdle hr =>
        obtain rfl := Option.some.inj hq
        simpa [setFeed] using PairStep.renewIdle hr
    | renew hr =>
        obtain rfl := Option.some.inj hq
        simpa [setFeed, setEnded] using PairStep.renew hr
    | subscribe hidle hp =>
        obtain rfl := Option.some.inj hq
        simpa [setFeed] using PairStep.subscribe
    | unsubscribe hidle hp =>
        obtain rfl := Option.some.inj hq
        simpa [giveUp, hand, setOutput, setFeed, setEnded] using PairStep.unsubscribe
    | receive hidle hr hqueue hopen =>
        obtain rfl := Option.some.inj hq
        simpa [setFeed] using PairStep.receive hr hqueue
    | receiveEnded hidle hr htx hqueue hopen =>
        obtain rfl := Option.some.inj hq
        simpa [setEnded] using PairStep.receiveEnded hr htx hqueue
    | substreamEnd hidle htx hqueue hp =>
        obtain rfl := Option.some.inj hq
        simpa [giveUp, hand, setOutput, setFeed, setEnded] using PairStep.substreamEnd
    | close hidle => cases hq
    | sink hdeliver ho => cases hq
  -- a step of another pair touches neither the feed nor the channel of this one
  · have hother := PairStep.other (m := m) hq
    cases step_cases h with
    | forward | renewIdle | renew | subscribe | unsubscribe | receive | receiveEnded
    | substreamEnd =>
        have hne : q ≠ _ := fun heq => hq (congrArg some heq.symm)
        simpa [giveUp, hand, setOutput, setFeed, setEnded, hne] using hother
    | close hidle => exact hother
    | sink hdeliver ho => exact hother

/-! ### What is handed in -/

variable {m m' : Multiplex}

/-- The items handed to `deliver`, in order. -/
def items (m : Multiplex) : List (MarketEvent × String) := m.handed.map Handed.item

theorem items_route (p : Pair) (ev : MarketEvent) :
    ((m.route p ev).items = m.items ∧ (m.route p ev).client.output = m.client.output) ∨
    ∃ x, x.1 = ev ∧ (m.route p ev).items = m.items ++ [x] ∧
      (m.route p ev).client.output = { m.client.output with replay := [x] } := by
  unfold Multiplex.route
  cases hx : (m.client.route p ev).1 with
  | none =>
      simp only [hx]
      exact .inl ⟨rfl, by simp⟩
  | some x =>
      simp only [hx]
      refine .inr ⟨x, ClientController.route_event hx, ?_, ?_⟩
      · simp [items, Multiplex.hand, setOutput]
      · simp [Multiplex.hand, setOutput]

theorem items_route_eq (m : Multiplex) (p : Pair) (ev : MarketEvent) :
    (m.route p ev).items = m.items ++ (m.client.route p ev).1.toList := by
  unfold Multiplex.route
  cases hx : (m.client.route p ev).1 <;> simp [hx, items, hand, setOutput]

theorem seenProviderState_route (m : Multiplex) (p : Pair) (ev : MarketEvent) :
    (m.route p ev).client.seenProviderState = (m.client.route p ev).2.seenProviderState := by
  unfold Multiplex.route
  cases hx : (m.client.route p ev).1 <;> simp [hx, hand, setOutput]

theorem items_hand (m : Multiplex) (origin : Option Subscription) (x : MarketEvent × String) :
    (m.hand origin x).items = m.items ++ [x] := List.map_append

theorem replay_of_idle (h : m.idle = true) : m.client.output.replay = [] := by
  unfold idle at h
  exact List.isEmpty_iff.mp (Bool.and_eq_true_iff.mp h).1

/-- A step makes at most one move of the sink, its own or the begin of a deliver, and
hands in what that move delivers. -/
theorem sink_of_step {a : MultiplexAction} (hstep : m.step a = some m') :
    (m'.client.output = m.client.output ∧ m'.items = m.items) ∨
    ∃ sa, (a = .sink sa ∨ ∃ x, sa = .deliver x) ∧
      m.client.output.step sa = some m'.client.output ∧ m'.items = m.items ++ handedIn [sa] := by
  have hdeliver : ∀ x : MarketEvent × String, m.idle = true →
      m.client.output.step (.deliver x) = some { m.client.output with replay := [x] } := by
    intro x hidle
    simp [ClientOutput.step, replay_of_idle hidle]
  have hroute : ∀ (t : Multiplex) (p : Pair) (ev : MarketEvent), m.idle = true →
      t.client = m.client → t.handed = m.handed →
      (((t.route p ev).client.output = m.client.output ∧ (t.route p ev).items = m.items) ∨
        ∃ sa, (a = .sink sa ∨ ∃ x, sa = .deliver x) ∧
          m.client.output.step sa = some (t.route p ev).client.output ∧
          (t.route p ev).items = m.items ++ handedIn [sa]) := by
    intro t p ev hidle hclient hhanded
    have hitems : t.items = m.items := by rw [items, items, hhanded]
    rcases items_route (m := t) p ev with ⟨hi, ho⟩ | ⟨x, -, hi, ho⟩
    · exact .inl ⟨by rw [ho, hclient], by rw [hi, hitems]⟩
    · refine .inr ⟨.deliver x, .inr ⟨x, rfl⟩, ?_, by rw [hi, hitems]; rfl⟩
      rw [hdeliver x hidle, ho, hclient]
  cases step_cases hstep with
  | forward | renewIdle | renew | subscribe => exact .inl ⟨rfl, rfl⟩
  | unsubscribe hidle | substreamEnd hidle =>
      exact .inr ⟨.deliver _, .inr ⟨_, rfl⟩, hdeliver _ hidle, items_hand _ _ _⟩
  | receive hidle | receiveEnded hidle => exact hroute _ _ _ hidle rfl rfl
  | close hidle => exact .inr ⟨.deliver _, .inr ⟨_, rfl⟩, hdeliver _ hidle, items_hand _ _ _⟩
  | @sink a o hnot ho =>
      refine .inr ⟨a, .inl rfl, ho, ?_⟩
      cases a with
      | deliver x => exact absurd rfl (hnot x)
      | _ => simp [items, setOutput, handedIn]

/-- The sink keeps the account of what was handed in. -/
theorem ledger_of_run {ringCapacity : Nat} {as : List MultiplexAction}
    (h : run step (init ringCapacity) as = some m) :
    ∃ acc drops buf todo lost, Ledger m.items m.client.output acc drops buf todo lost := by
  refine invariant (P := fun m => ∃ acc drops buf todo lost,
    Ledger m.items m.client.output acc drops buf todo lost) ?_ ?_ h
  · intro m a m' hP hstep
    obtain ⟨acc, drops, buf, todo, lost, hledger⟩ := hP
    rcases sink_of_step hstep with ⟨ho, hi⟩ | ⟨sa, -, hsa, hi⟩
    · rw [ho, hi]
      exact ⟨acc, drops, buf, todo, lost, hledger⟩
    · rw [hi]
      exact hledger.step hsa
  · exact ⟨[], [], [], [], [], .init ringCapacity defaultBuffer⟩

end Multiplex

end Datamancer
