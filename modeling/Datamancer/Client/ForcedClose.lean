import Datamancer.Client.Multiplex
import Datamancer.Session.ForcedClose

/-!
# Datamancer.Client.ForcedClose

Whether a `Close` of a client session is answered without the consumer
(`ClientController::run`, `ClientController::handle_command`, `deliver`).

The client controller finishes a delivery before it polls its commands, as the
controller of a historical session does, and so can be starved as that one can. It waits
for the consumer in one place more: re-attaching flushes a ring that may hold more than
the new channel has room for.
-/

namespace Datamancer

open ActionSystem (Meets run)

/-! ### The sink -/

namespace ClientOutput

variable {o o' : ClientOutput}

/-- The sink takes `n` more events at once: there is room, or nobody to wait for. -/
def Takes (o : ClientOutput) (n : Nat) : Prop :=
  ∀ tx, o.sink = .attached tx → tx.isOpen = true → tx.queue.length + n ≤ tx.cap

/-- A delivery is under way that waits for the consumer. -/
structure Blocked (o : ClientOutput) : Prop where
  replay : o.replay ≠ []
  takes : ¬ o.Takes 1

/-- The condition: what is under way after the step finds the sink ready for it. -/
def Roomy (o : ClientOutput) : SinkAction → Prop
  | .deliver _ => o.Takes 1
  | .proceed => o.replay.tail ≠ [] → o.Takes 2
  | .take _ | .consume | .dropStream => True

theorem takes_of_detached {ring : ClientRing} (h : o.sink = .detached ring) (n : Nat) :
    o.Takes n := by
  intro tx htx
  cases h.symm.trans htx

theorem takes_attached {tx : Channel MarketEvent} {n : Nat} (h : o.sink = .attached tx) :
    o.Takes n ↔ (tx.isOpen = true → tx.queue.length + n ≤ tx.cap) := by
  refine ⟨fun htakes => htakes tx h, fun hroom tx' htx' => ?_⟩
  cases h.symm.trans htx'
  exact hroom

theorem deliver_of_takes (h : o.Takes 1) (x : MarketEvent × String) :
    ∃ o', o.deliver x = some o' := by
  unfold deliver
  cases hsink : o.sink with
  | detached ring => exact ⟨_, rfl⟩
  | attached tx =>
      dsimp only
      rcases tx.trySend_cases x.1 with ⟨-, -, hs⟩ | ⟨hopen, hfull, -⟩ | ⟨-, hs⟩
      · rw [hs]
        exact ⟨_, rfl⟩
      · have hroom := (takes_attached hsink).mp h hopen
        simp only [Channel.hasRoom, decide_eq_false_iff_not] at hfull
        omega
      · rw [hs]
        exact ⟨_, rfl⟩

theorem deliver_of_not_takes (h : ¬ o.Takes 1) (x : MarketEvent × String) :
    o.deliver x = none := by
  unfold deliver
  cases hsink : o.sink with
  | detached ring => exact absurd (takes_of_detached hsink 1) h
  | attached tx =>
      rw [takes_attached hsink] at h
      obtain ⟨hopen, hfull⟩ := Classical.not_imp.mp h
      rcases tx.trySend_cases x.1 with ⟨-, hroom, -⟩ | ⟨-, -, hs⟩ | ⟨hclosed, -⟩
      · simp only [Channel.hasRoom, decide_eq_true_eq] at hroom
        omega
      · simp only [hs]
      · cases hclosed.symm.trans hopen

theorem proceed_of_takes (hreplay : o.replay ≠ []) (h : o.Takes 1) :
    ∃ o', o.step .proceed = some o' := by
  obtain ⟨x, replay, hx⟩ := List.exists_cons_of_ne_nil hreplay
  rw [step, hx]
  exact deliver_of_takes (o := { o with replay }) h x

theorem Blocked.proceed (h : o.Blocked) : o.step .proceed = none := by
  obtain ⟨x, replay, hx⟩ := List.exists_cons_of_ne_nil h.replay
  rw [step, hx]
  exact deliver_of_not_takes (o := { o with replay }) h.takes x

theorem buffer_step {a : SinkAction} (h : o.step a = some o') : o'.buffer = o.buffer := by
  cases step_cases h <;> rfl

/-- A step of a sink that is not blocked leaves it so exactly if it finds room. -/
theorem blocked_step {a : SinkAction} (hbuffer : 0 < o.buffer) (hfree : ¬ o.Blocked)
    (h : o.step a = some o') : ¬ o'.Blocked ↔ o.Roomy a := by
  cases step_cases h with
  | deliver hidle =>
      refine ⟨fun hfree' => ?_, fun htakes hblocked => hblocked.takes htakes⟩
      show o.Takes 1
      by_contra htakes
      exact hfree' ⟨by simp, htakes⟩
  | @send x replay tx tx' hreplay hsink hsend =>
      obtain ⟨hopen, rfl⟩ := Channel.eq_of_sent hsend
      have hroom : o.Takes 2 ↔ tx.queue.length + 2 ≤ tx.cap := by
        simp [takes_attached hsink, hopen]
      have hafter :
          { o with replay, sink := .attached { tx with queue := tx.queue ++ [x.1] } }.Takes 1 ↔
            tx.queue.length + 2 ≤ tx.cap := by
        rw [takes_attached rfl]
        simp only [hopen, true_imp_iff, List.length_append, List.length_singleton, Nat.add_assoc]
      show _ ↔ (o.replay.tail ≠ [] → o.Takes 2)
      rw [hreplay, List.tail_cons, hroom, ← hafter]
      refine ⟨fun hfree' hmore => ?_, fun htakes hblocked => ?_⟩
      · by_contra htakes
        exact hfree' ⟨hmore, htakes⟩
      · exact hblocked.takes (htakes hblocked.replay)
  | @detach x replay tx hreplay hsink hsend =>
      have hclosed := Channel.isOpen_of_closed hsend
      refine iff_of_true (fun hblocked => hblocked.takes (takes_of_detached rfl 1)) fun _ => ?_
      simp [takes_attached hsink, hclosed]
  | push hreplay hsink =>
      exact iff_of_true (fun hblocked => hblocked.takes (takes_of_detached rfl 1))
        fun _ => takes_of_detached hsink 2
  | taken hidle hsink hopen => exact iff_of_true hfree trivial
  | attach hidle hsink hclosed =>
      exact iff_of_true (fun hblocked => hblocked.replay hidle) trivial
  -- the new channel is empty
  | flush hidle hsink hgaps =>
      refine iff_of_true (fun hblocked => hblocked.takes ?_) trivial
      rw [takes_attached rfl]
      intro _
      show 0 + 1 ≤ o.buffer
      omega
  -- a receive frees a slot, and what did not block before does not block now
  | @consume tx tx' hsink hrecv =>
      obtain ⟨hopen, ev, queue, hqueue, rfl⟩ := Channel.recv_eq_some hrecv
      refine iff_of_true (fun hblocked => hfree ⟨hblocked.replay, fun htakes => ?_⟩) trivial
      refine hblocked.takes ((takes_attached rfl).mpr fun _ => ?_)
      have hroom := (takes_attached hsink).mp htakes hopen
      simp only [hqueue, List.length_cons] at hroom ⊢
      omega
  | dropStream hsink hopen =>
      refine iff_of_true (fun hblocked => hblocked.takes ?_) trivial
      rw [takes_attached rfl]
      intro hclosed
      cases hclosed

end ClientOutput

/-! ### The controller -/

/-- The steps of the client controller. -/
def MultiplexAction.isOwn : MultiplexAction → Bool
  | .subscribe _ _ | .unsubscribe _ _ | .receive _ | .substreamEnd _ _ | .close _
  | .sink .proceed | .sink (.take _) => true
  | .forward _ _ | .renew _ | .sink (.deliver _) | .sink .consume | .sink .dropStream => false

namespace Multiplex

variable {m m' : Multiplex}

/-- The next event of a pair's substream. -/
def nextEvent (m : Multiplex) (p : Pair) : Option MarketEvent :=
  (m.substream p).bind fun tx => tx.queue.head?

/-- The step begins a delivery: of a control of the client's own, or of an event that is not
coalesced away. -/
def hands (m : Multiplex) : MultiplexAction → Bool
  | .unsubscribe _ _ | .substreamEnd _ _ | .close _ => true
  | .receive p => (m.nextEvent p).any fun ev => (m.client.route p ev).1.isSome
  | .forward _ _ | .renew _ | .subscribe _ _ | .sink _ => false

/-- The condition on a step of the controller taken with a `Close` sent. -/
def Roomy (m : Multiplex) : MultiplexAction → Prop
  | .sink a => m.client.output.Roomy a
  | a => m.hands a = true → m.client.output.Takes 1

/-- A step that is not of the sink begins the delivery it hands in, if any. -/
theorem output_of_hands {a : MultiplexAction} (hsink : ∀ sa, a ≠ .sink sa)
    (h : m.step a = some m') :
    (m.hands a = true ∧ ∃ x, m.client.output.step (.deliver x) = some m'.client.output) ∨
      (m.hands a = false ∧ m'.client.output = m.client.output) := by
  have hdeliver : ∀ x : MarketEvent × String, m.idle = true →
      m.client.output.step (.deliver x) = some { m.client.output with replay := [x] } := by
    intro x hidle
    simp [ClientOutput.step, replay_of_idle hidle]
  have hroute : ∀ (t : Multiplex) (p : Pair) (ev : MarketEvent), m.idle = true →
      t.client = m.client →
      ((m.client.route p ev).1.isSome = true ∧
        ∃ x, m.client.output.step (.deliver x) = some (t.route p ev).client.output) ∨
      ((m.client.route p ev).1.isSome = false ∧
        (t.route p ev).client.output = m.client.output) := by
    intro t p ev hidle hclient
    unfold Multiplex.route
    simp only [hclient]
    cases hx : (m.client.route p ev).1 with
    | none => exact .inr ⟨rfl, by simp⟩
    | some x =>
        refine .inl ⟨rfl, x, ?_⟩
        rw [hdeliver x hidle]
        simp [hand, setOutput]
  cases step_cases h with
  | forward | renewIdle | renew | subscribe => exact .inr ⟨rfl, rfl⟩
  | unsubscribe hidle | substreamEnd hidle | close hidle =>
      exact .inl ⟨rfl, _, hdeliver _ hidle⟩
  | receive hidle hr hqueue =>
      simp only [hands, nextEvent, substream_of_referrer hr, hqueue, Option.bind_some,
        List.head?_cons, Option.any_some]
      exact hroute _ _ _ hidle rfl
  | receiveEnded hidle hr htx hqueue =>
      simp only [hands, nextEvent, substream_of_ended hr, htx, hqueue, Option.bind_some,
        List.head?_cons, Option.any_some]
      exact hroute _ _ _ hidle rfl
  | sink => exact absurd rfl (hsink _)

/-- A step of a client that is not blocked leaves it so exactly if it finds room. -/
theorem blocked_step {a : MultiplexAction} (hbuffer : 0 < m.client.output.buffer)
    (hfree : ¬ m.client.output.Blocked) (h : m.step a = some m') :
    ¬ m'.client.output.Blocked ↔ m.Roomy a := by
  by_cases hsink : ∃ sa, a = .sink sa
  · obtain ⟨sa, rfl⟩ := hsink
    cases step_cases h with
    | sink hdeliver ho => exact ClientOutput.blocked_step hbuffer hfree ho
  · have hno : ∀ sa, a ≠ .sink sa := fun sa heq => hsink ⟨sa, heq⟩
    have hroomy : m.Roomy a ↔ (m.hands a = true → m.client.output.Takes 1) := by
      cases a with
      | sink sa => exact absurd rfl (hno sa)
      | _ => rfl
    rw [hroomy]
    rcases output_of_hands hno h with ⟨hhands, x, hx⟩ | ⟨hhands, ho⟩
    · rw [ClientOutput.blocked_step hbuffer hfree hx]
      exact ⟨fun htakes _ => htakes, fun htakes => htakes hhands⟩
    · rw [ho]
      refine iff_of_true hfree fun hb => ?_
      cases hhands.symm.trans hb

theorem buffer_step {a : MultiplexAction} (h : m.step a = some m') :
    m'.client.output.buffer = m.client.output.buffer := by
  rcases sink_of_step h with ⟨ho, -⟩ | ⟨sa, -, ho, -⟩
  · rw [ho]
  · exact ClientOutput.buffer_step ho

/-- A blocked controller has no step. -/
theorem step_of_blocked {a : MultiplexAction} (hblocked : m.client.output.Blocked)
    (hown : a.isOwn = true) : m.step a = none := by
  have hidle : m.idle = false := by simp [idle, hblocked.replay]
  cases h : m.step a with
  | none => rfl
  | some m' =>
      cases step_cases h with
      | forward | renewIdle | renew => cases hown
      | subscribe hidle' | unsubscribe hidle' | receive hidle' | receiveEnded hidle'
      | substreamEnd hidle' | close hidle' => cases hidle.symm.trans hidle'
      | @sink sa o hdeliver ho =>
          cases ClientOutput.step_cases ho with
          | deliver | consume | dropStream => cases hown
          | send | detach | push => cases hblocked.proceed.symm.trans ho
          | taken hempty | attach hempty | flush hempty => exact absurd hempty hblocked.replay

end Multiplex

/-! ### The handle -/

/-- A client controller with the handle it is spawned with. -/
structure SpawnedClient where
  mux : Multiplex
  /-- A `Close` has been sent. -/
  closeSent : Bool
  /-- Whether the handle is held; `close` consumes it. -/
  held : Bool

inductive SpawnedAction
  | mux (a : MultiplexAction)
  | sendClose
  | dropHandle

/-- The steps of the client controller. -/
def SpawnedAction.isOwn : SpawnedAction → Bool
  | .mux a => a.isOwn
  | .sendClose | .dropHandle => false

namespace SpawnedClient

def spawn (ringCapacity : Nat) : SpawnedClient := ⟨.init ringCapacity, false, true⟩

/-- The controller closes when a `Close` reaches it, or when the handle is gone. -/
def step (c : SpawnedClient) : SpawnedAction → Option SpawnedClient
  | .mux (.close now) =>
      if c.closeSent || !c.held then
        (c.mux.step (.close now)).map fun mux => { c with mux }
      else none
  | .mux a => (c.mux.step a).map fun mux => { c with mux }
  | .sendClose => if c.held then some { c with closeSent := true, held := false } else none
  | .dropHandle => if c.held then some { c with held := false } else none

/-- A `Close` has been sent and is not answered: the controller has not finished delivering
its `SessionClosing`. -/
def CloseSent (c : SpawnedClient) : Prop :=
  c.closeSent = true ∧ ¬ (c.mux.closed = true ∧ c.mux.client.output.replay = [])

/-- The controller has a step. -/
def Moves (c : SpawnedClient) : Prop := ∃ a c', a.isOwn = true ∧ c.step a = some c'

/-- A `Close` waits for an event that waits for the consumer. -/
structure Starved (c : SpawnedClient) : Prop where
  sent : c.closeSent = true
  blocked : c.mux.client.output.Blocked

/-- The condition: what is under way with a `Close` sent, or when it is sent, finds the sink
ready for it. -/
def Roomy (c : SpawnedClient) : SpawnedAction → Prop
  | .mux a => c.closeSent = true → c.mux.Roomy a
  | .sendClose => c.mux.client.output.replay ≠ [] → c.mux.client.output.Takes 1
  | .dropHandle => True

variable {c c' : SpawnedClient}

/-- A step of the multiplex, closing or not. -/
theorem mux_cases {a : MultiplexAction} (h : c.step (.mux a) = some c') :
    ∃ mux, c.mux.step a = some mux ∧ c' = { c with mux } := by
  have hmap : (c.mux.step a).map (fun mux => { c with mux }) = some c' := by
    cases a with
    | close now =>
        rw [step] at h
        split_ifs at h
        exact h
    | _ => exact h
  obtain ⟨mux, hmux, rfl⟩ := Option.map_eq_some_iff.mp hmap
  exact ⟨mux, hmux, rfl⟩

/-- With a `Close` sent the controller has a step, unless it is starved. -/
theorem moves_iff : (c.CloseSent → c.Moves) ↔ ¬ c.Starved := by
  constructor
  · intro hmoves hstarved
    obtain ⟨a, c', hown, hstep⟩ := hmoves ⟨hstarved.sent, fun hdone =>
      hstarved.blocked.replay hdone.2⟩
    cases a with
    | mux a =>
        obtain ⟨mux, hmux, -⟩ := mux_cases hstep
        cases (Multiplex.step_of_blocked hstarved.blocked hown).symm.trans hmux
    | sendClose | dropHandle => cases hown
  · intro hfed hsent
    by_cases hreplay : c.mux.client.output.replay = []
    · -- nothing is under way: the commands are polled
      have hidle : c.mux.idle = true := by
        have hopen : c.mux.closed = false := by simpa [hreplay] using hsent.2
        simp [Multiplex.idle, hreplay, hopen]
      exact ⟨.mux (.close 0), _, rfl, by simp [step, hsent.1, Multiplex.step, hidle]; rfl⟩
    · have htakes : c.mux.client.output.Takes 1 := by
        by_contra htakes
        exact hfed ⟨hsent.1, hreplay, htakes⟩
      obtain ⟨o, ho⟩ := ClientOutput.proceed_of_takes hreplay htakes
      exact ⟨.mux (.sink .proceed), _, rfl, by simp [step, Multiplex.step, ho]; rfl⟩

/-- A step of a client that is not starved leaves it so exactly if it finds room. -/
theorem starved_step {a : SpawnedAction} (hbuffer : 0 < c.mux.client.output.buffer)
    (hfed : ¬ c.Starved) (h : c.step a = some c') : ¬ c'.Starved ↔ c.Roomy a := by
  cases a with
  | mux a =>
      obtain ⟨mux, hmux, rfl⟩ := mux_cases h
      by_cases hsent : c.closeSent = true
      · have hiff := Multiplex.blocked_step hbuffer (fun hblocked => hfed ⟨hsent, hblocked⟩) hmux
        exact ⟨fun hfed' _ => hiff.mp fun hblocked => hfed' ⟨hsent, hblocked⟩,
          fun hroomy hst => hiff.mpr (hroomy hsent) hst.blocked⟩
      · exact iff_of_true (fun hst => hsent hst.sent) fun hs => absurd hs hsent
  | sendClose =>
      rw [step] at h
      split_ifs at h
      obtain rfl := Option.some.inj h
      refine ⟨fun hfed' hreplay => ?_, fun hroomy hst => ?_⟩
      · by_contra htakes
        exact hfed' ⟨rfl, hreplay, htakes⟩
      · exact hst.blocked.takes (hroomy hst.blocked.replay)
  | dropHandle =>
      rw [step] at h
      split_ifs at h
      obtain rfl := Option.some.inj h
      exact iff_of_true (fun hst => hfed ⟨hst.sent, hst.blocked⟩) trivial

theorem buffer_step {a : SpawnedAction} (h : c.step a = some c') :
    c'.mux.client.output.buffer = c.mux.client.output.buffer := by
  cases a with
  | mux a =>
      obtain ⟨mux, hmux, rfl⟩ := mux_cases h
      exact Multiplex.buffer_step hmux
  | sendClose | dropHandle =>
      rw [step] at h
      split_ifs at h
      obtain rfl := Option.some.inj h
      rfl

/-- In every state of a run a `Close` that has been sent has a step of the controller's to
wait for, exactly if every step of the run finds room. -/
theorem moves_along_iff {ringCapacity : Nat} {acts : List SpawnedAction}
    (h : run step (spawn ringCapacity) acts = some c) :
    (∀ before t, before <+: acts → run step (spawn ringCapacity) before = some t →
        t.CloseSent → t.Moves) ↔ Meets step Roomy (spawn ringCapacity) acts := by
  simp only [moves_iff]
  refine ActionSystem.along_iff_meets (I := fun c => 0 < c.mux.client.output.buffer)
    (fun hbuffer hstep => ?_) (fun hbuffer hfed hstep => starved_step hbuffer hfed hstep) ?_ ?_ h
  · rwa [buffer_step hstep]
  · exact Nat.succ_pos _
  · exact fun hst => by cases hst.sent

end SpawnedClient

/-! ### Historical and client sessions -/

/-- A `Close` that has been sent never waits for the consumer in the runs whose steps find
room for what is under way, and in no others. -/
theorem close_moves {σ : Type} :
    (∀ (ctl : Controller σ) (ringCapacity buffer commandCap : Nat) (acts : List HistoricalAction)
      (s : HistoricalSession σ),
      (HistoricalSession.spawn ctl ringCapacity buffer commandCap).run acts = some s →
      ((∀ before t, before <+: acts →
          (HistoricalSession.spawn ctl ringCapacity buffer commandCap).run before = some t →
          t.CloseSent → t.Moves) ↔
        Meets HistoricalSession.step HistoricalSession.Roomy
          (.spawn ctl ringCapacity buffer commandCap) acts))
    ∧ ∀ (ringCapacity : Nat) (acts : List SpawnedAction) (c : SpawnedClient),
      run SpawnedClient.step (.spawn ringCapacity) acts = some c →
      ((∀ before t, before <+: acts →
          run SpawnedClient.step (.spawn ringCapacity) before = some t → t.CloseSent → t.Moves) ↔
        Meets SpawnedClient.step SpawnedClient.Roomy (.spawn ringCapacity) acts) :=
  ⟨fun _ _ _ _ _ _ h => HistoricalSession.moves_along_iff h,
    fun _ _ _ h => SpawnedClient.moves_along_iff h⟩

section Runs

open HistoricalSession (historicalController unreadActions)

/-- A trade is sent into a stream that is never taken, and the session closed. -/
def closedActions : List HistoricalAction :=
  [.plan (.ephemeral 0 ⟨[testTrade "AAPL" 5 ⟨0⟩], .ok⟩), .item, .push, .send .close, .command,
    .push, .proceed]

/-- A client is closed before it subscribes to anything. -/
def closedClient : List SpawnedAction := [.sendClose, .mux (.close 0), .mux (.sink .proceed)]

theorem close_moves_closed :
    (∃ s,
      (HistoricalSession.spawn historicalController 16 defaultBuffer 8).run closedActions = some s ∧
      s.stage = .closed ∧
      ∀ before t, before <+: closedActions →
        (HistoricalSession.spawn historicalController 16 defaultBuffer 8).run before = some t →
        t.CloseSent → t.Moves)
    ∧ ∃ c, run SpawnedClient.step (.spawn 16) closedClient = some c ∧ c.mux.closed = true ∧
      ∀ before t, before <+: closedClient →
        run SpawnedClient.step (.spawn 16) before = some t → t.CloseSent → t.Moves := by
  obtain ⟨s, hs, hclosed⟩ : ∃ s,
      (HistoricalSession.spawn historicalController 16 defaultBuffer 8).run closedActions = some s ∧
        s.stage = .closed := ⟨_, rfl, rfl⟩
  obtain ⟨c, hc, hdone⟩ : ∃ c, run SpawnedClient.step (.spawn 16) closedClient = some c ∧
      c.mux.closed = true := ⟨_, rfl, rfl⟩
  refine ⟨⟨s, hs, hclosed, (close_moves.1 _ _ _ _ _ s hs).mpr (by decide)⟩,
    ⟨c, hc, hdone, ((close_moves (σ := Unit)).2 _ _ c hc).mpr ?_⟩⟩
  -- the client has no consumer yet, so its ring takes the `SessionClosing`
  refine (ActionSystem.meets_cons rfl).mpr ⟨fun hreplay => absurd rfl hreplay, ?_⟩
  refine (ActionSystem.meets_cons rfl).mpr
    ⟨fun _ _ => ClientOutput.takes_of_detached rfl 1, ?_⟩
  exact (ActionSystem.meets_cons rfl).mpr ⟨fun _ hmore => absurd rfl hmore, trivial⟩

/-- A history of one event more than the channel holds, for a stream that is never taken:
the `Close` waits, and no party has a step left. -/
theorem close_starves : ∃ s,
    (HistoricalSession.spawn historicalController 65536 defaultBuffer 8).run
      (unreadActions (List.replicate 1024 (testTrade "AAPL" 5 ⟨0⟩))
        (testTrade "AAPL" 5 ⟨0⟩) []) = some s ∧
    s.CloseSent ∧ ¬ s.Moves ∧ ∀ a, s.step a = none := by
  have hlen : (List.replicate 1024 (testTrade "AAPL" 5 ⟨0⟩)).length = defaultBuffer :=
    List.length_replicate
  obtain ⟨s, hrun, htaken, hstarved⟩ := @HistoricalSession.starved_of_long Unit
    historicalController 65536 defaultBuffer 8 _ [] (testTrade "AAPL" 5 ⟨0⟩) hlen (by decide)
    (by decide)
  refine ⟨s, hrun, hstarved.sent, fun hmoves => ?_,
    HistoricalSession.stuck_of_starved hrun hstarved htaken⟩
  exact HistoricalSession.moves_iff.mp (fun _ => hmoves) (.inl hstarved)

end Runs

end Datamancer
