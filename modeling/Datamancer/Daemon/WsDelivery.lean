import Datamancer.Daemon.WsConnection

/-!
# Datamancer.Daemon.WsDelivery

What a WebSocket connection delivers. Only the pump enqueues event frames, one for each event
it takes from the stream that is no suppressed control, and it never goes on past an event the
sink has rejected; whatever the replies, the health pushers, the writer and the teardown do
meanwhile (`Aside`), the frames are those of an initial part of what the stream has yielded
(`ws_delivery`). A rejection is signalled to the read loop by a permit that only the loop's way
out takes.
-/

namespace Datamancer

namespace Ws

open Transport

variable {encode : EventFrame → Option String}

/-! ### The sink -/

@[simp] theorem eventLines_close (tx : Channel Line) : eventLines tx.close = eventLines tx := rfl

@[simp] theorem eventLines_push_reply (tx : Channel Line) (text : String) :
    eventLines (tx.push (.reply text)) = eventLines tx := by
  simp [eventLines, Line.eventText]

@[simp] theorem eventLines_push_health (tx : Channel Line) (text : String) :
    eventLines (tx.push (.health text)) = eventLines tx := by
  simp [eventLines, Line.eventText]

@[simp] theorem eventLines_push_event (tx : Channel Line) (text : String) :
    eventLines (tx.push (.event text)) = eventLines tx ++ [text] := by
  simp [eventLines, Line.eventText]

theorem eventLines_offer_reply (tx : Channel Line) (text : String) :
    eventLines (tx.offer (.reply text)) = eventLines tx := by
  rcases tx.accepted_offer (.reply text) with h | h
  · simp [eventLines, h, Line.eventText]
  · rw [eventLines, h, eventLines]

theorem eventLines_recv {tx tx' : Channel Line} (h : tx.recv = some tx') :
    eventLines tx' = eventLines tx := by
  rw [eventLines, Channel.accepted_recv h, eventLines]

/-- The sink suppresses an event, enqueues its text in a free slot, or rejects it and leaves
the channel as it was: where it has no text, or the channel is closed or full. -/
theorem publish_cases (encode : EventFrame → Option String) (held : Nat) (tx : Channel Line)
    (ev : MarketEvent) :
    (isSuppressed ev = true ∧ publish encode held tx ev = (.delivered, tx))
    ∨ (∃ text, isSuppressed ev = false ∧ frameText encode ev = some text
        ∧ tx.queue.length + held < tx.cap
        ∧ publish encode held tx ev = (.delivered, tx.push (.event text)))
    ∨ (isSuppressed ev = false
        ∧ (frameText encode ev = none ∨ tx.isOpen = false ∨ tx.cap ≤ tx.queue.length + held)
        ∧ publish encode held tx ev = (.rejected ev, tx)) := by
  unfold publish
  cases hframe : toWire ev with
  | none =>
      have hsuppressed := toWire_eq_none.mp hframe
      cases ev with
      | control c => exact .inl ⟨hsuppressed, rfl⟩
      | _ => cases hsuppressed
  | some frame =>
      have hsent : isSuppressed ev = false := by
        refine Bool.eq_false_iff.mpr fun hsuppressed => ?_
        rw [toWire_eq_none.mpr hsuppressed] at hframe
        cases hframe
      have htext : frameText encode ev = encode frame := by
        rw [frameText, hframe, Option.bind_some]
      cases hencode : encode frame with
      | none => exact .inr (.inr ⟨hsent, .inl (htext.trans hencode), by simp only [hencode]⟩)
      | some text =>
          simp only [hencode]
          rcases tx.trySendPast_cases held (.event text) with
            ⟨-, hroom, hsend⟩ | ⟨-, hfull, hsend⟩ | ⟨hclosed, hsend⟩
          · refine .inr (.inl ⟨text, hsent, htext.trans hencode, hroom, ?_⟩)
            rw [hsend]
          · refine .inr (.inr ⟨hsent, .inr (.inr hfull), ?_⟩)
            rw [hsend]
          · refine .inr (.inr ⟨hsent, .inr (.inl hclosed), ?_⟩)
            rw [hsend]

namespace Conn

/-! ### What a step can do -/

/-- The read loop is told to tear down: it has left, or the permit is there for the select it
is in or comes to. -/
def Signalled (c : Conn) : Prop := c.permit = true ∨ c.loop.Left

/-- What waits in the channel and what is promised a slot of it fit the depth it was made
with. -/
structure Bounded (depth : Nat) (c : Conn) : Prop where
  cap : c.tx.cap = depth
  fits : c.tx.queue.length + c.loop.held ≤ depth

/-- What a step of any party but the pump comes to. -/
structure Aside (c c' : Conn) : Prop where
  lines : eventLines c'.tx = eventLines c.tx
  pump : c'.pump = c.pump
  yielded : c'.yielded = c.yielded
  rejected : c'.rejected = c.rejected
  signalled : c.Signalled → c'.Signalled
  bounded : ∀ depth, c.Bounded depth → c'.Bounded depth

/-- The steps of the pump. -/
inductive PumpStep (encode : EventFrame → Option String) (c : Conn) : Conn → Prop
  | opened (hpump : c.pump = .unspawned) :
      PumpStep encode c { c with loop := .reading, pump := .waiting }
  | yields (ev : MarketEvent) (hpump : c.pump = .waiting) :
      PumpStep encode c { c with pump := .publishing ev, yielded := c.yielded ++ [ev] }
  | streamEnds (hpump : c.pump = .waiting) : PumpStep encode c { c with pump := .ended }
  | suppressed (ev : MarketEvent) (hpump : c.pump = .publishing ev)
      (hsuppressed : isSuppressed ev = true) : PumpStep encode c { c with pump := .waiting }
  | enqueued (ev : MarketEvent) (text : String) (hpump : c.pump = .publishing ev)
      (hsent : isSuppressed ev = false) (htext : frameText encode ev = some text)
      (hroom : c.tx.queue.length + c.loop.held < c.tx.cap) :
      PumpStep encode c { c with tx := c.tx.push (.event text), pump := .waiting }
  | rejects (ev : MarketEvent) (hpump : c.pump = .publishing ev) :
      PumpStep encode c { c with pump := .signalling, rejected := some ev }
  | signals (hpump : c.pump = .signalling) :
      PumpStep encode c { c with pump := .ended, permit := true }

variable {c c' : Conn}

theorem left_grant {loop : Loop} : loop.grant.Left ↔ loop.Left := by
  cases loop with
  | replying d text sending => cases sending <;> exact Iff.rfl
  | _ => exact Iff.rfl

theorem held_grant_le (loop : Loop) : loop.grant.held ≤ loop.held + 1 := by
  cases loop with
  | replying d text sending =>
      cases sending with
      | unpolled => exact Nat.zero_le _
      | queued => exact Nat.le_refl _
      | granted => exact Nat.le_succ _
  | _ => exact Nat.zero_le _

theorem Aside.refl (c : Conn) : Aside c c := ⟨rfl, rfl, rfl, rfl, id, fun _ h => h⟩

/-- A step of the loop that sends nothing: from a loop that was left it does not come back. -/
theorem Aside.of_loop {loop : Loop} {aborted : Bool} (hleft : c.loop.Left → loop.Left)
    (hheld : loop.held = 0) : Aside c { c with loop, aborted } := by
  refine ⟨rfl, rfl, rfl, rfl, Or.imp_right hleft, fun depth h => ⟨h.cap, ?_⟩⟩
  show c.tx.queue.length + loop.held ≤ depth
  rw [hheld]
  exact (Nat.le_add_right _ _).trans h.fits

theorem aside_breakLoop (c : Conn) : Aside c c.breakLoop := .of_loop (fun _ => trivial) rfl

/-- The permit is taken on the way out of the loop. -/
theorem aside_cancelled (c : Conn) : Aside c { c with permit := false }.breakLoop := by
  obtain ⟨hlines, hpump, hyielded, hrejected, -, hbounded⟩ := aside_breakLoop c
  exact ⟨hlines, hpump, hyielded, hrejected, fun _ => .inr trivial,
    fun depth h => ⟨h.cap, (hbounded depth h).fits⟩⟩

/-- A step of the loop that is followed by what its reply asks for. -/
theorem Aside.replied {tx : Channel Line} (hlines : eventLines tx = eventLines c.tx)
    (hloop : ¬ c.loop.Left) (hcap : tx.cap = c.tx.cap)
    (hfits : ∀ depth, c.Bounded depth → tx.queue.length ≤ depth) (d : Dispatched) :
    Aside c ({ c with tx }.replied d) := by
  have hnext : ∀ loop pushers aborted, loop.held = 0 →
      Aside c { c with tx, loop, pushers, aborted } := fun loop pushers aborted hheld =>
    ⟨hlines, rfl, rfl, rfl, fun h => .inl (h.resolve_right hloop),
      fun depth h => ⟨hcap.trans h.cap, by
        show tx.queue.length + loop.held ≤ depth
        rw [hheld]
        exact hfits depth h⟩⟩
  unfold Conn.replied
  dsimp only
  split_ifs
  · exact hnext .closingSession (c.pushers + 1) true rfl
  · exact hnext .closingSession c.pushers true rfl
  · exact hnext .reading (c.pushers + 1) c.aborted rfl
  · exact hnext .reading c.pushers c.aborted rfl

/-- The pump's step on the event in hand is one of three. -/
theorem pumpStep_publish {ev : MarketEvent} (hpump : c.pump = .publishing ev) :
    PumpStep encode c (c.publish encode ev) := by
  unfold Conn.publish
  rcases publish_cases encode c.loop.held c.tx ev with
    ⟨hsuppressed, hpublish⟩ | ⟨text, hsent, htext, hroom, hpublish⟩ | ⟨-, -, hpublish⟩
  · rw [hpublish]
    exact .suppressed ev hpump hsuppressed
  · rw [hpublish]
    exact .enqueued ev text hpump hsent htext hroom
  · rw [hpublish]
    exact .rejects ev hpump

theorem aside_pollSend {d : Dispatched} {text : String} {sending : Sending}
    (hloop : c.loop = .replying d text sending) (h : c.pollSend d text sending = some c') :
    Aside c c' := by
  have hstays : ¬ c.loop.Left := fun hleft => by rwa [hloop] at hleft
  unfold Conn.pollSend at h
  by_cases hopen : c.tx.isOpen = true
  · rw [if_pos hopen] at h
    cases sending with
    | unpolled =>
        dsimp only at h
        split_ifs at h with hroom
        · cases h
          refine .replied (eventLines_push_reply _ _) hstays rfl (fun depth hbounded => ?_) d
          rw [Channel.length_push, ← hbounded.cap]
          exact Nat.succ_le_of_lt (of_decide_eq_true hroom)
        · cases h
          exact .of_loop (fun hleft => absurd hleft hstays) rfl
    | queued => cases h
    | granted =>
        -- the slot was held for this reply
        cases h
        refine .replied (eventLines_push_reply _ _) hstays rfl (fun depth hbounded => ?_) d
        have hfits := hbounded.fits
        rw [hloop] at hfits
        rw [Channel.length_push]
        exact hfits
  · rw [if_neg hopen] at h
    cases h
    exact aside_breakLoop c

theorem aside_healthPush (c : Conn) (text : String) : Aside c (c.healthPush text) := by
  unfold Conn.healthPush
  rcases c.tx.trySendPast_cases c.loop.held (.health text) with
    ⟨-, hroom, hsend⟩ | ⟨-, -, hsend⟩ | ⟨-, hsend⟩
  · rw [hsend]
    refine ⟨eventLines_push_health _ _, rfl, rfl, rfl, id, fun depth h => ⟨h.cap, ?_⟩⟩
    show (c.tx.push (.health text)).queue.length + c.loop.held ≤ depth
    rw [Channel.length_push, ← h.cap]
    omega
  · rw [hsend]
    exact .refl c
  · rw [hsend]
    exact ⟨rfl, rfl, rfl, rfl, id, fun _ h => ⟨h.cap, h.fits⟩⟩

/-- A step is the pump's, or it leaves the pump and the event frames alone. -/
theorem step_cases {a : Action} (h : step encode c a = some c') :
    PumpStep encode c c' ∨ Aside c c' := by
  cases a with
  | opened =>
      simp only [step] at h
      split at h
      · next hloop hpump =>
          cases h
          exact .inl (.opened hpump)
      · cases h
  | openFailed text =>
      simp only [step] at h
      split at h
      · cases h
        refine .inr ⟨eventLines_offer_reply _ _, rfl, rfl, rfl, fun _ => .inr trivial,
          fun depth hbounded => ⟨(Channel.cap_offer _ _).trans hbounded.cap, ?_⟩⟩
        have hlength : c.tx.queue.length ≤ c.tx.cap := by
          rw [hbounded.cap]
          exact (Nat.le_add_right _ _).trans hbounded.fits
        exact (Channel.length_offer_le hlength _).trans_eq hbounded.cap
      · cases h
  | yields ev =>
      simp only [step] at h
      split at h
      · next hpump =>
          cases h
          exact .inl (.yields ev hpump)
      · cases h
  | streamEnds =>
      simp only [step] at h
      split at h
      · next hpump =>
          cases h
          exact .inl (.streamEnds hpump)
      · cases h
  | publish =>
      simp only [step] at h
      split at h
      · next ev hpump =>
          cases h
          exact .inl (pumpStep_publish hpump)
      · cases h
  | signal =>
      simp only [step] at h
      split at h
      · next hpump =>
          cases h
          exact .inl (.signals hpump)
      · cases h
  | shutdown =>
      simp only [step] at h
      split at h
      · cases h
        exact .inr (aside_breakLoop c)
      · cases h
        exact .inr (aside_breakLoop c)
      · cases h
  | cancelled =>
      simp only [step] at h
      split at h
      · cases h
        exact .inr (aside_cancelled c)
      · cases h
        exact .inr (aside_cancelled c)
      · cases h
  | read msg =>
      simp only [step] at h
      split at h
      · next hloop =>
          cases h
          exact .inr (.of_loop (fun hleft => by rwa [hloop] at hleft) rfl)
      · cases h
        exact .inr (.refl c)
      · cases h
        exact .inr (aside_breakLoop c)
      · cases h
  | dispatched d =>
      simp only [step] at h
      split at h
      · next hloop _ =>
          cases h
          exact .inr (.of_loop (fun hleft => by rwa [hloop] at hleft) rfl)
      · next hloop _ =>
          cases h
          exact .inr (Aside.replied rfl (fun hleft => by rwa [hloop] at hleft) rfl
            (fun _ hbounded => (Nat.le_add_right _ _).trans hbounded.fits) d)
      · cases h
  | pollSend =>
      simp only [step] at h
      split at h
      · next hloop => exact .inr (aside_pollSend hloop h)
      · cases h
  | sessionClosed | pumpAwaited | writerAwaited =>
      simp only [step] at h
      split at h
      · cases h
        exact .inr (.of_loop (fun _ => trivial) rfl)
      · cases h
  | killed =>
      cases h
      exact .inr (.of_loop (fun _ => trivial) rfl)
  | healthPush text =>
      simp only [step] at h
      split_ifs at h
      cases h
      exact .inr (aside_healthPush c text)
  | pusherEnds =>
      simp only [step] at h
      split_ifs at h
      cases h
      exact .inr ⟨rfl, rfl, rfl, rfl, id, fun _ h => ⟨h.cap, h.fits⟩⟩
  | recv =>
      simp only [step] at h
      split at h
      · obtain ⟨tx, hrecv, rfl⟩ := Option.map_eq_some_iff.mp h
        refine .inr ⟨eventLines_recv hrecv, rfl, rfl, rfl, Or.imp_right left_grant.mpr,
          fun depth hbounded => ?_⟩
        obtain ⟨-, line, queue, hqueue, rfl⟩ := Channel.recv_eq_some hrecv
        have hfits := hbounded.fits
        have hgrant := held_grant_le c.loop
        rw [hqueue, List.length_cons] at hfits
        refine ⟨hbounded.cap, ?_⟩
        show queue.length + c.loop.grant.held ≤ depth
        omega
      · cases h
  | sent | socketFails =>
      simp only [step] at h
      split at h
      · cases h
        exact .inr ⟨rfl, rfl, rfl, rfl, id, fun _ h => ⟨h.cap, h.fits⟩⟩
      · cases h
  | drained =>
      simp only [step] at h
      split at h
      · split_ifs at h
        cases h
        exact .inr ⟨rfl, rfl, rfl, rfl, id, fun _ h => ⟨h.cap, h.fits⟩⟩
      · cases h
  | socketClosed =>
      simp only [step] at h
      split at h
      · cases h
        exact .inr ⟨eventLines_close _, rfl, rfl, rfl, id, fun _ h => ⟨h.cap, h.fits⟩⟩
      · cases h

/-! ### What is delivered -/

/-- The event the pump has taken from the stream and not delivered. -/
def inHand (c : Conn) : List MarketEvent :=
  match c.pump with
  | .publishing ev => [ev]
  | _ => c.rejected.toList

/-- The event frames are those of all the stream has yielded up to what the pump has in hand. -/
def Delivered (encode : EventFrame → Option String) (c : Conn) : Prop :=
  ∃ published, c.yielded = published ++ c.inHand
    ∧ (eventLines c.tx).map some
      = (published.filter fun ev => !isSuppressed ev).map (frameText encode)

/-- A pump whose event was rejected signals it and ends. -/
structure Inv (encode : EventFrame → Option String) (c : Conn) : Prop where
  delivered : c.Delivered encode
  stopped : c.rejected.isSome → c.pump = .signalling ∨ c.pump = .ended ∧ c.Signalled

theorem inv_init (depth : Nat) : (init depth).Inv encode :=
  ⟨⟨[], rfl, rfl⟩, fun h => (by cases h)⟩

/-- A pump that goes on has had no event rejected. -/
theorem Inv.rejected_eq_none {pump : Pump} (h : c.Inv encode) (hpump : c.pump = pump)
    (hgoes : pump ≠ .signalling ∧ pump ≠ .ended) : c.rejected = none := by
  cases hrejected : c.rejected with
  | none => rfl
  | some ev =>
      rcases h.stopped (by rw [hrejected]; rfl) with hsignals | ⟨hends, -⟩
      · exact absurd (hpump.symm.trans hsignals) hgoes.1
      · exact absurd (hpump.symm.trans hends) hgoes.2

/-- Where no event was rejected there is nothing to signal. -/
theorem Inv.of_none (hnone : c.rejected = none) (hdelivered : c.Delivered encode) :
    c.Inv encode := by
  refine ⟨hdelivered, fun hsome => ?_⟩
  rw [hnone] at hsome
  cases hsome

theorem Inv.aside (h : c.Inv encode) (haside : Aside c c') : c'.Inv encode := by
  have hhand : c'.inHand = c.inHand := by rw [inHand, haside.pump, haside.rejected, inHand]
  constructor
  · obtain ⟨published, hyielded, hlines⟩ := h.delivered
    exact ⟨published, by rw [haside.yielded, hhand, hyielded], by rw [haside.lines, hlines]⟩
  · intro hrejected
    rw [haside.rejected] at hrejected
    rw [haside.pump]
    exact (h.stopped hrejected).imp_right (And.imp_right haside.signalled)

theorem Inv.pumpStep (h : c.Inv encode) (hstep : PumpStep encode c c') : c'.Inv encode := by
  obtain ⟨published, hyielded, hlines⟩ := h.delivered
  cases hstep with
  | opened hpump =>
      have hnone := h.rejected_eq_none hpump (by simp)
      rw [inHand, hpump] at hyielded
      exact .of_none hnone ⟨published, hyielded, hlines⟩
  | yields ev hpump =>
      have hnone := h.rejected_eq_none hpump (by simp)
      rw [inHand, hpump, hnone, Option.toList_none, List.append_nil] at hyielded
      exact .of_none hnone ⟨published, congrArg (· ++ [ev]) hyielded, hlines⟩
  | streamEnds hpump =>
      have hnone := h.rejected_eq_none hpump (by simp)
      rw [inHand, hpump] at hyielded
      exact .of_none hnone ⟨published, hyielded, hlines⟩
  -- the event in hand is published, and its frame is the one the filter leaves out
  | suppressed ev hpump hsuppressed =>
      have hnone := h.rejected_eq_none hpump (by simp)
      rw [inHand, hpump] at hyielded
      refine .of_none hnone ⟨published ++ [ev], ?_, ?_⟩
      · rw [inHand, hnone, Option.toList_none, List.append_nil, hyielded]
      · rw [hlines, List.filter_append, List.filter_cons_of_neg (by simp [hsuppressed]),
          List.filter_nil, List.append_nil]
  | enqueued ev text hpump hsent htext _ =>
      have hnone := h.rejected_eq_none hpump (by simp)
      rw [inHand, hpump] at hyielded
      refine .of_none hnone ⟨published ++ [ev], ?_, ?_⟩
      · rw [inHand, hnone, Option.toList_none, List.append_nil, hyielded]
      · rw [eventLines_push_event, List.map_append, hlines, List.filter_append, List.map_append,
          List.filter_cons_of_pos (by simp [hsent]), List.filter_nil, List.map_singleton,
          List.map_singleton, htext]
  -- what was in hand is what was rejected, so it stays in hand
  | rejects ev hpump =>
      rw [inHand, hpump] at hyielded
      exact ⟨⟨published, hyielded, hlines⟩, fun _ => .inl rfl⟩
  | signals hpump =>
      rw [inHand, hpump] at hyielded
      exact ⟨⟨published, hyielded, hlines⟩, fun _ => .inr ⟨rfl, .inl rfl⟩⟩

theorem Inv.step {a : Action} (h : c.Inv encode) (hstep : Conn.step encode c a = some c') :
    c'.Inv encode := by
  rcases step_cases hstep with hpump | haside
  · exact h.pumpStep hpump
  · exact h.aside haside

theorem inv_run {depth : Nat} {as : List Action}
    (h : ActionSystem.run (Conn.step encode) (init depth) as = some c) : c.Inv encode :=
  ActionSystem.invariant (fun hc hstep => Inv.step hc hstep) (inv_init depth) h

/-! ### After a rejection -/

/-- Nothing is taken from the stream and no event frame is enqueued. -/
theorem Inv.stays {a : Action} {ev : MarketEvent} (h : c.Inv encode) (hev : c.rejected = some ev)
    (hstep : Conn.step encode c a = some c') :
    eventLines c'.tx = eventLines c.tx ∧ c'.yielded = c.yielded ∧ c'.rejected = some ev := by
  rcases step_cases hstep with hpump | haside
  · have hstopped := h.stopped (by rw [hev]; rfl)
    cases hpump with
    | opened hpump => simp [hpump] at hstopped
    | yields ev hpump => simp [hpump] at hstopped
    | streamEnds hpump => simp [hpump] at hstopped
    | suppressed ev hpump _ => simp [hpump] at hstopped
    | enqueued ev text hpump _ _ _ => simp [hpump] at hstopped
    | rejects ev hpump => simp [hpump] at hstopped
    | signals hpump => exact ⟨rfl, rfl, hev⟩
  · exact ⟨haside.lines, haside.yielded, haside.rejected.trans hev⟩

theorem Inv.stays_run {as : List Action} {ev : MarketEvent} (h : c.Inv encode)
    (hev : c.rejected = some ev) (hrun : ActionSystem.run (Conn.step encode) c as = some c') :
    eventLines c'.tx = eventLines c.tx ∧ c'.yielded = c.yielded ∧ c'.rejected = some ev := by
  refine (ActionSystem.invariant (P := fun d : Conn => d.Inv encode ∧
    eventLines d.tx = eventLines c.tx ∧ d.yielded = c.yielded ∧ d.rejected = some ev)
    (fun hd hstep => ?_) ⟨h, rfl, rfl, hev⟩ hrun).2
  obtain ⟨hinv, hlines, hyielded, hev⟩ := hd
  obtain ⟨hlines', hyielded', hev'⟩ := hinv.stays hev hstep
  exact ⟨hinv.step hstep, hlines'.trans hlines, hyielded'.trans hyielded, hev'⟩

/-! ### Runs -/

theorem Bounded.step {depth : Nat} {a : Action} (h : c.Bounded depth)
    (hstep : Conn.step encode c a = some c') : c'.Bounded depth := by
  rcases step_cases hstep with hpump | haside
  · obtain ⟨hcap, hfits⟩ := h
    cases hpump with
    | opened _ => exact ⟨hcap, (Nat.le_add_right _ _).trans hfits⟩
    -- `trySendPast` finds room only past what is promised to the waiting reply
    | enqueued ev text _ _ _ hroom =>
        refine ⟨hcap, ?_⟩
        show (c.tx.push (.event text)).queue.length + c.loop.held ≤ depth
        rw [Channel.length_push]
        omega
    | _ => exact ⟨hcap, hfits⟩
  · exact haside.bounded depth h

/-- No more waits in the channel, or is promised a slot of it, than its depth allows. -/
theorem bounded_run {depth : Nat} {as : List Action}
    (h : ActionSystem.run (Conn.step encode) (init depth) as = some c) : c.Bounded depth :=
  ActionSystem.invariant (fun hc hstep => Bounded.step hc hstep) ⟨rfl, Nat.zero_le _⟩ h

/-- Either select of a loop that is told to tear down ends by it. -/
theorem Signalled.cancelled (h : c.Signalled) (hloop : c.loop.Selects) :
    ∃ c', Conn.step encode c .cancelled = some c' ∧ c'.loop.Left := by
  obtain ⟨tx, loop, pump, permit, pushers, aborted, writer, yielded, rejected⟩ := c
  cases loop with
  | reading =>
      obtain rfl : permit = true := h.resolve_right id
      exact ⟨_, rfl, trivial⟩
  | replying d text sending =>
      obtain rfl : permit = true := h.resolve_right id
      exact ⟨_, rfl, trivial⟩
  | _ => cases hloop

/-- WebSocket delivery is a prefix. In every state of every run, at every depth of the channel,
the event frames enqueued are, in order, those of all events the stream has yielded but the one
the pump has in hand, exactly the suppressed controls left out. Once an event was rejected it
stays in hand: nothing more is taken from the stream and no event frame is enqueued, whatever
happens, and the pump's next step, if it was not taken, tells the read loop to tear down, which
either of its selects then does. -/
theorem ws_delivery {depth : Nat} {as : List Action}
    (h : ActionSystem.run (Conn.step encode) (init depth) as = some c) :
    (∃ published, c.yielded = published ++ c.inHand
      ∧ (eventLines c.tx).map some
        = (published.filter fun ev => !isSuppressed ev).map (frameText encode))
    ∧ ∀ ev, c.rejected = some ev →
      c.inHand = [ev]
      ∧ ∀ bs c', ActionSystem.run (Conn.step encode) c bs = some c' →
        eventLines c'.tx = eventLines c.tx ∧ c'.yielded = c.yielded ∧ c'.rejected = some ev
        ∧ (c'.pump = .signalling
            ∧ (∃ c'', Conn.step encode c' .signal = some c'' ∧ c''.Signalled)
          ∨ c'.Signalled
            ∧ (c'.loop.Selects →
              ∃ c'', Conn.step encode c' .cancelled = some c'' ∧ c''.loop.Left)) := by
  have hinv := inv_run h
  refine ⟨hinv.delivered, fun ev hev => ⟨?_, fun bs c' hrun => ?_⟩⟩
  · have hstopped := hinv.stopped (by rw [hev]; rfl)
    rcases hstopped with hpump | ⟨hpump, -⟩
    · rw [inHand, hpump, hev]
      rfl
    · rw [inHand, hpump, hev]
      rfl
  · obtain ⟨hlines, hyielded, hev'⟩ := hinv.stays_run hev hrun
    refine ⟨hlines, hyielded, hev', ?_⟩
    have hinv' : c'.Inv encode :=
      ActionSystem.invariant (fun hc hstep => Inv.step hc hstep) hinv hrun
    rcases hinv'.stopped (by rw [hev']; rfl) with hpump | ⟨-, hsignalled⟩
    · refine .inl ⟨hpump, { c' with pump := .ended, permit := true }, ?_, .inl rfl⟩
      simp only [Conn.step, hpump]
    · exact .inr ⟨hsignalled, hsignalled.cancelled⟩

def tick (seq : UInt64) : MarketEvent := .trade
  { instrument := ⟨"alpaca", .crypto, "BTC/USD"⟩, sourceTs := 1, rxTs := 2, seq := ⟨seq⟩
    price := ⟨42⟩, size := ⟨7⟩ }

def connected : MarketEvent := .control ⟨1, 2, .synthetic, .providerConnected "alpaca"⟩

/-- One slot, and a writer that drains nothing: of a suppressed control and two trades the
first trade is enqueued and the second rejected, while a reply waits for room. The slot that
becomes free goes to the reply, whose select ends by the signal all the same. -/
def overrun : List Action :=
  [.opened, .yields connected, .publish, .yields (tick 1), .publish, .read .text,
    .dispatched ⟨true, some "ack", false, false⟩, .pollSend, .yields (tick 2), .publish]

theorem ws_delivery_overrun : ∃ c c',
    ActionSystem.run (Conn.step fun _ => some "frame") (init 1) overrun = some c
      ∧ c.yielded = [connected, tick 1, tick 2] ∧ c.rejected = some (tick 2)
      ∧ eventLines c.tx = ["frame"]
      ∧ ActionSystem.run (Conn.step fun _ => some "frame") c [.recv, .signal, .cancelled] = some c'
      ∧ eventLines c'.tx = ["frame"] ∧ c'.loop.Left := by
  obtain ⟨c, h, hyielded, hrejected, hlines, c', h', hleft⟩ : ∃ c,
      ActionSystem.run (Conn.step fun _ => some "frame") (init 1) overrun = some c
        ∧ c.yielded = [connected, tick 1, tick 2] ∧ c.rejected = some (tick 2)
        ∧ eventLines c.tx = ["frame"]
        ∧ ∃ c', ActionSystem.run (Conn.step fun _ => some "frame") c [.recv, .signal, .cancelled]
          = some c' ∧ c'.loop.Left :=
    ⟨_, rfl, rfl, rfl, rfl, _, rfl, trivial⟩
  obtain ⟨-, hstops⟩ := ws_delivery h
  obtain ⟨-, hstays⟩ := hstops _ hrejected
  obtain ⟨hlines', -, -, -⟩ := hstays _ _ h'
  exact ⟨c, c', h, hyielded, hrejected, hlines, h', hlines'.trans hlines, hleft⟩

end Conn

end Ws

end Datamancer
