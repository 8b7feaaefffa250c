import Datamancer.Lib.Permits
import Datamancer.Daemon.WsDelivery
import Datamancer.Daemon.WsHandshake

/-!
# Datamancer.Daemon.WsListener

The listener of the WebSocket surface (`ws/listener.rs`) over all of its connections
(`Daemon.WsConnection`): it takes sockets as long as there are permits, runs a task for each, and
at the shutdown takes no more, tells every task, and waits for them for a bounded time; the tasks
that are left then are aborted.

A task has its permit from the accept on, through the handshake, up to its end, however that comes
about. In its handshake it is deaf: only its peer, or the abort, ends that.
-/

namespace Datamancer

namespace Ws

open ActionSystem Permits Transport

/-- What `serve` is given, with the encoding of the event frames. -/
structure Surface where
  authToken : Option String
  channelDepth : Nat
  maxConnections : Nat
  encode : EventFrame → Option String

/-- The task of an accepted socket. -/
inductive Task
  | unspawned
  | handshaking
  /-- The handshake was refused or has failed. -/
  | refused
  | connected (c : Conn)
  /-- It was aborted in its handshake. -/
  | dropped

/-- The task has not ended, and its permit is held. -/
def Task.holds : Task → Bool
  | handshaking => true
  | connected c => c.loop ≠ .returned
  | unspawned | refused | dropped => false

inductive Stage
  | accepting
  /-- The shutdown is signalled, and the tasks are awaited. -/
  | draining
  | returned
  deriving DecidableEq

structure Listener where
  stage : Stage
  permits : Nat
  /-- How many sockets were taken. -/
  next : Nat
  task : Nat → Task
  /-- The tasks that the `JoinSet` no longer has. -/
  joined : Nat → Bool

namespace Listener

inductive Action
  | accepted
  | shutdown
  /-- The request of the upgrade is read, or the socket fails before it is. -/
  | handshake (i : Nat) (req : Option HandshakeRequest)
  | conn (i : Nat) (a : Ws.Action)
  | joined (i : Nat)
  /-- The `JoinSet` is empty. -/
  | drained
  /-- The three seconds are over. -/
  | timeout
  | aborted (i : Nat)

/-- The listener is bound. -/
def init (s : Surface) : Listener where
  stage := .accepting
  permits := s.maxConnections
  next := 0
  task := fun _ => .unspawned
  joined := fun _ => false

/-- A task goes on; when it ends its permit is given back. -/
def setTask (l : Listener) (i : Nat) (t : Task) : Listener :=
  { l with
    task := Function.update l.task i t
    permits := l.permits + ((l.task i).holds && !t.holds).toNat }

def step (s : Surface) (l : Listener) : Action → Option Listener
  | .accepted =>
      match l.stage, l.permits with
      -- past the cap the socket is dropped
      | .accepting, 0 => some l
      | .accepting, permits + 1 => some
          { l with permits, next := l.next + 1, task := Function.update l.task l.next .handshaking }
      | _, _ => none
  | .shutdown =>
      match l.stage with
      | .accepting => some { l with stage := .draining }
      | _ => none
  | .handshake i req =>
      match l.task i, req.map (acceptWithAuth s.authToken) with
      | .handshaking, some (.ok ()) => some (l.setTask i (.connected (.init s.channelDepth)))
      | .handshaking, _ => some (l.setTask i .refused)
      | _, _ => none
  | .conn i a =>
      match l.task i with
      | .connected c =>
          -- there is nothing to receive before the signal, and no task is aborted here
          if a = .killed ∨ a = .shutdown ∧ l.stage = .accepting then none
          else (c.step s.encode a).map fun c => l.setTask i (.connected c)
      | _ => none
  | .joined i =>
      if l.stage ≠ .returned ∧ i < l.next ∧ (l.task i).holds = false ∧ l.joined i = false then
        some { l with joined := Function.update l.joined i true }
      else none
  | .drained =>
      if l.stage = .draining ∧ ∀ i < l.next, l.joined i then some { l with stage := .returned }
      else none
  | .timeout =>
      match l.stage with
      | .draining => some { l with stage := .returned }
      | _ => none
  -- what is left in the `JoinSet` is aborted when that is dropped
  | .aborted i =>
      match l.stage, l.task i with
      | .returned, .handshaking => some (l.setTask i .dropped)
      | .returned, .connected c =>
          if c.loop = .returned then none
          else (c.step s.encode .killed).map fun c => l.setTask i (.connected c)
      | _, _ => none

/-! ### What a step can do -/

inductive Step (s : Surface) (l : Listener) : Action → Listener → Prop
  | full (hstage : l.stage = .accepting) (hpermits : l.permits = 0) : Step s l .accepted l
  | accepted (permits : Nat) (hstage : l.stage = .accepting) (hpermits : l.permits = permits + 1) :
      Step s l .accepted
        { l with permits, next := l.next + 1, task := Function.update l.task l.next .handshaking }
  | shutdown (hstage : l.stage = .accepting) : Step s l .shutdown { l with stage := .draining }
  | admitted (i : Nat) (req : HandshakeRequest) (htask : l.task i = .handshaking)
      (haccept : acceptWithAuth s.authToken req = .ok ()) :
      Step s l (.handshake i (some req)) (l.setTask i (.connected (.init s.channelDepth)))
  | refused (i : Nat) (req : Option HandshakeRequest) (htask : l.task i = .handshaking) :
      Step s l (.handshake i req) (l.setTask i .refused)
  | conn (i : Nat) (a : Ws.Action) (c c' : Conn) (htask : l.task i = .connected c)
      (hkilled : a ≠ .killed) (hshutdown : a = .shutdown → l.stage ≠ .accepting)
      (hstep : c.step s.encode a = some c') : Step s l (.conn i a) (l.setTask i (.connected c'))
  | joined (i : Nat) (hstage : l.stage ≠ .returned) (hi : i < l.next)
      (hholds : (l.task i).holds = false) :
      Step s l (.joined i) { l with joined := Function.update l.joined i true }
  | drained (hstage : l.stage = .draining) (hjoined : ∀ i < l.next, l.joined i) :
      Step s l .drained { l with stage := .returned }
  | timeout (hstage : l.stage = .draining) : Step s l .timeout { l with stage := .returned }
  | dropped (i : Nat) (hstage : l.stage = .returned) (htask : l.task i = .handshaking) :
      Step s l (.aborted i) (l.setTask i .dropped)
  | killed (i : Nat) (c c' : Conn) (hstage : l.stage = .returned)
      (htask : l.task i = .connected c) (hstep : c.step s.encode .killed = some c') :
      Step s l (.aborted i) (l.setTask i (.connected c'))

variable {s : Surface} {l l' : Listener}

theorem step_cases {a : Action} (h : step s l a = some l') : Step s l a l' := by
  cases a with
  | accepted =>
      simp only [step] at h
      split at h
      next hstage hpermits =>
        cases h
        exact .full hstage hpermits
      next permits hstage hpermits =>
        cases h
        exact .accepted permits hstage hpermits
      next => cases h
  | shutdown =>
      simp only [step] at h
      split at h
      next hstage =>
        cases h
        exact .shutdown hstage
      next => cases h
  | handshake i req =>
      simp only [step] at h
      split at h
      next htask haccept =>
        cases h
        obtain ⟨req, rfl, hok⟩ := Option.map_eq_some_iff.mp haccept
        exact .admitted i req htask hok
      next htask _ =>
        cases h
        exact .refused i req htask
      next => cases h
  | conn i a =>
      simp only [step] at h
      split at h
      next c htask =>
        split_ifs at h with hguard
        rw [not_or] at hguard
        obtain ⟨c', hstep, rfl⟩ := Option.map_eq_some_iff.mp h
        exact .conn i a c c' htask hguard.1 (fun ha hstage => hguard.2 ⟨ha, hstage⟩) hstep
      next => cases h
  | joined i =>
      simp only [step] at h
      split_ifs at h with hguard
      cases h
      exact .joined i hguard.1 hguard.2.1 hguard.2.2.1
  | drained =>
      simp only [step] at h
      split_ifs at h with hguard
      cases h
      exact .drained hguard.1 hguard.2
  | timeout =>
      simp only [step] at h
      split at h
      next hstage =>
        cases h
        exact .timeout hstage
      next => cases h
  | aborted i =>
      simp only [step] at h
      split at h
      next hstage htask =>
        cases h
        exact .dropped i hstage htask
      next c hstage htask =>
        split_ifs at h
        obtain ⟨c', hstep, rfl⟩ := Option.map_eq_some_iff.mp h
        exact .killed i c c' hstage htask hstep
      next => cases h

/-! ### The life of a connection -/

end Listener

namespace Conn

variable {encode : EventFrame → Option String} {c c' : Conn}

@[simp] theorem loop_publish (c : Conn) (ev : MarketEvent) :
    (c.publish encode ev).loop = c.loop := by
  rw [publish]
  split <;> rfl

@[simp] theorem loop_healthPush (c : Conn) (text : String) : (c.healthPush text).loop = c.loop := by
  rw [healthPush]
  split <;> rfl

theorem loop_replied (c : Conn) (d : Dispatched) :
    (c.replied d).loop = .closingSession ∨ (c.replied d).loop = .reading := by
  simp only [replied]
  split_ifs <;> simp [breakLoop]

/-- There is no pump yet where the stream is not taken. -/
def Opens (c : Conn) : Prop := c.loop = .opening → c.pump = .unspawned

/-- What a step that leaves the opening and does not end the task comes to. -/
structure Within (c c' : Conn) : Prop where
  opens : c.Opens → c'.Opens
  returned : c.loop = .returned → c'.loop = .returned

theorem Within.of_loop (h : c'.loop = c.loop) (hpump : c.pump = .unspawned → c'.pump = .unspawned) :
    Within c c' :=
  ⟨fun hc hloop => hpump (hc (h ▸ hloop)), fun hc => h.trans hc⟩

theorem Within.of_ne (hfrom : c.loop ≠ .returned) (hto : c'.loop ≠ .opening) : Within c c' :=
  ⟨fun _ h => absurd h hto, fun h => absurd h hfrom⟩

theorem within_step {a : Ws.Action} (h : step encode c a = some c') : Within c c' := by
  cases a with
  | opened | openFailed | shutdown | cancelled | sessionClosed | pumpAwaited | writerAwaited =>
      simp only [step] at h
      split at h <;> cases h <;> exact .of_ne (by simp_all) (by simp [breakLoop])
  | read msg =>
      simp only [step] at h
      split at h <;> cases h
      · exact .of_ne (by simp_all) (by simp)
      · exact .of_loop rfl id
      · exact .of_ne (by simp_all) (by simp [breakLoop])
  | dispatched d =>
      simp only [step] at h
      split at h <;> cases h
      · exact .of_ne (by simp_all) (by simp)
      · exact .of_ne (by simp_all) (by rcases c.loop_replied d with h | h <;> simp [h])
  | pollSend =>
      simp only [step] at h
      split at h
      next d text sending hloop =>
        refine .of_ne (by simp [hloop]) ?_
        rw [Conn.pollSend.eq_def] at h
        split at h
        · split at h
          · split at h <;> cases h
            · rcases loop_replied { c with tx := c.tx.push (.reply text) } d with h | h <;> simp [h]
            · simp
          · cases h
          · cases h
            rcases loop_replied { c with tx := c.tx.push (.reply text) } d with h | h <;> simp [h]
        · cases h
          simp [breakLoop]
      next => cases h
  | killed =>
      cases h
      exact ⟨fun _ hloop => (by cases hloop), fun _ => rfl⟩
  | yields | streamEnds | signal =>
      simp only [step] at h
      split at h <;> cases h
      exact .of_loop rfl (by simp_all)
  | publish =>
      simp only [step] at h
      split at h <;> cases h
      exact .of_loop (loop_publish c _) (by simp_all)
  | healthPush text =>
      simp only [step] at h
      split_ifs at h
      cases h
      refine .of_loop (loop_healthPush c text) fun hpump => ?_
      rw [healthPush]
      split <;> exact hpump
  | pusherEnds =>
      simp only [step] at h
      split_ifs at h
      cases h
      exact .of_loop rfl id
  | recv =>
      simp only [step] at h
      split at h
      · obtain ⟨tx, -, rfl⟩ := Option.map_eq_some_iff.mp h
        cases hloop : c.loop with
        | replying d text sending =>
            refine .of_ne (by simp [hloop]) ?_
            cases sending <;> simp [Loop.grant]
        | _ => exact .of_loop hloop.symm id
      · cases h
  | sent | socketFails | socketClosed =>
      simp only [step] at h
      split at h <;> cases h
      exact .of_loop rfl id
  | drained =>
      simp only [step] at h
      split at h
      · split_ifs at h
        cases h
        exact .of_loop rfl id
      · cases h

/-- What the task does by itself, once the shutdown is signalled: its timeouts are among it. -/
def Own : Ws.Action → Prop
  | .opened | .dispatched _ | .shutdown | .sessionClosed | .pumpAwaited | .writerAwaited => True
  | _ => False

/-- From wherever it is the task ends by itself, without its peer. -/
theorem ends (encode : EventFrame → Option String) (c : Conn) (hopens : c.Opens) :
    ∃ as c', (∀ a ∈ as, Own a) ∧ run (step encode) c as = some c' ∧ c'.loop = .returned := by
  obtain ⟨tx, loop, pump, permit, pushers, aborted, writer, yielded, rejected⟩ := c
  cases loop with
  | opening =>
      obtain rfl : pump = .unspawned := hopens rfl
      exact ⟨[.opened, .shutdown, .sessionClosed, .pumpAwaited, .writerAwaited], _,
        by simp [Own], rfl, rfl⟩
  | dispatching =>
      exact ⟨[.dispatched ⟨false, none, false, false⟩, .shutdown, .sessionClosed, .pumpAwaited,
        .writerAwaited], _, by simp [Own], rfl, rfl⟩
  | reading | replying =>
      exact ⟨[.shutdown, .sessionClosed, .pumpAwaited, .writerAwaited], _, by simp [Own], rfl, rfl⟩
  | closingSession =>
      exact ⟨[.sessionClosed, .pumpAwaited, .writerAwaited], _, by simp [Own], rfl, rfl⟩
  | awaitingPump => exact ⟨[.pumpAwaited, .writerAwaited], _, by simp [Own], rfl, rfl⟩
  | awaitingWriter => exact ⟨[.writerAwaited], _, by simp [Own], rfl, rfl⟩
  | returned => exact ⟨[], _, by simp, rfl, rfl⟩

end Conn

namespace Listener

variable {s : Surface} {l l' : Listener}

/-! ### What is kept -/

/-- What one connection takes part in. -/
def connAct (i : Nat) : Action → Option Ws.Action
  | .conn j a => if j = i then some a else none
  | .aborted j => if j = i then some .killed else none
  | _ => none

/-- The actions of one connection, in order. -/
def connActs (i : Nat) (acts : List Action) : List Ws.Action := acts.filterMap (connAct i)

/-- A connection was admitted, and has gone on as one connection does by itself. -/
structure Connected (s : Surface) (acts : List Action) (i : Nat) (c : Conn) : Prop where
  admitted : ∃ req, .handshake i (some req) ∈ acts ∧ Authorized s.authToken req ∧ Offers req
  alone : run (Conn.step s.encode) (.init s.channelDepth) (connActs i acts) = some c

/-- Where a task is, after these actions. -/
def Traced (s : Surface) (acts : List Action) (i : Nat) : Task → Prop
  | .unspawned | .handshaking => connActs i acts = []
  | .connected c => Connected s acts i c
  | .refused | .dropped => True

structure Sound (s : Surface) (acts : List Action) (l : Listener) : Prop where
  permits : l.permits + held Task.holds l.task l.next = s.maxConnections
  fresh : ∀ i, l.task i = .unspawned ↔ l.next ≤ i
  joined : ∀ i, l.joined i → i < l.next ∧ (l.task i).holds = false
  traced : ∀ i, Traced s acts i (l.task i)
  returned : l.stage = .returned → .timeout ∈ acts ∨ ∀ i < l.next, l.joined i

theorem sound_init (s : Surface) : Sound s [] (init s) where
  permits := rfl
  fresh i := ⟨fun _ => Nat.zero_le i, fun _ => rfl⟩
  joined i h := by cases h
  traced i := rfl
  returned h := by cases h

variable {acts : List Action} {a : Action}

theorem connActs_snoc (i : Nat) (acts : List Action) (a : Action) :
    connActs i (acts ++ [a]) = connActs i acts ++ (connAct i a).toList := by
  rw [connActs, List.filterMap_append]
  cases h : connAct i a <;> simp [connActs, h]

/-- An action of others leaves a connection where it is. -/
theorem Traced.snoc {i : Nat} {t : Task} (h : Traced s acts i t) (ha : connAct i a = none) :
    Traced s (acts ++ [a]) i t := by
  have hacts : connActs i (acts ++ [a]) = connActs i acts := by
    rw [connActs_snoc, ha, Option.toList_none, List.append_nil]
  cases t with
  | unspawned | handshaking => exact hacts.trans h
  | refused | dropped => trivial
  | connected c =>
      obtain ⟨⟨req, hreq, hadmitted⟩, halone⟩ := h
      exact ⟨⟨req, List.mem_append_left _ hreq, hadmitted⟩, by rw [hacts, halone]⟩

/-- A step of the connection itself. -/
theorem Connected.snoc {i : Nat} {c c' : Conn} {b : Ws.Action} (h : Connected s acts i c)
    (ha : connAct i a = some b) (hstep : c.step s.encode b = some c') :
    Connected s (acts ++ [a]) i c' := by
  obtain ⟨⟨req, hreq, hadmitted⟩, halone⟩ := h
  refine ⟨⟨req, List.mem_append_left _ hreq, hadmitted⟩, ?_⟩
  rw [connActs_snoc, ha, run_append, halone]
  simp [run, hstep]

theorem Sound.lt_next (h : Sound s acts l) {i : Nat} (htask : l.task i ≠ .unspawned) :
    i < l.next := by
  by_contra hle
  exact htask ((h.fresh i).mpr (not_lt.mp hle))

/-- A task goes on. -/
theorem Sound.setTask (h : Sound s acts l) {i : Nat} {t : Task}
    (hspawned : l.task i ≠ .unspawned) (hspawned' : t ≠ .unspawned)
    (hholds : t.holds → (l.task i).holds) (htraced : Traced s (acts ++ [a]) i t)
    (hothers : ∀ j, j ≠ i → connAct j a = none) : Sound s (acts ++ [a]) (l.setTask i t) where
  permits := by
    have hheld : held Task.holds (Function.update l.task i t) l.next + (l.task i).holds.toNat
        = held Task.holds l.task l.next + t.holds.toNat := held_update t (h.lt_next hspawned)
    have hpermits := h.permits
    simp only [Listener.setTask]
    revert hheld hholds
    cases (l.task i).holds <;> cases t.holds <;> simp <;> omega
  fresh j := by
    simp only [Listener.setTask, Function.update_apply]
    split_ifs with hj
    · subst hj
      exact ⟨fun h => absurd h hspawned', fun hle => absurd (h.lt_next hspawned) (not_lt.mpr hle)⟩
    · exact h.fresh j
  joined j hj := by
    obtain ⟨hlt, hends⟩ := h.joined j hj
    refine ⟨hlt, ?_⟩
    simp only [Listener.setTask, Function.update_apply]
    split_ifs with hji
    · subst hji
      cases ht : t.holds with
      | false => rfl
      | true => exact absurd (hholds ht) (by simp [hends])
    · exact hends
  traced j := by
    simp only [Listener.setTask, Function.update_apply]
    split_ifs with hj
    · exact hj ▸ htraced
    · exact (h.traced j).snoc (hothers j hj)
  returned hstage := (h.returned hstage).imp_left fun hmem => List.mem_append_left _ hmem

/-- A socket is taken. -/
theorem Sound.accepted (h : Sound s acts l) {permits : Nat} (hstage : l.stage = .accepting)
    (hpermits : l.permits = permits + 1) :
    Sound s (acts ++ [.accepted])
      { l with permits, next := l.next + 1, task := Function.update l.task l.next .handshaking }
    where
  permits := by
    have hp := h.permits
    simp only [held_succ, held_update_of_le _ le_rfl, Function.update_self, Task.holds,
      Bool.toNat_true]
    omega
  fresh i := by
    simp only [Function.update_apply]
    split_ifs with hi
    · simp [hi]
    · rw [h.fresh i]
      omega
  joined i hi := by
    obtain ⟨hlt, hends⟩ := h.joined i hi
    refine ⟨Nat.lt_succ_of_lt hlt, ?_⟩
    simpa only [Function.update_of_ne (Nat.ne_of_lt hlt)] using hends
  traced i := by
    simp only [Function.update_apply]
    split_ifs with hi
    · have hnew := h.traced i
      rw [(h.fresh i).mpr hi.ge] at hnew
      rw [Traced, connActs_snoc, show connActs i acts = [] from hnew]
      rfl
    · exact (h.traced i).snoc rfl
  returned hreturned := by
    rw [hstage] at hreturned
    cases hreturned

/-- The stage changes, and no task. -/
theorem Sound.setStage (h : Sound s acts l) {stage : Stage} (ha : ∀ i, connAct i a = none)
    (hreturned : stage = .returned → .timeout ∈ acts ++ [a] ∨ ∀ i < l.next, l.joined i) :
    Sound s (acts ++ [a]) { l with stage } where
  permits := h.permits
  fresh := h.fresh
  joined := h.joined
  traced i := (h.traced i).snoc (ha i)
  returned := hreturned

theorem Sound.step (h : Sound s acts l) (hstep : step s l a = some l') :
    Sound s (acts ++ [a]) l' := by
  cases step_cases hstep with
  | full hstage =>
      exact h.setStage (fun _ => rfl) fun hreturned => by rw [hstage] at hreturned; cases hreturned
  | accepted permits hstage hpermits => exact h.accepted hstage hpermits
  | shutdown => exact h.setStage (fun _ => rfl) fun hreturned => by cases hreturned
  | admitted i req htask haccept =>
      have hnone := h.traced i
      rw [htask] at hnone
      obtain ⟨hauthorized, hoffers⟩ := acceptWithAuth_eq.1.mp haccept
      refine h.setTask (by simp [htask]) (by simp) (by simp [htask, Task.holds]) ?_ fun _ _ => rfl
      refine ⟨⟨req, by simp, hauthorized, hoffers⟩, ?_⟩
      rw [connActs_snoc, show connActs i acts = [] from hnone]
      rfl
  | refused i req htask =>
      exact h.setTask (by simp [htask]) (by simp) (by simp [Task.holds]) trivial fun _ _ => rfl
  | conn i b c c' htask _ _ hconn =>
      have htraced := h.traced i
      rw [htask] at htraced
      refine h.setTask (by simp [htask]) (by simp) ?_ ?_ fun j hj => if_neg (Ne.symm hj)
      · rw [htask, Task.holds, Task.holds]
        simpa using mt (Conn.within_step hconn).returned
      · exact Connected.snoc htraced (if_pos rfl) hconn
  | joined i hstage hi hholds =>
      refine ⟨h.permits, h.fresh, fun j hj => ?_, fun j => (h.traced j).snoc rfl,
        fun hreturned => absurd hreturned hstage⟩
      simp only [Function.update_apply] at hj
      split_ifs at hj with hji
      · subst hji
        exact ⟨hi, hholds⟩
      · exact h.joined j hj
  | drained _ hjoined => exact h.setStage (fun _ => rfl) fun _ => .inr hjoined
  | timeout => exact h.setStage (fun _ => rfl) fun _ => .inl (by simp)
  | dropped i _ htask =>
      exact h.setTask (by simp [htask]) (by simp) (by simp [Task.holds]) trivial
        fun j hj => if_neg (Ne.symm hj)
  | killed i c c' _ htask hconn =>
      have htraced := h.traced i
      rw [htask] at htraced
      refine h.setTask (by simp [htask]) (by simp) ?_ ?_ fun j hj => if_neg (Ne.symm hj)
      · rw [htask, Task.holds, Task.holds]
        simpa using mt (Conn.within_step hconn).returned
      · exact Connected.snoc htraced (if_pos rfl) hconn

theorem Sound.run (h : Sound s acts l) {bs : List Action}
    (hrun : ActionSystem.run (Listener.step s) l bs = some l') : Sound s (acts ++ bs) l' :=
  history_invariant acts (fun h hstep => h.step hstep) h hrun

/-! ### After the signal -/

/-- Nothing is accepted any more, and permits only come back. -/
structure Closed (l l' : Listener) : Prop where
  stage : l'.stage ≠ .accepting
  next : l'.next = l.next
  permits : l.permits ≤ l'.permits

theorem closed_step (hstage : l.stage ≠ .accepting) (h : step s l a = some l') : Closed l l' := by
  cases step_cases h with
  | full haccepting => exact absurd haccepting hstage
  | accepted _ haccepting => exact absurd haccepting hstage
  | shutdown haccepting => exact absurd haccepting hstage
  | admitted | refused | conn | dropped | killed => exact ⟨hstage, rfl, Nat.le_add_right _ _⟩
  | joined => exact ⟨hstage, rfl, le_rfl⟩
  | drained | timeout => exact ⟨fun h => (by cases h), rfl, le_rfl⟩

theorem closed_run (hstage : l.stage ≠ .accepting) {bs : List Action}
    (hrun : run (Listener.step s) l bs = some l') : Closed l l' := by
  refine invariant (P := Closed l) (fun {m b m'} h hstep => ?_) ⟨hstage, rfl, le_rfl⟩ hrun
  have hnext := closed_step h.stage hstep
  exact ⟨hnext.stage, hnext.next.trans h.next, h.permits.trans hnext.permits⟩

/-! ### Every run -/

/-- What holds of the surface after these actions. -/
structure Served (s : Surface) (acts : List Action) (l : Listener) : Prop where
  /-- The tasks that have not ended and the permits that are left make up the cap. -/
  cap : l.permits + held Task.holds l.task l.next = s.maxConnections
  /-- A connection has shown the token and the subprotocol, and is in a state that it reaches by
  itself. -/
  connected : ∀ i c, l.task i = .connected c → Connected s acts i c
  /-- So what is known of one connection is known of all. -/
  delivers : ∀ i c, l.task i = .connected c → c.Inv s.encode ∧ c.Bounded s.channelDepth
  /-- After the signal nothing is accepted, and no permit is taken. -/
  closed : ∀ bs l', l.stage ≠ .accepting → run (Listener.step s) l bs = some l' → Closed l l'
  /-- Where the tasks were awaited none is left. -/
  drained : l.stage = .returned → .timeout ∉ acts → ∀ i, (l.task i).holds = false

theorem ws_surface (h : run (Listener.step s) (init s) acts = some l) : Served s acts l := by
  have hsound := (sound_init s).run h
  rw [List.nil_append] at hsound
  have hconnected : ∀ i c, l.task i = .connected c → Connected s acts i c := by
    intro i c hc
    have htraced := hsound.traced i
    rwa [hc] at htraced
  refine ⟨hsound.permits, hconnected, fun i c hc => ?_,
    fun _ _ hstage hrun => closed_run hstage hrun, fun hstage htimeout i => ?_⟩
  · have halone := (hconnected i c hc).alone
    exact ⟨Conn.inv_run halone, Conn.bounded_run halone⟩
  · by_cases hi : i < l.next
    · exact (hsound.joined i ((hsound.returned hstage).resolve_left htimeout i hi)).2
    · rw [(hsound.fresh i).mpr (not_lt.mp hi)]
      rfl

/-! ### The drain -/

/-- What the daemon does by itself while it drains, its three seconds apart. -/
def Own : Action → Prop
  | .conn _ a => Conn.Own a
  | .joined _ | .drained => True
  | _ => False

private def headerLine (text : String) : HeaderValue := text.toList.map fun c => c.toNat.toUInt8

private def twoClients : Surface := ⟨some "s3cret", 4, 2, fun _ => none⟩

private def goodRequest : HandshakeRequest :=
  ⟨[headerLine "bearer s3cret"], [headerLine "chat, datamancer.v2"]⟩

/-- A client is served, a second peer never sends its handshake, and a third finds the surface
full, as the daemon shuts down. -/
private def fullHouse : List Action :=
  [.accepted, .accepted, .accepted, .handshake 0 (some goodRequest), .conn 0 .opened, .shutdown]

theorem ws_surface_fullHouse :
    ∃ l, run (Listener.step twoClients) (init twoClients) fullHouse = some l ∧
      l.permits = 0 ∧ Served twoClients fullHouse l := by
  obtain ⟨l, hrun, hpermits⟩ :
      ∃ l, run (Listener.step twoClients) (init twoClients) fullHouse = some l ∧
        l.permits = 0 := ⟨_, rfl, rfl⟩
  exact ⟨l, hrun, hpermits, ws_surface hrun⟩

end Listener

end Ws

end Datamancer
