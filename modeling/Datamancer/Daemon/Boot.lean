import Mathlib.Logic.Function.Basic
import Datamancer.Lib.ActionSystem

/-!
# Datamancer.Daemon.Boot

How daemons start and end on one host (`main.rs`, `single_instance.rs`, and the socket of
`server.rs`): the lock file, the admin socket, and the processes that contend for them. A daemon
takes the lock before it reads its configuration, so each has its own idea of where the admin
socket is. Any process may be killed at any time, and unrelated programs may create, listen on and
delete whatever is at a path.

The kernel drops the lock and the listener of a process that is gone; the socket's file stays.
-/

namespace Datamancer

namespace Boot

/-! ### The host -/

abbrev Pid := Nat

abbrev Path := String

/-- One binding of a socket. -/
abbrev SocketId := Nat

/-- What is at a path. -/
inductive Node
  | socket (s : SocketId)
  /-- Anything that is not a socket. -/
  | other
  deriving DecidableEq

/-- Who listens on a socket. -/
inductive Owner
  | daemon (p : Pid)
  | foreign
  deriving DecidableEq

inductive BootError
  /-- The lock is held; the process id is what the lock file says. -/
  | alreadyRunning (pid : Option Pid)
  /-- The path of the admin socket is taken by something that is not a socket. -/
  | alreadyExists
  /-- Somebody listens on the admin socket. -/
  | addrInUse
  /-- The admin socket cannot be bound, for its path is taken. -/
  | bind
  /-- Its path is gone before it can be removed. -/
  | notFound
  deriving DecidableEq

inductive Exit
  | success
  | failure (e : BootError)
  /-- Killed, or failed in what is not modelled: a directory, the configuration, a provider. -/
  | died
  deriving DecidableEq

inductive Phase
  | unborn
  | starting
  /-- `InstanceLock::acquire_at` holds the lock and is about to empty the lock file. -/
  | locked
  | truncated
  /-- The lock is acquired; the configuration is read and the server built. -/
  | configuring
  /-- `clear_stale_socket`, about to look at the path. -/
  | clearing
  | probing
  | removing
  | binding
  | serving (s : SocketId)
  | draining (s : SocketId)
  /-- The socket's file is unlinked. -/
  | unlinked (s : SocketId)
  | exited (e : Exit)
  deriving DecidableEq

/-- The process has acquired the lock and not ended. -/
def Phase.Holds : Phase → Prop
  | locked | truncated | configuring | clearing | probing | removing | binding => True
  | serving _ | draining _ | unlinked _ => True
  | unborn | starting | exited _ => False

instance : DecidablePred Phase.Holds := fun p => by cases p <;> unfold Phase.Holds <;> infer_instance

/-- The socket the process has bound. -/
def Phase.bound : Phase → Option SocketId
  | serving s | draining s | unlinked s => some s
  | _ => none

structure World where
  lock : Option Pid
  /-- What the lock file says. -/
  pidText : Option Pid
  node : Path → Option Node
  listener : SocketId → Option Owner
  nextSocket : SocketId
  phase : Pid → Phase

inductive Action
  | launch (p : Pid)
  | tryLock (p : Pid)
  | truncate (p : Pid)
  | writePid (p : Pid)
  | configured (p : Pid)
  | stat (p : Pid)
  | connect (p : Pid)
  | remove (p : Pid)
  | bind (p : Pid)
  | drain (p : Pid)
  /-- The aborted accept task drops its listener. -/
  | hangUp (p : Pid)
  | unlink (p : Pid)
  | exit (p : Pid)
  | die (p : Pid)
  | foreignCreate (path : Path)
  | foreignListen (path : Path)
  | foreignQuit (s : SocketId)
  | foreignDelete (path : Path)
  deriving DecidableEq

/-- What an unrelated program does. -/
def Action.Foreign : Action → Prop
  | foreignCreate _ | foreignListen _ | foreignQuit _ | foreignDelete _ => True
  | _ => False

/-- What a daemon that is there does. -/
def Action.Own : Action → Prop
  | launch _ | foreignCreate _ | foreignListen _ | foreignQuit _ | foreignDelete _ => False
  | _ => True

theorem Action.Own.not_foreign {a : Action} (h : a.Own) : ¬ a.Foreign := by
  cases a <;> first | exact id | exact h.elim

namespace World

/-- Nobody runs, and what the daemons of before have left lies about. -/
def init (node : Path → Option Node) (nextSocket : SocketId) (pidText : Option Pid) : World where
  lock := none
  pidText := pidText
  node := node
  listener := fun _ => none
  nextSocket := nextSocket
  phase := fun _ => .unborn

def setPhase (w : World) (p : Pid) (ph : Phase) : World :=
  { w with phase := Function.update w.phase p ph }

/-- What the kernel does when a process is gone. -/
def finish (w : World) (p : Pid) (e : Exit) : World :=
  { w.setPhase p (.exited e) with
    lock := if w.lock = some p then none else w.lock
    listener := fun s => if w.listener s = some (.daemon p) then none else w.listener s }

def setNode (w : World) (path : Path) (n : Option Node) : World :=
  { w with node := Function.update w.node path n }

/-- A new socket at a path. -/
def listen (w : World) (path : Path) (o : Owner) : World :=
  { w.setNode path (some (.socket w.nextSocket)) with
    listener := Function.update w.listener w.nextSocket (some o)
    nextSocket := w.nextSocket + 1 }

/-- Somebody listens on what is at the path. -/
def live (w : World) (path : Path) : Bool :=
  match w.node path with
  | some (.socket s) => (w.listener s).isSome
  | _ => false

variable (adminSocket : Pid → Path)

def step (w : World) : Action → Option World
  | .launch p => if w.phase p = .unborn then some (w.setPhase p .starting) else none
  | .tryLock p =>
      if w.phase p = .starting then
        match w.lock with
        | none => some { w.setPhase p .locked with lock := some p }
        | some _ => some (w.finish p (.failure (.alreadyRunning w.pidText)))
      else none
  | .truncate p =>
      if w.phase p = .locked then some { w.setPhase p .truncated with pidText := none } else none
  | .writePid p =>
      if w.phase p = .truncated then
        some { w.setPhase p .configuring with pidText := some p }
      else none
  | .configured p => if w.phase p = .configuring then some (w.setPhase p .clearing) else none
  | .stat p =>
      if w.phase p = .clearing then
        match w.node (adminSocket p) with
        | none => some (w.setPhase p .binding)
        | some .other => some (w.finish p (.failure .alreadyExists))
        | some (.socket _) => some (w.setPhase p .probing)
      else none
  | .connect p =>
      if w.phase p = .probing then
        if w.live (adminSocket p) then some (w.finish p (.failure .addrInUse))
        else some (w.setPhase p .removing)
      else none
  | .remove p =>
      if w.phase p = .removing then
        match w.node (adminSocket p) with
        | none => some (w.finish p (.failure .notFound))
        | some _ => some ((w.setPhase p .binding).setNode (adminSocket p) none)
      else none
  | .bind p =>
      if w.phase p = .binding then
        match w.node (adminSocket p) with
        | none => some ((w.listen (adminSocket p) (.daemon p)).setPhase p (.serving w.nextSocket))
        | some _ => some (w.finish p (.failure .bind))
      else none
  | .drain p =>
      match w.phase p with
      | .serving s => some (w.setPhase p (.draining s))
      | _ => none
  | .hangUp p =>
      match w.phase p with
      | .draining s | .unlinked s =>
          some { w with listener := Function.update w.listener s none }
      | _ => none
  | .unlink p =>
      match w.phase p with
      | .draining s => some ((w.setPhase p (.unlinked s)).setNode (adminSocket p) none)
      | _ => none
  | .exit p =>
      match w.phase p with
      | .unlinked _ => some (w.finish p .success)
      | _ => none
  | .die p =>
      match w.phase p with
      | .unborn | .exited _ => none
      | _ => some (w.finish p .died)
  | .foreignCreate path =>
      if w.node path = none then some (w.setNode path (some .other)) else none
  | .foreignListen path =>
      if w.node path = none then some (w.listen path .foreign) else none
  | .foreignQuit s =>
      if w.listener s = some .foreign then
        some { w with listener := Function.update w.listener s none }
      else none
  | .foreignDelete path => some (w.setNode path none)

/-! ### Inversion of a step -/

/-- What each action can do, with what it needs. -/
inductive Step (w : World) : Action → World → Prop
  | launch {p} (hp : w.phase p = .unborn) : Step w (.launch p) (w.setPhase p .starting)
  | acquire {p} (hp : w.phase p = .starting) (hl : w.lock = none) :
      Step w (.tryLock p) { w.setPhase p .locked with lock := some p }
  | contended {p q} (hp : w.phase p = .starting) (hl : w.lock = some q) :
      Step w (.tryLock p) (w.finish p (.failure (.alreadyRunning w.pidText)))
  | truncate {p} (hp : w.phase p = .locked) :
      Step w (.truncate p) { w.setPhase p .truncated with pidText := none }
  | writePid {p} (hp : w.phase p = .truncated) :
      Step w (.writePid p) { w.setPhase p .configuring with pidText := some p }
  | configured {p} (hp : w.phase p = .configuring) :
      Step w (.configured p) (w.setPhase p .clearing)
  | clear {p} (hp : w.phase p = .clearing) (hn : w.node (adminSocket p) = none) :
      Step w (.stat p) (w.setPhase p .binding)
  | notASocket {p} (hp : w.phase p = .clearing) (hn : w.node (adminSocket p) = some .other) :
      Step w (.stat p) (w.finish p (.failure .alreadyExists))
  | found {p s} (hp : w.phase p = .clearing) (hn : w.node (adminSocket p) = some (.socket s)) :
      Step w (.stat p) (w.setPhase p .probing)
  | inUse {p} (hp : w.phase p = .probing) (hlive : w.live (adminSocket p) = true) :
      Step w (.connect p) (w.finish p (.failure .addrInUse))
  | stale {p} (hp : w.phase p = .probing) (hlive : w.live (adminSocket p) = false) :
      Step w (.connect p) (w.setPhase p .removing)
  | gone {p} (hp : w.phase p = .removing) (hn : w.node (adminSocket p) = none) :
      Step w (.remove p) (w.finish p (.failure .notFound))
  | remove {p n} (hp : w.phase p = .removing) (hn : w.node (adminSocket p) = some n) :
      Step w (.remove p) ((w.setPhase p .binding).setNode (adminSocket p) none)
  | bind {p} (hp : w.phase p = .binding) (hn : w.node (adminSocket p) = none) :
      Step w (.bind p)
        ((w.listen (adminSocket p) (.daemon p)).setPhase p (.serving w.nextSocket))
  | taken {p n} (hp : w.phase p = .binding) (hn : w.node (adminSocket p) = some n) :
      Step w (.bind p) (w.finish p (.failure .bind))
  | drain {p s} (hp : w.phase p = .serving s) : Step w (.drain p) (w.setPhase p (.draining s))
  | hangUp {p s} (hp : w.phase p = .draining s ∨ w.phase p = .unlinked s) :
      Step w (.hangUp p) { w with listener := Function.update w.listener s none }
  | unlink {p s} (hp : w.phase p = .draining s) :
      Step w (.unlink p) ((w.setPhase p (.unlinked s)).setNode (adminSocket p) none)
  | exit {p s} (hp : w.phase p = .unlinked s) : Step w (.exit p) (w.finish p .success)
  | die {p} (hp : w.phase p ≠ .unborn ∧ ∀ e, w.phase p ≠ .exited e) :
      Step w (.die p) (w.finish p .died)
  | foreignCreate {path} (hn : w.node path = none) :
      Step w (.foreignCreate path) (w.setNode path (some .other))
  | foreignListen {path} (hn : w.node path = none) :
      Step w (.foreignListen path) (w.listen path .foreign)
  | foreignQuit {s} (hs : w.listener s = some .foreign) :
      Step w (.foreignQuit s) { w with listener := Function.update w.listener s none }
  | foreignDelete {path} : Step w (.foreignDelete path) (w.setNode path none)

variable {adminSocket}

theorem step_cases {w w' : World} {a : Action} (h : w.step adminSocket a = some w') :
    Step adminSocket w a w' := by
  cases a with
  | launch p =>
      obtain ⟨hp, ⟨⟩⟩ := Option.ite_none_right_eq_some.mp h
      exact .launch hp
  | tryLock p =>
      obtain ⟨hp, h⟩ := Option.ite_none_right_eq_some.mp h
      split at h <;> cases h
      · exact .acquire hp ‹_›
      · exact .contended hp ‹_›
  | truncate p =>
      obtain ⟨hp, ⟨⟩⟩ := Option.ite_none_right_eq_some.mp h
      exact .truncate hp
  | writePid p =>
      obtain ⟨hp, ⟨⟩⟩ := Option.ite_none_right_eq_some.mp h
      exact .writePid hp
  | configured p =>
      obtain ⟨hp, ⟨⟩⟩ := Option.ite_none_right_eq_some.mp h
      exact .configured hp
  | stat p =>
      obtain ⟨hp, h⟩ := Option.ite_none_right_eq_some.mp h
      split at h <;> cases h
      · exact .clear hp ‹_›
      · exact .notASocket hp ‹_›
      · exact .found hp ‹_›
  | connect p =>
      obtain ⟨hp, h⟩ := Option.ite_none_right_eq_some.mp h
      split at h <;> cases h
      · exact .inUse hp ‹_›
      · exact .stale hp (Bool.eq_false_iff.mpr ‹_›)
  | remove p =>
      obtain ⟨hp, h⟩ := Option.ite_none_right_eq_some.mp h
      split at h <;> cases h
      · exact .gone hp ‹_›
      · exact .remove hp ‹_›
  | bind p =>
      obtain ⟨hp, h⟩ := Option.ite_none_right_eq_some.mp h
      split at h <;> cases h
      · exact .bind hp ‹_›
      · exact .taken hp ‹_›
  | drain p =>
      simp only [step] at h
      split at h <;> cases h
      exact .drain ‹_›
  | hangUp p =>
      simp only [step] at h
      split at h <;> cases h
      · exact .hangUp (.inl ‹_›)
      · exact .hangUp (.inr ‹_›)
  | unlink p =>
      simp only [step] at h
      split at h <;> cases h
      exact .unlink ‹_›
  | exit p =>
      simp only [step] at h
      split at h <;> cases h
      exact .exit ‹_›
  | die p =>
      simp only [step] at h
      split at h
      · cases h
      · cases h
      next hunborn hexited =>
        cases h
        exact .die ⟨hunborn, fun e he => hexited e he⟩
  | foreignCreate path =>
      obtain ⟨hn, ⟨⟩⟩ := Option.ite_none_right_eq_some.mp h
      exact .foreignCreate hn
  | foreignListen path =>
      obtain ⟨hn, ⟨⟩⟩ := Option.ite_none_right_eq_some.mp h
      exact .foreignListen hn
  | foreignQuit s =>
      obtain ⟨hs, ⟨⟩⟩ := Option.ite_none_right_eq_some.mp h
      exact .foreignQuit hs
  | foreignDelete path =>
      cases h
      exact .foreignDelete

/-! ### The phases of a process -/

@[simp] theorem setPhase_self (w : World) (p : Pid) (ph : Phase) : (w.setPhase p ph).phase p = ph :=
  Function.update_self ..

theorem setPhase_of_ne (w : World) {p q : Pid} (ph : Phase) (h : q ≠ p) :
    (w.setPhase p ph).phase q = w.phase q :=
  Function.update_of_ne h ..

end World

/-- What may become of a process by one step. -/
inductive Phase.Next : Phase → Phase → Prop
  | launch : Next .unborn .starting
  | acquire : Next .starting .locked
  | truncate : Next .locked .truncated
  | writePid : Next .truncated .configuring
  | configured : Next .configuring .clearing
  | clear : Next .clearing .binding
  | found : Next .clearing .probing
  | stale : Next .probing .removing
  | remove : Next .removing .binding
  | bind {s} : Next .binding (.serving s)
  | drain {s} : Next (.serving s) (.draining s)
  | unlink {s} : Next (.draining s) (.unlinked s)
  | exit {s} : Next (.unlinked s) (.exited .success)
  | refuse {ph e} (h : ph ∈ [.starting, .clearing, .probing, .removing, .binding]) :
      Next ph (.exited (.failure e))
  | die {ph} (h : ph ≠ .unborn ∧ ∀ e, ph ≠ .exited e) : Next ph (.exited .died)

/-- A process that is gone is gone. -/
theorem Phase.Next.ne_exited {ph ph' : Phase} (h : ph.Next ph') (e : Exit) : ph ≠ .exited e := by
  cases h with
  | refuse hmem =>
      rintro rfl
      simp at hmem
  | die hne => exact hne.2 e
  | _ => simp

theorem Phase.Next.ne_unborn {ph ph' : Phase} (h : ph.Next ph') : ph' ≠ .unborn := by
  cases h <;> simp

namespace World

/-- A step is one process's, and only a launch is of a process that is not there yet. -/
theorem next_of_step {adminSocket : Pid → Path} {w w' : World} {a : Action}
    (h : w.step adminSocket a = some w') (q : Pid) :
    w'.phase q = w.phase q ∨
      (w.phase q).Next (w'.phase q) ∧ (w.phase q = .unborn → a = .launch q) := by
  have hmove : ∀ {p ph}, w'.phase = Function.update w.phase p ph → (w.phase p).Next ph →
      (w.phase p = .unborn → a = .launch p) →
      w'.phase q = w.phase q ∨
        (w.phase q).Next (w'.phase q) ∧ (w.phase q = .unborn → a = .launch q) := by
    intro p ph hphase hnext hlaunch
    rw [hphase]
    by_cases hq : q = p
    · subst hq
      exact .inr ⟨by rwa [Function.update_self], hlaunch⟩
    · exact .inl (Function.update_of_ne hq ..)
  cases step_cases h with
  | launch hp => exact hmove rfl (hp ▸ .launch) fun _ => rfl
  | acquire hp => exact hmove rfl (hp ▸ .acquire) (by simp [hp])
  | truncate hp => exact hmove rfl (hp ▸ .truncate) (by simp [hp])
  | writePid hp => exact hmove rfl (hp ▸ .writePid) (by simp [hp])
  | configured hp => exact hmove rfl (hp ▸ .configured) (by simp [hp])
  | clear hp => exact hmove rfl (hp ▸ .clear) (by simp [hp])
  | found hp => exact hmove rfl (hp ▸ .found) (by simp [hp])
  | stale hp => exact hmove rfl (hp ▸ .stale) (by simp [hp])
  | remove hp => exact hmove rfl (hp ▸ .remove) (by simp [hp])
  | bind hp => exact hmove rfl (hp ▸ .bind) (by simp [hp])
  | drain hp => exact hmove rfl (hp ▸ .drain) (by simp [hp])
  | unlink hp => exact hmove rfl (hp ▸ .unlink) (by simp [hp])
  | exit hp => exact hmove rfl (hp ▸ .exit) (by simp [hp])
  | contended hp | notASocket hp | inUse hp | gone hp | taken hp =>
      exact hmove rfl (.refuse (by simp [hp])) (by simp [hp])
  | die hp => exact hmove rfl (.die hp) fun hunborn => absurd hunborn hp.1
  | hangUp | foreignCreate | foreignListen | foreignQuit | foreignDelete => exact .inl rfl

end World

end Boot

end Datamancer
