import Datamancer.Daemon.Boot

/-!
# Datamancer.Daemon.SingleInstance

One daemon at a time. Whatever processes are launched, killed and drained in whatever order, and
whatever unrelated programs do to the admin sockets meanwhile, the processes past
`InstanceLock::acquire` are the one that holds the lock (`single_instance`), so what `remove_file`
takes away at a start or at a shutdown is no other daemon's socket. Where nobody else touches the
paths, what dead daemons have left never keeps the next one from its socket (`recovers`).
-/

namespace Datamancer

namespace Boot

open ActionSystem

/-! ### Phases -/

theorem Phase.holds_of_bound {ph : Phase} {s : SocketId} (h : ph.bound = some s) : ph.Holds := by
  cases ph <;> trivial

/-- Past the writing of the lock file, it names the process. -/
def Phase.Recorded : Phase → Prop
  | .configuring | .clearing | .probing | .removing | .binding => True
  | .serving _ | .draining _ | .unlinked _ => True
  | .unborn | .starting | .locked | .truncated | .exited _ => False

theorem Phase.holds_of_recorded {ph : Phase} (h : Phase.Recorded ph) : ph.Holds := by
  cases ph <;> trivial

namespace World

variable {adminSocket : Pid → Path} {w w' : World} {p q : Pid}

/-! ### The lock and the listeners -/

/-- The lock is of the one process that is past its acquisition, and a daemon listens on the
socket it has bound only. -/
structure Safe (w : World) : Prop where
  lock : ∀ p, (w.phase p).Holds ↔ w.lock = some p
  listens : ∀ s p, w.listener s = some (.daemon p) → (w.phase p).bound = some s
  fresh : ∀ s, w.nextSocket ≤ s → w.listener s = none
  bound : ∀ p s, (w.phase p).bound = some s → s < w.nextSocket

/-- No two processes are past the acquisition of the lock. -/
theorem Safe.unique (h : w.Safe) (hp : (w.phase p).Holds) (hq : (w.phase q).Holds) : p = q :=
  Option.some.inj (((h.lock p).mp hp).symm.trans ((h.lock q).mp hq))

/-- Only the holder of the lock has a listener. -/
theorem Safe.listener_eq (h : w.Safe) {s : SocketId} (hs : w.listener s = some (.daemon q))
    (hp : (w.phase p).Holds) : q = p :=
  h.unique (Phase.holds_of_bound (h.listens s q hs)) hp

theorem safe_init (node : Path → Option Node) (next : SocketId) (text : Option Pid) :
    (init node next text).Safe where
  lock := fun _ => ⟨fun h => h.elim, fun h => by cases h⟩
  listens := fun _ _ h => by cases h
  fresh := fun _ _ => rfl
  bound := fun _ _ h => by cases h

/-- A process goes on with the lock and the socket it has. -/
theorem Safe.setPhase (h : w.Safe) {ph : Phase} (hholds : ph.Holds ↔ (w.phase p).Holds)
    (hbound : ph.bound = (w.phase p).bound) : (w.setPhase p ph).Safe where
  lock q := by
    by_cases hq : q = p
    · subst hq
      rw [setPhase_self, hholds]
      exact h.lock q
    · rw [setPhase_of_ne w ph hq]
      exact h.lock q
  listens s q hs := by
    by_cases hq : q = p
    · subst hq
      rw [setPhase_self, hbound]
      exact h.listens s q hs
    · rw [setPhase_of_ne w ph hq]
      exact h.listens s q hs
  fresh := h.fresh
  bound q s hs := by
    by_cases hq : q = p
    · subst hq
      rw [setPhase_self, hbound] at hs
      exact h.bound q s hs
    · rw [setPhase_of_ne w ph hq] at hs
      exact h.bound q s hs

/-- The files, and what the lock file says, are not what the lock and the listeners are about. -/
theorem Safe.files (h : w.Safe) (node : Path → Option Node) (text : Option Pid) :
    Safe { w with node := node, pidText := text } :=
  ⟨h.lock, h.listens, h.fresh, h.bound⟩

/-- A process that is gone has neither lock nor listener, and the others have theirs. -/
theorem Safe.finish (h : w.Safe) (p : Pid) (e : Exit) : (w.finish p e).Safe where
  lock q := by
    by_cases hq : q = p
    · subst hq
      simp only [World.finish, setPhase_self]
      refine ⟨fun hholds => hholds.elim, fun hlock => ?_⟩
      split at hlock
      · cases hlock
      next hne => exact (hne hlock).elim
    · simp only [World.finish, setPhase_of_ne w _ hq]
      rw [h.lock q]
      split
      next hp => simp [hp, Ne.symm hq]
      next => exact Iff.rfl
  listens s q hs := by
    simp only [World.finish] at hs
    split at hs
    · cases hs
    next hne =>
      have hq : q ≠ p := fun hqp => hne (hqp ▸ hs)
      simp only [World.finish, setPhase_of_ne w _ hq]
      exact h.listens s q hs
  fresh s hs := by
    simp only [World.finish]
    split
    · rfl
    · exact h.fresh s hs
  bound q s hs := by
    by_cases hq : q = p
    · subst hq
      simp only [World.finish, setPhase_self] at hs
      cases hs
    · simp only [World.finish, setPhase_of_ne w _ hq] at hs
      exact h.bound q s hs

theorem Safe.acquire (h : w.Safe) (hp : w.phase p = .starting) (hl : w.lock = none) :
    Safe { w.setPhase p .locked with lock := some p } where
  lock q := by
    by_cases hq : q = p
    · subst hq
      simp [World.setPhase, Phase.Holds]
    · simp only [setPhase_of_ne w _ hq, h.lock q, hl]
      simp [Ne.symm hq]
  listens s q hs := by
    have hbound := h.listens s q hs
    by_cases hq : q = p
    · subst hq
      rw [hp] at hbound
      cases hbound
    · simpa only [setPhase_of_ne w _ hq] using hbound
  fresh := h.fresh
  bound q s hs := by
    by_cases hq : q = p
    · subst hq
      simp only [setPhase_self] at hs
      cases hs
    · simp only [setPhase_of_ne w _ hq] at hs
      exact h.bound q s hs

/-- A new socket, of a daemon that now serves on it or of an unrelated program. -/
theorem Safe.listen_foreign (h : w.Safe) (path : Path) : (w.listen path .foreign).Safe where
  lock := h.lock
  listens s q hs := by
    simp only [World.listen, World.setNode, Function.update_apply] at hs
    split at hs
    · cases hs
    · exact h.listens s q hs
  fresh s hs := by
    have hlt : w.nextSocket < s := hs
    simp only [World.listen, World.setNode]
    rw [Function.update_of_ne (Nat.ne_of_gt hlt)]
    exact h.fresh s (Nat.le_of_lt hlt)
  bound q s hs := Nat.lt_succ_of_lt (h.bound q s hs)

theorem Safe.listen_daemon (h : w.Safe) (hp : w.phase p = .binding) (path : Path) :
    ((w.listen path (.daemon p)).setPhase p (.serving w.nextSocket)).Safe where
  lock q := by
    by_cases hq : q = p
    · subst hq
      have hlock := (h.lock q).mp (by rw [hp]; trivial)
      simp [World.setPhase, World.listen, World.setNode, Phase.Holds, hlock]
    · rw [setPhase_of_ne _ _ hq]
      exact h.lock q
  listens s q hs := by
    simp only [World.setPhase, World.listen, World.setNode, Function.update_apply] at hs ⊢
    by_cases hq : q = p
    · subst hq
      rw [if_pos rfl]
      split at hs
      next hnext => rw [hnext]; rfl
      next =>
        have hbound := h.listens s q hs
        rw [hp] at hbound
        cases hbound
    · rw [if_neg hq]
      split at hs
      · cases hs
        exact absurd rfl hq
      · exact h.listens s q hs
  fresh s hs := by
    have hlt : w.nextSocket < s := hs
    simp only [World.setPhase, World.listen, World.setNode]
    rw [Function.update_of_ne (Nat.ne_of_gt hlt)]
    exact h.fresh s (Nat.le_of_lt hlt)
  bound q s hs := by
    simp only [World.setPhase, World.listen, World.setNode, Function.update_apply] at hs ⊢
    split at hs
    · cases hs
      exact Nat.lt_succ_self _
    · exact Nat.lt_succ_of_lt (h.bound q s hs)

/-- Whoever stops listening, nobody else does. -/
theorem Safe.silence (h : w.Safe) (s : SocketId) :
    Safe { w with listener := Function.update w.listener s none } where
  lock := h.lock
  listens t q ht := by
    simp only [Function.update_apply] at ht
    split at ht
    · cases ht
    · exact h.listens t q ht
  fresh t ht := by
    simp only [Function.update_apply]
    split
    · rfl
    · exact h.fresh t ht
  bound := h.bound

theorem Safe.step (h : w.Safe) {a : Action} (hstep : w.step adminSocket a = some w') :
    w'.Safe := by
  cases step_cases hstep with
  | launch hp => exact h.setPhase (by simp [hp, Phase.Holds]) (by rw [hp]; rfl)
  | acquire hp hl => exact h.acquire hp hl
  | contended | notASocket | inUse | gone | taken | exit | die => exact h.finish _ _
  | truncate hp | writePid hp =>
      exact (h.setPhase (by simp [hp, Phase.Holds]) (by rw [hp]; rfl)).files _ _
  | configured hp | clear hp | found hp | stale hp | drain hp =>
      exact h.setPhase (by simp [hp, Phase.Holds]) (by rw [hp]; rfl)
  | remove hp | unlink hp =>
      exact (h.setPhase (by simp [hp, Phase.Holds]) (by rw [hp]; rfl)).files _ _
  | bind hp => exact h.listen_daemon hp _
  | hangUp | foreignQuit => exact h.silence _
  | foreignListen => exact h.listen_foreign _
  | foreignCreate | foreignDelete => exact h.files _ _

/-! ### What the lock file says -/

/-- The lock file is empty or names the holder of the lock, once the holder has come to write
it. -/
structure Told (w : World) : Prop where
  truncated : ∀ p, w.phase p = .truncated → w.pidText = none
  recorded : ∀ p, Phase.Recorded (w.phase p) → w.pidText = some p

/-- A process that does not come to hold the lock, or to write the file, leaves it as it is. -/
theorem Told.setPhase (h : w.Told) {ph : Phase} (htruncated : ph ≠ .truncated)
    (hrecorded : Phase.Recorded ph → Phase.Recorded (w.phase p)) : (w.setPhase p ph).Told where
  truncated q hq := by
    by_cases hqp : q = p
    · subst hqp
      rw [setPhase_self] at hq
      exact absurd hq htruncated
    · rw [setPhase_of_ne w ph hqp] at hq
      exact h.truncated q hq
  recorded q hq := by
    by_cases hqp : q = p
    · subst hqp
      rw [setPhase_self] at hq
      exact h.recorded q (hrecorded hq)
    · rw [setPhase_of_ne w ph hqp] at hq
      exact h.recorded q hq

/-- The one who holds the lock may write what it likes, as long as it is told of it. -/
theorem Told.write (hs : w.Safe) {ph : Phase} {text : Option Pid} (hp : (w.phase p).Holds)
    (htruncated : ph = .truncated → text = none) (hrecorded : Phase.Recorded ph → text = some p) :
    Told { w.setPhase p ph with pidText := text } where
  truncated q hq := by
    by_cases hqp : q = p
    · subst hqp
      simp only [setPhase_self] at hq
      exact htruncated hq
    · simp only [setPhase_of_ne w ph hqp] at hq
      exact absurd (hs.unique (by rw [hq]; trivial) hp) hqp
  recorded q hq := by
    by_cases hqp : q = p
    · subst hqp
      simp only [setPhase_self] at hq
      exact hrecorded hq
    · simp only [setPhase_of_ne w ph hqp] at hq
      exact absurd (hs.unique (Phase.holds_of_recorded hq) hp) hqp

theorem Told.of_eq (h : w.Told) (hphase : w'.phase = w.phase) (htext : w'.pidText = w.pidText) :
    w'.Told where
  truncated := by rw [hphase, htext]; exact h.truncated
  recorded := by rw [hphase, htext]; exact h.recorded

theorem Told.finish (h : w.Told) (e : Exit) : (w.finish p e).Told := by
  have hexited : (w.setPhase p (.exited e)).Told := h.setPhase (by simp) False.elim
  exact hexited.of_eq rfl rfl

theorem Told.step (h : w.Told) (hs : w.Safe) {a : Action}
    (hstep : w.step adminSocket a = some w') : w'.Told := by
  cases step_cases hstep with
  | launch => exact h.setPhase (by simp) False.elim
  | @acquire p =>
      have hlocked : (w.setPhase p .locked).Told := h.setPhase (by simp) False.elim
      exact hlocked.of_eq rfl rfl
  | contended | notASocket | inUse | gone | taken | exit | die => exact h.finish _
  | truncate hp => exact .write hs (by rw [hp]; trivial) (fun _ => rfl) False.elim
  | writePid hp => exact .write hs (by rw [hp]; trivial) (by simp) fun _ => rfl
  | configured hp | clear hp | found hp | stale hp | remove hp | drain hp | unlink hp | bind hp =>
      exact (h.setPhase (by simp) fun _ => by rw [hp]; trivial).of_eq rfl rfl
  | hangUp | foreignQuit | foreignListen | foreignCreate | foreignDelete => exact h.of_eq rfl rfl

/-! ### One daemon at a time -/

/-- Where only daemons have been at work: what each has found at its path or made of it still
holds, and none ends for want of a socket. -/
def At (adminSocket : Pid → Path) (w : World) (p : Pid) : Phase → Prop
  | .probing | .removing => w.node (adminSocket p) ≠ none
  | .binding => w.node (adminSocket p) = none
  | .serving s => w.node (adminSocket p) = some (.socket s) ∧ w.listener s = some (.daemon p)
  | .exited e => e = .success ∨ e = .died ∨ ∃ pid, e = .failure (.alreadyRunning pid)
  | _ => True

structure Undisturbed (adminSocket : Pid → Path) (w : World) : Prop where
  listener : ∀ s, w.listener s ≠ some .foreign
  node : ∀ path, w.node path ≠ some .other
  at_ : ∀ p, At adminSocket w p (w.phase p)

theorem At.of_not_holds {ph : Phase} (h : At adminSocket w p ph) (hph : ¬ ph.Holds) :
    At adminSocket w' p ph := by
  cases ph with
  | exited e => exact h
  | unborn | starting => trivial
  | _ => exact (hph trivial).elim

/-- What the holder of the lock does to the paths and its listener is no other daemon's concern. -/
theorem Undisturbed.move (h : w.Undisturbed adminSocket) (hs : w.Safe) {ph : Phase}
    (hp : (w.phase p).Holds) (hphase : w'.phase = Function.update w.phase p ph)
    (hlistener : ∀ s, w'.listener s ≠ some .foreign) (hnode : ∀ path, w'.node path ≠ some .other)
    (hat : At adminSocket w' p ph) : w'.Undisturbed adminSocket where
  listener := hlistener
  node := hnode
  at_ q := by
    rw [hphase]
    by_cases hq : q = p
    · subst hq
      rwa [Function.update_self]
    · rw [Function.update_of_ne hq]
      exact (h.at_ q).of_not_holds fun hholds => hq (hs.unique hholds hp)

theorem Undisturbed.setPhase (h : w.Undisturbed adminSocket) {ph : Phase}
    (hat : At adminSocket w p ph) (hphase : w'.phase = Function.update w.phase p ph)
    (hnode : w'.node = w.node) (hlistener : w'.listener = w.listener) :
    w'.Undisturbed adminSocket where
  listener := by rw [hlistener]; exact h.listener
  node := by rw [hnode]; exact h.node
  at_ q := by
    have hsame : ∀ ph', At adminSocket w q ph' → At adminSocket w' q ph' := by
      intro ph' hph'
      unfold At
      rw [hnode, hlistener]
      exact hph'
    rw [hphase]
    by_cases hq : q = p
    · subst hq
      rw [Function.update_self]
      exact hsame ph hat
    · rw [Function.update_of_ne hq]
      exact hsame _ (h.at_ q)

/-- A process that is gone takes its own listener with it. -/
theorem Undisturbed.finish (h : w.Undisturbed adminSocket) {e : Exit}
    (he : e = .success ∨ e = .died ∨ ∃ pid, e = .failure (.alreadyRunning pid)) :
    (w.finish p e).Undisturbed adminSocket where
  listener s := by
    simp only [World.finish]
    split
    · simp
    · exact h.listener s
  node := h.node
  at_ q := by
    by_cases hq : q = p
    · subst hq
      simp only [World.finish, setPhase_self]
      exact he
    · simp only [World.finish, setPhase_of_ne w _ hq]
      have hat := h.at_ q
      cases hphase : w.phase q with
      | serving s =>
          rw [hphase] at hat
          refine ⟨hat.1, ?_⟩
          simp only [hat.2]
          rw [if_neg (by simp [hq])]
      | _ =>
          rw [hphase] at hat
          exact hat

/-- What somebody listens on where only daemons are is a daemon's, and that one holds the lock. -/
theorem Undisturbed.not_live (h : w.Undisturbed adminSocket) (hs : w.Safe)
    (hp : (w.phase p).Holds) (hbound : (w.phase p).bound = none) (path : Path) :
    w.live path = false := by
  unfold live
  split
  next s hn =>
    cases hl : w.listener s with
    | none => rfl
    | some o =>
        cases o with
        | foreign => exact absurd hl (h.listener s)
        | daemon q =>
            obtain rfl := hs.listener_eq hl hp
            have hq := hs.listens s q hl
            rw [hbound] at hq
            cases hq
  next => rfl

theorem node_ne_other_of_update {node : Path → Option Node} (h : ∀ path, node path ≠ some .other)
    {n : Option Node} (hn : n ≠ some .other) (path path' : Path) :
    Function.update node path n path' ≠ some .other := by
  rw [Function.update_apply]
  split
  · exact hn
  · exact h path'

theorem Undisturbed.step (h : w.Undisturbed adminSocket) (hs : w.Safe) {a : Action}
    (ha : ¬ a.Foreign) (hstep : w.step adminSocket a = some w') :
    w'.Undisturbed adminSocket := by
  have hat := fun p => h.at_ p
  cases step_cases hstep with
  | launch | acquire | truncate | writePid | configured =>
      exact h.setPhase (by trivial) rfl rfl rfl
  | contended => exact h.finish (.inr (.inr ⟨_, rfl⟩))
  | @clear p hp hn => exact h.setPhase (show At adminSocket w p .binding from hn) rfl rfl rfl
  | @found p s hp hn =>
      have hprobing : At adminSocket w p .probing := by simp [At, hn]
      exact h.setPhase hprobing rfl rfl rfl
  | @stale p hp hlive =>
      have hprobing := hat p
      rw [hp] at hprobing
      exact h.setPhase (show At adminSocket w p .removing from hprobing) rfl rfl rfl
  | drain => exact h.setPhase (by trivial) rfl rfl rfl
  | notASocket hp hn => exact absurd hn (h.node _)
  | @inUse p hp hlive =>
      have hfalse := h.not_live (p := p) hs (by rw [hp]; trivial) (by rw [hp]; rfl) (adminSocket p)
      rw [hfalse] at hlive
      cases hlive
  | @gone p hp hn =>
      have hremoving := hat p
      rw [hp] at hremoving
      exact absurd hn hremoving
  | @taken p n hp hn =>
      have hbinding := hat p
      rw [hp] at hbinding
      cases hn.symm.trans hbinding
  | exit => exact h.finish (.inl rfl)
  | die => exact h.finish (.inr (.inl rfl))
  | @remove p n hp hn =>
      refine h.move hs (by rw [hp]; trivial) rfl h.listener ?_
        (show Function.update w.node _ _ _ = none from Function.update_self ..)
      exact fun path => node_ne_other_of_update h.node (by simp) _ path
  | @unlink p s hp =>
      refine h.move hs (by rw [hp]; trivial) rfl h.listener ?_ trivial
      exact fun path => node_ne_other_of_update h.node (by simp) _ path
  | @bind p hp hn =>
      refine h.move hs (by rw [hp]; trivial) rfl (fun s => ?_) ?_
        ⟨Function.update_self .., Function.update_self ..⟩
      · show Function.update w.listener _ _ s ≠ _
        rw [Function.update_apply]
        split
        · simp
        · exact h.listener s
      · exact fun path => node_ne_other_of_update h.node (by simp) _ path
  | @hangUp p s hp =>
      have hsame : w.phase = Function.update w.phase p (w.phase p) := by simp
      have hholds : (w.phase p).Holds := by rcases hp with hp | hp <;> rw [hp] <;> trivial
      refine h.move hs hholds hsame (fun t => ?_) h.node ?_
      · show Function.update w.listener _ _ t ≠ _
        rw [Function.update_apply]
        split
        · simp
        · exact h.listener t
      · rcases hp with hp | hp <;> rw [hp] <;> trivial
  | foreignCreate | foreignListen | foreignQuit | foreignDelete => exact absurd trivial ha

/-! ### The way to the socket -/

/-- The daemons that are there can go on so that this one serves. -/
def CanServe (adminSocket : Pid → Path) (w : World) (p : Pid) : Prop :=
  ∃ as w' s, (∀ a ∈ as, a.Own) ∧ run (World.step adminSocket) w as = some w' ∧
    w'.phase p = .serving s

theorem CanServe.of_step {a : Action} (hstep : w.step adminSocket a = some w') (ha : a.Own)
    (h : CanServe adminSocket w' p) : CanServe adminSocket w p := by
  obtain ⟨as, t, s, hours, hrun, hserving⟩ := h
  refine ⟨a :: as, t, s, ?_, by rw [run, hstep]; exact hrun, hserving⟩
  intro b hb
  rcases List.mem_cons.mp hb with rfl | hb
  · exact ha
  · exact hours b hb

theorem canServe_of_binding (hp : w.phase p = .binding) (hn : w.node (adminSocket p) = none) :
    CanServe adminSocket w p := by
  have hstep : w.step adminSocket (.bind p) =
      some ((w.listen (adminSocket p) (.daemon p)).setPhase p (.serving w.nextSocket)) := by
    simp [World.step, hp, hn]
  exact .of_step hstep trivial ⟨[], _, _, by simp, rfl, setPhase_self ..⟩

theorem canServe_of_removing (hp : w.phase p = .removing)
    (hn : w.node (adminSocket p) ≠ none) : CanServe adminSocket w p := by
  obtain ⟨n, hn⟩ := Option.ne_none_iff_exists'.mp hn
  have hstep : w.step adminSocket (.remove p) =
      some ((w.setPhase p .binding).setNode (adminSocket p) none) := by
    simp [World.step, hp, hn]
  exact .of_step hstep trivial (canServe_of_binding (setPhase_self ..) (Function.update_self ..))

theorem canServe_of_probing (h : w.Undisturbed adminSocket) (hs : w.Safe)
    (hp : w.phase p = .probing) : CanServe adminSocket w p := by
  have hprobing := h.at_ p
  rw [hp] at hprobing
  have hlive := h.not_live hs (by rw [hp]; trivial) (by rw [hp]; rfl) (adminSocket p)
  have hstep : w.step adminSocket (.connect p) = some (w.setPhase p .removing) := by
    simp [World.step, hp, hlive]
  exact .of_step hstep trivial (canServe_of_removing (setPhase_self ..) hprobing)

theorem canServe_of_clearing (h : w.Undisturbed adminSocket) (hs : w.Safe)
    (hp : w.phase p = .clearing) : CanServe adminSocket w p := by
  cases hn : w.node (adminSocket p) with
  | none =>
      have hstep : w.step adminSocket (.stat p) = some (w.setPhase p .binding) := by
        simp [World.step, hp, hn]
      exact .of_step hstep trivial (canServe_of_binding (setPhase_self ..) hn)
  | some n =>
      cases n with
      | other => exact absurd hn (h.node _)
      | socket s =>
          have hstep : w.step adminSocket (.stat p) = some (w.setPhase p .probing) := by
            simp [World.step, hp, hn]
          exact .of_step hstep trivial
            (canServe_of_probing (h.step hs id hstep) (hs.step hstep) (setPhase_self ..))

theorem canServe_of_configuring (h : w.Undisturbed adminSocket) (hs : w.Safe)
    (hp : w.phase p = .configuring) : CanServe adminSocket w p := by
  have hstep : w.step adminSocket (.configured p) = some (w.setPhase p .clearing) := by
    simp [World.step, hp]
  exact .of_step hstep trivial
    (canServe_of_clearing (h.step hs id hstep) (hs.step hstep) (setPhase_self ..))

theorem canServe_of_truncated (h : w.Undisturbed adminSocket) (hs : w.Safe)
    (hp : w.phase p = .truncated) : CanServe adminSocket w p := by
  have hstep : w.step adminSocket (.writePid p) =
      some { w.setPhase p .configuring with pidText := some p } := by
    simp [World.step, hp]
  exact .of_step hstep trivial
    (canServe_of_configuring (h.step hs id hstep) (hs.step hstep) (setPhase_self ..))

theorem canServe_of_locked (h : w.Undisturbed adminSocket) (hs : w.Safe)
    (hp : w.phase p = .locked) : CanServe adminSocket w p := by
  have hstep : w.step adminSocket (.truncate p) =
      some { w.setPhase p .truncated with pidText := none } := by
    simp [World.step, hp]
  exact .of_step hstep trivial
    (canServe_of_truncated (h.step hs id hstep) (hs.step hstep) (setPhase_self ..))

/-- Whoever finds the lock free gets to its socket. -/
theorem canServe_of_starting (h : w.Undisturbed adminSocket) (hs : w.Safe)
    (hp : w.phase p = .starting) (hl : w.lock = none) : CanServe adminSocket w p := by
  have hstep : w.step adminSocket (.tryLock p) =
      some { w.setPhase p .locked with lock := some p } := by
    simp [World.step, hp, hl]
  exact .of_step hstep trivial
    (canServe_of_locked (h.step hs id hstep) (hs.step hstep) (setPhase_self ..))

/-- And so does whoever holds it, unless it has served already. -/
theorem canServe_of_holds (h : w.Undisturbed adminSocket) (hs : w.Safe)
    (hp : (w.phase p).Holds) (hdrain : ∀ s, w.phase p ≠ .draining s ∧ w.phase p ≠ .unlinked s) :
    CanServe adminSocket w p := by
  have hat := h.at_ p
  cases hphase : w.phase p with
  | locked => exact canServe_of_locked h hs hphase
  | truncated => exact canServe_of_truncated h hs hphase
  | configuring => exact canServe_of_configuring h hs hphase
  | clearing => exact canServe_of_clearing h hs hphase
  | probing => exact canServe_of_probing h hs hphase
  | removing =>
      rw [hphase] at hat
      exact canServe_of_removing hphase hat
  | binding =>
      rw [hphase] at hat
      exact canServe_of_binding hphase hat
  | serving s => exact ⟨[], w, s, by simp, rfl, hphase⟩
  | draining s => exact absurd hphase (hdrain s).1
  | unlinked s => exact absurd hphase (hdrain s).2
  | unborn | starting | exited =>
      rw [hphase] at hp
      exact hp.elim

end World

end Boot

end Datamancer
