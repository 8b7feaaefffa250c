import Datamancer.Daemon.SingleInstance
import Datamancer.Storage.TapNames

/-!
# Datamancer.Client.Lifecycle

Finding a daemon or spawning one (`app/lifecycle.rs`, `AppHandle::ensure`): any number of calls,
of any number of apps, over one host with its daemons. A probe fails for any reason at any time; it
succeeds where a daemon serves at the call's socket, or where an unrelated program answers there.
When a call's deadline has passed is the schedule's choice.
-/

namespace Datamancer

namespace Lifecycle

open ActionSystem Boot

/-! ### Calls -/

structure DaemonHello where
  version : String
  credentialBackend : Option String
  deriving DecidableEq

/-- `major_minor`. -/
def majorMinor (v : List Char) : Option (Nat × Nat) :=
  match v.splitOn '.' with
  | major :: minor :: _ =>
      (TapLog.parseU64 major).bind fun major =>
        (TapLog.parseU64 minor).map fun minor => (major, minor)
  | _ => none

def versionCompatible (client daemon : String) : Bool :=
  match majorMinor client.toList, majorMinor daemon.toList with
  | some (cmaj, cmin), some (dmaj, dmin) => cmaj == dmaj && (cmaj != 0 || cmin == dmin)
  | _, _ => false

inductive ReadyDiagnosis
  | daemonExited (e : Exit)
  | unresponsive (lastPingFailure : Option String)
  deriving DecidableEq

inductive EnsureError
  | spawnFailed
  | readyTimeout (diagnosis : ReadyDiagnosis)
  | versionSkew (daemon client : String)
  deriving DecidableEq

abbrev CallId := Nat

/-- Where a call is; once it has spawned a process it polls for a daemon, whichever it be. -/
inductive Call
  | idle
  | probing
  | spawning
  | polling (p : Pid) (exit : Option Exit)
  /-- The probe has failed, and the process is asked whether it has exited. -/
  | observing (p : Pid) (exit : Option Exit) (failure : String)
  | waiting (p : Pid) (exit : Option Exit) (failure : String)
  | done (res : Except EnsureError DaemonHello)

structure World where
  host : Boot.World
  call : CallId → Call
  /-- The process each call has spawned. -/
  spawned : CallId → Option Pid

inductive Action
  | host (a : Boot.Action)
  | ensure (c : CallId)
  | ping (c : CallId) (reply : Except String DaemonHello)
  | spawn (c : CallId) (p : Pid)
  | spawnFails (c : CallId)
  /-- `poll_exit`, which may not see an exit. -/
  | pollExit (c : CallId) (seen : Bool)
  | deadline (c : CallId) (passed : Bool)

/-- What nobody launches, and no unrelated program does. -/
def Action.Own : Action → Prop
  | host a => a.Own
  | spawn _ _ => False
  | _ => True

/-- What no unrelated program does. -/
def Action.Undisturbing : Action → Prop
  | host a => ¬ a.Foreign
  | _ => True

section System

variable (adminSocket : Pid → Path) (hello : Pid → DaemonHello) (socket : CallId → Path)
  (client : String)

/-- `check_version`. -/
def checkVersion (h : DaemonHello) : Except EnsureError DaemonHello :=
  if versionCompatible client h.version then .ok h else .error (.versionSkew h.version client)

namespace World

def init (host : Boot.World) : World := ⟨host, fun _ => .idle, fun _ => none⟩

def setCall (w : World) (c : CallId) (st : Call) : World :=
  { w with call := Function.update w.call c st }

/-- Who listens at a path. -/
def answering (w : World) (path : Path) : Option Owner :=
  match w.host.node path with
  | some (.socket s) => w.host.listener s
  | _ => none

def serving (w : World) (p : Pid) : Bool :=
  match w.host.phase p with
  | .serving _ => true
  | _ => false

/-- A probe of this path may end so; a daemon answers a ping as long as it serves, and refuses it
while it drains. -/
def replies (w : World) (path : Path) : Except String DaemonHello → Bool
  | .error _ => true
  | .ok h =>
      match w.answering path with
      | some (.daemon p) => w.serving p && h == hello p
      | some .foreign => true
      | none => false

def step (w : World) : Action → Option World
  | .host a => (w.host.step adminSocket a).map fun host => { w with host := host }
  | .ensure c =>
      match w.call c with
      | .idle => some (w.setCall c .probing)
      | _ => none
  | .ping c reply =>
      if w.replies hello (socket c) reply then
        match w.call c, reply with
        | .probing, .ok h => some (w.setCall c (.done (checkVersion client h)))
        | .probing, .error _ => some (w.setCall c .spawning)
        | .polling _ _, .ok h => some (w.setCall c (.done (checkVersion client h)))
        | .polling p exit, .error failure => some (w.setCall c (.observing p exit failure))
        | _, _ => none
      else none
  | .spawn c p =>
      match w.call c with
      | .spawning => (w.host.step adminSocket (.launch p)).map fun host =>
          { w.setCall c (.polling p none) with
            host := host
            spawned := Function.update w.spawned c (some p) }
      | _ => none
  | .spawnFails c =>
      match w.call c with
      | .spawning => some (w.setCall c (.done (.error .spawnFailed)))
      | _ => none
  | .pollExit c seen =>
      match w.call c with
      | .observing p (some e) failure => some (w.setCall c (.waiting p (some e) failure))
      | .observing p none failure =>
          match seen, w.host.phase p with
          | true, .exited e => some (w.setCall c (.waiting p (some e) failure))
          | true, _ => none
          | false, _ => some (w.setCall c (.waiting p none failure))
      | _ => none
  | .deadline c passed =>
      match w.call c, passed with
      | .waiting p exit _, false => some (w.setCall c (.polling p exit))
      | .waiting _ (some e) _, true =>
          some (w.setCall c (.done (.error (.readyTimeout (.daemonExited e)))))
      | .waiting _ none failure, true =>
          some (w.setCall c (.done (.error (.readyTimeout (.unresponsive (some failure))))))
      | _, _ => none

/-! ### Inversion of a step -/

/-- What each action can do, with what it needs. -/
inductive Step (w : World) : Action → World → Prop
  | host {a host} (h : w.host.step adminSocket a = some host) :
      Step w (.host a) { w with host := host }
  | ensure {c} (hc : w.call c = .idle) : Step w (.ensure c) (w.setCall c .probing)
  | answered {c h} (hc : w.call c = .probing ∨ ∃ p exit, w.call c = .polling p exit)
      (hr : w.replies hello (socket c) (.ok h) = true) :
      Step w (.ping c (.ok h)) (w.setCall c (.done (checkVersion client h)))
  | notFound {c failure} (hc : w.call c = .probing) :
      Step w (.ping c (.error failure)) (w.setCall c .spawning)
  | notReady {c failure p exit} (hc : w.call c = .polling p exit) :
      Step w (.ping c (.error failure)) (w.setCall c (.observing p exit failure))
  | spawn {c p host} (hc : w.call c = .spawning)
      (h : w.host.step adminSocket (.launch p) = some host) :
      Step w (.spawn c p)
        { w.setCall c (.polling p none) with
          host := host
          spawned := Function.update w.spawned c (some p) }
  | spawnFails {c} (hc : w.call c = .spawning) :
      Step w (.spawnFails c) (w.setCall c (.done (.error .spawnFailed)))
  | observed {c seen p failure e} (exit : Option Exit) (hc : w.call c = .observing p exit failure)
      (he : exit = some e ∨ w.host.phase p = .exited e) :
      Step w (.pollExit c seen) (w.setCall c (.waiting p (some e) failure))
  | running {c seen p failure} (hc : w.call c = .observing p none failure) :
      Step w (.pollExit c seen) (w.setCall c (.waiting p none failure))
  | retry {c p exit failure} (hc : w.call c = .waiting p exit failure) :
      Step w (.deadline c false) (w.setCall c (.polling p exit))
  | exited {c p e failure} (hc : w.call c = .waiting p (some e) failure) :
      Step w (.deadline c true)
        (w.setCall c (.done (.error (.readyTimeout (.daemonExited e)))))
  | unresponsive {c p failure} (hc : w.call c = .waiting p none failure) :
      Step w (.deadline c true)
        (w.setCall c (.done (.error (.readyTimeout (.unresponsive (some failure))))))

variable {adminSocket hello socket client} {w w' : World}

theorem step_cases {a : Action} (h : w.step adminSocket hello socket client a = some w') :
    Step adminSocket hello socket client w a w' := by
  cases a with
  | host a =>
      obtain ⟨host, hhost, rfl⟩ := Option.map_eq_some_iff.mp h
      exact .host hhost
  | ensure c =>
      simp only [step] at h
      split at h <;> cases h
      exact .ensure ‹_›
  | ping c reply =>
      obtain ⟨hr, h⟩ := Option.ite_none_right_eq_some.mp h
      split at h <;> cases h
      · exact .answered (.inl ‹_›) hr
      · exact .notFound ‹_›
      · exact .answered (.inr ⟨_, _, ‹_›⟩) hr
      · exact .notReady ‹_›
  | spawn c p =>
      simp only [step] at h
      split at h
      · obtain ⟨host, hhost, rfl⟩ := Option.map_eq_some_iff.mp h
        exact .spawn ‹_› hhost
      · cases h
  | spawnFails c =>
      simp only [step] at h
      split at h <;> cases h
      exact .spawnFails ‹_›
  | pollExit c seen =>
      simp only [step] at h
      split at h
      · cases h
        exact .observed _ ‹_› (.inl rfl)
      · split at h <;> cases h
        · exact .observed _ ‹_› (.inr ‹_›)
        · exact .running ‹_›
      · cases h
  | deadline c passed =>
      simp only [step] at h
      split at h <;> cases h
      · exact .retry ‹_›
      · exact .exited ‹_›
      · exact .unresponsive ‹_›

@[simp] theorem setCall_self (w : World) (c : CallId) (st : Call) : (w.setCall c st).call c = st :=
  Function.update_self ..

theorem setCall_of_ne (w : World) {c d : CallId} (st : Call) (h : d ≠ c) :
    (w.setCall c st).call d = w.call d :=
  Function.update_of_ne h ..

/-! ### What a call knows -/

/-- What a call has spawned and found out of it. -/
def Knows (client : String) (w : World) (c : CallId) : Call → Prop
  | .idle | .probing | .spawning => w.spawned c = none
  | .polling p exit | .observing p exit _ | .waiting p exit _ =>
      w.spawned c = some p ∧ ∀ e, exit = some e → w.host.phase p = .exited e
  | .done res =>
      (∀ e, res = .error (.readyTimeout (.daemonExited e)) →
        ∃ p, w.spawned c = some p ∧ w.host.phase p = .exited e) ∧
      ∀ h, res = .ok h → versionCompatible client h.version = true

structure Sound (client : String) (w : World) : Prop where
  knows : ∀ c, Knows client w c (w.call c)
  launched : ∀ c p, w.spawned c = some p → w.host.phase p ≠ .unborn
  own : ∀ c d p, w.spawned c = some p → w.spawned d = some p → c = d

theorem sound_init (host : Boot.World) : Sound client (init host) where
  knows := fun _ => rfl
  launched := fun _ _ h => by cases h
  own := fun _ _ _ h => by cases h

/-- What a process has been it does not become again. -/
theorem exited_of_step {h h' : Boot.World} {a : Boot.Action} {p : Pid} {e : Exit}
    (hstep : h.step adminSocket a = some h') (hp : h.phase p = .exited e) :
    h'.phase p = .exited e := by
  rcases Boot.World.next_of_step hstep p with hsame | ⟨hnext, -⟩
  · rw [hsame, hp]
  · exact absurd hp (hnext.ne_exited e)

theorem ne_unborn_of_step {h h' : Boot.World} {a : Boot.Action} {p : Pid}
    (hstep : h.step adminSocket a = some h') (hp : h.phase p ≠ .unborn) :
    h'.phase p ≠ .unborn := by
  rcases Boot.World.next_of_step hstep p with hsame | ⟨hnext, -⟩
  · rwa [hsame]
  · exact hnext.ne_unborn

/-- What a call knows it goes on to know. -/
theorem Knows.mono {c : CallId} {st : Call} (h : Knows client w c st)
    (hspawned : w'.spawned c = w.spawned c)
    (hexited : ∀ p e, w.host.phase p = .exited e → w'.host.phase p = .exited e) :
    Knows client w' c st := by
  cases st with
  | idle | probing | spawning => exact hspawned.trans h
  | polling p exit | observing p exit failure | waiting p exit failure =>
      exact ⟨hspawned.trans h.1, fun e he => hexited p e (h.2 e he)⟩
  | done res =>
      refine ⟨fun e he => ?_, h.2⟩
      obtain ⟨p, hp, hphase⟩ := h.1 e he
      exact ⟨p, hspawned.trans hp, hexited p e hphase⟩

/-- A call goes on, and spawns nothing. -/
theorem Sound.setCall (hs : Sound client w) {c : CallId} {st : Call} (h : Knows client w c st) :
    Sound client (w.setCall c st) where
  knows d := by
    by_cases hd : d = c
    · subst hd
      rw [setCall_self]
      exact h.mono rfl fun _ _ hp => hp
    · rw [setCall_of_ne w st hd]
      exact (hs.knows d).mono rfl fun _ _ hp => hp
  launched := hs.launched
  own := hs.own

theorem Sound.host (hs : Sound client w) {a : Boot.Action} {host : Boot.World}
    (h : w.host.step adminSocket a = some host) : Sound client { w with host := host } where
  knows c := (hs.knows c).mono rfl fun _ _ hp => exited_of_step h hp
  launched c p hp := ne_unborn_of_step h (hs.launched c p hp)
  own := hs.own

/-- A call spawns the one process it polls for, which is nobody else's. -/
theorem Sound.spawn (hs : Sound client w) {c : CallId} {p : Pid} {host : Boot.World}
    (h : w.host.step adminSocket (.launch p) = some host) :
    Sound client { w.setCall c (.polling p none) with
      host := host
      spawned := Function.update w.spawned c (some p) } := by
  obtain ⟨hunborn, hhost⟩ : w.host.phase p = .unborn ∧ host = w.host.setPhase p .starting := by
    cases Boot.World.step_cases h with
    | launch hp => exact ⟨hp, rfl⟩
  refine ⟨fun d => ?_, fun d q hq => ?_, fun d e q hd he => ?_⟩
  · by_cases hd : d = c
    · subst hd
      simp only [setCall_self]
      exact ⟨Function.update_self .., fun e he => by cases he⟩
    · simp only [setCall_of_ne w _ hd]
      exact (hs.knows d).mono (Function.update_of_ne hd ..) fun _ _ hp => exited_of_step h hp
  · by_cases hd : d = c
    · subst hd
      simp only [Function.update_self, Option.some.injEq] at hq
      subst hq
      simp [hhost]
    · simp only [Function.update_of_ne hd] at hq
      exact ne_unborn_of_step h (hs.launched d q hq)
  · -- what others have spawned is there already
    have hother : ∀ d, d ≠ c → Function.update w.spawned c (some p) d ≠ some p := by
      intro d hd hq
      rw [Function.update_of_ne hd] at hq
      exact hs.launched d p hq hunborn
    by_cases hdc : d = c <;> by_cases hec : e = c
    · rw [hdc, hec]
    · subst hdc
      simp only [Function.update_self, Option.some.injEq] at hd
      subst hd
      exact absurd he (hother e hec)
    · subst hec
      simp only [Function.update_self, Option.some.injEq] at he
      subst he
      exact absurd hd (hother d hdc)
    · simp only [Function.update_of_ne hdc] at hd
      simp only [Function.update_of_ne hec] at he
      exact hs.own d e q hd he

theorem Sound.step (hs : Sound client w) {a : Action}
    (h : w.step adminSocket hello socket client a = some w') : Sound client w' := by
  cases step_cases h with
  | host hhost => exact hs.host hhost
  | @ensure c hc =>
      have hknows := hs.knows c
      rw [hc] at hknows
      exact hs.setCall hknows
  | @answered c h hc hr =>
      refine hs.setCall ⟨fun e he => ?_, fun h' hok => ?_⟩
      · unfold checkVersion at he
        split at he <;> cases he
      · unfold checkVersion at hok
        split at hok <;> cases hok
        assumption
  | @notFound c failure hc =>
      have hknows := hs.knows c
      rw [hc] at hknows
      exact hs.setCall hknows
  | @notReady c failure p exit hc =>
      have hknows := hs.knows c
      rw [hc] at hknows
      exact hs.setCall hknows
  | spawn hc hlaunch => exact hs.spawn hlaunch
  | spawnFails => exact hs.setCall ⟨fun _ he => (by cases he), fun _ he => (by cases he)⟩
  | @observed c seen p failure e exit hc he =>
      have hknows := hs.knows c
      rw [hc] at hknows
      refine hs.setCall ⟨hknows.1, fun e' he' => ?_⟩
      cases he'
      exact he.elim (hknows.2 e) id
  | @running c seen p failure hc =>
      have hknows := hs.knows c
      rw [hc] at hknows
      exact hs.setCall hknows
  | @retry c p exit failure hc =>
      have hknows := hs.knows c
      rw [hc] at hknows
      exact hs.setCall hknows
  | @exited c p e failure hc =>
      have hknows := hs.knows c
      rw [hc] at hknows
      refine hs.setCall ⟨fun e' he' => ?_, fun _ he' => (by cases he')⟩
      cases he'
      exact ⟨p, hknows.1, hknows.2 e rfl⟩
  | unresponsive => exact hs.setCall ⟨fun _ he => (by cases he), fun _ he => (by cases he)⟩

/-! ### Who answers -/

/-- The host, where no unrelated program has been at work. -/
def HostOk (adminSocket : Pid → Path) (w : World) : Prop :=
  w.host.Safe ∧ w.host.Undisturbed adminSocket

theorem hostOk_init {node : Path → Option Node} (hleft : ∀ path, node path ≠ some .other)
    (next : SocketId) (text : Option Pid) :
    HostOk adminSocket (init (Boot.World.init node next text)) :=
  ⟨Boot.World.safe_init node next text, fun _ hs => (by cases hs), hleft, fun _ => trivial⟩

theorem HostOk.step (hw : HostOk adminSocket w) {a : Action} (ha : a.Undisturbing)
    (h : w.step adminSocket hello socket client a = some w') : HostOk adminSocket w' := by
  cases step_cases h with
  | host hhost => exact ⟨hw.1.step hhost, hw.2.step hw.1 ha hhost⟩
  | spawn hc hlaunch => exact ⟨hw.1.step hlaunch, hw.2.step hw.1 id hlaunch⟩
  | _ => exact hw

/-- Only the one daemon that serves answers a probe. -/
theorem HostOk.replies (hw : HostOk adminSocket w) {path : Path} {h : DaemonHello}
    (hr : w.replies hello path (.ok h) = true) :
    ∃ p s, w.host.lock = some p ∧ w.host.phase p = .serving s ∧ h = hello p := by
  unfold World.replies at hr
  dsimp only at hr
  split at hr
  next p hanswering =>
    obtain ⟨hserving, hhello⟩ := (Bool.and_eq_true ..).mp hr
    unfold serving at hserving
    split at hserving
    next s hphase =>
      exact ⟨p, s, (hw.1.lock p).mp (by rw [hphase]; trivial), hphase, beq_iff_eq.mp hhello⟩
    next => cases hserving
  next hanswering =>
    unfold answering at hanswering
    split at hanswering
    next s hnode => exact absurd hanswering (hw.2.listener s)
    next => cases hanswering
  next => cases hr

/-- The process is there and has not come to its shutdown. -/
def Rising : Boot.Phase → Prop
  | .starting | .locked | .truncated | .configuring | .clearing | .probing | .removing | .binding =>
      True
  | .serving _ => True
  | .unborn | .draining _ | .unlinked _ | .exited _ => False

/-- The call has spawned its process and awaits a daemon. -/
def Polls : Call → Prop
  | .polling _ _ | .observing _ _ _ | .waiting _ _ _ => True
  | .idle | .probing | .spawning | .done _ => False

theorem rising_of_next {ph ph' : Boot.Phase} (h : ph.Next ph') (hrising : Rising ph') :
    Rising ph ∨ ph = .unborn := by
  cases h <;> first | exact .inr rfl | exact .inl trivial | exact hrising.elim

/-- Without a launch, no process comes to be on its way. -/
theorem rising_of_step {h h' : Boot.World} {a : Boot.Action} (ha : a.Own)
    (hstep : h.step adminSocket a = some h') {p : Pid} (hp : Rising (h'.phase p)) :
    Rising (h.phase p) := by
  rcases Boot.World.next_of_step hstep p with hsame | ⟨hnext, hlaunch⟩
  · rwa [← hsame]
  · refine (rising_of_next hnext hp).resolve_right fun hunborn => ?_
    obtain rfl := hlaunch hunborn
    exact ha

/-- Every process is in its shutdown or over, and the call has not been answered. -/
structure Hopeless (adminSocket : Pid → Path) (c : CallId) (w : World) : Prop where
  host : HostOk adminSocket w
  none : ∀ p, ¬ Rising (w.host.phase p)
  call : ∀ h, w.call c ≠ .done (.ok h)

/-- That stays so until another process is launched. -/
theorem Hopeless.step {c : CallId} (hw : Hopeless adminSocket c w) {a : Action} (ha : a.Own)
    (h : w.step adminSocket hello socket client a = some w') : Hopeless adminSocket c w' := by
  have hundisturbing : a.Undisturbing := by
    cases a with
    | host a => exact Boot.Action.Own.not_foreign ha
    | _ => trivial
  have hother : ∀ {d st}, (∀ h, st ≠ .done (.ok h)) →
      ∀ h, (w.setCall d st).call c ≠ .done (.ok h) := by
    intro d st hst h
    by_cases hcd : c = d
    · subst hcd
      rw [setCall_self]
      exact hst h
    · rw [setCall_of_ne w st hcd]
      exact hw.call h
  refine ⟨hw.host.step hundisturbing h, ?_, ?_⟩ <;> cases step_cases h with
  | host hhost => first | exact fun p hp => hw.none p (rising_of_step ha hhost hp) | exact hw.call
  | answered _ hr =>
      obtain ⟨p, s, -, hserving, -⟩ := hw.host.replies hr
      exact absurd (by rw [hserving]; trivial) (hw.none p)
  | spawn => exact ha.elim
  | _ => first | exact hw.none | exact hother (by simp)

/-- A schedule of the host is one of the whole. -/
theorem run_host {as : List Boot.Action} {host : Boot.World}
    (h : run (Boot.World.step adminSocket) w.host as = some host) :
    run (World.step adminSocket hello socket client) w (as.map .host) =
      some { w with host := host } := by
  induction as generalizing w with
  | nil =>
      obtain rfl := Option.some.inj h
      rfl
  | cons a as ih =>
      obtain ⟨mid, hmid, hrest⟩ := Option.bind_eq_some_iff.mp h
      have hstep : w.step adminSocket hello socket client (.host a) =
          some { w with host := mid } := by
        simp [World.step, hmid]
      rw [List.map_cons, run, hstep, Option.bind_some]
      exact ih hrest

/-- Where a process is on its way, some process can come to serve: that one, or the one that
holds the lock, or that one once the holder has shut down. -/
theorem canServe_of_rising {h : Boot.World} (hs : h.Safe) (hu : h.Undisturbed adminSocket)
    {p : Pid} (hp : Rising (h.phase p)) : ∃ q, Boot.World.CanServe adminSocket h q := by
  by_cases hstarting : h.phase p = .starting
  swap
  · refine ⟨p, Boot.World.canServe_of_holds hu hs ?_ fun s => ⟨fun hd => ?_, fun hd => ?_⟩⟩
    · cases hphase : h.phase p with
      | starting => exact absurd hphase hstarting
      | unborn | exited =>
          rw [hphase] at hp
          exact hp.elim
      | _ => trivial
    · rw [hd] at hp
      exact hp
    · rw [hd] at hp
      exact hp
  -- once the holder is gone, the lock is free for the process that waits to try it
  have hexit : ∀ {h : Boot.World} {q s}, h.Safe → h.Undisturbed adminSocket →
      h.phase p = .starting → h.phase q = .unlinked s → Boot.World.CanServe adminSocket h p := by
    intro h q s hs hu hp hq
    have hstep : h.step adminSocket (.exit q) = some (h.finish q .success) := by
      simp [Boot.World.step, hq]
    have hlock : h.lock = some q := (hs.lock q).mp (by rw [hq]; trivial)
    have hne : p ≠ q := by
      rintro rfl
      rw [hp] at hq
      cases hq
    refine .of_step hstep trivial (Boot.World.canServe_of_starting (hu.step hs id hstep)
      (hs.step hstep) ?_ ?_)
    · exact (Boot.World.setPhase_of_ne h _ hne).trans hp
    · simp [Boot.World.finish, hlock]
  cases hl : h.lock with
  | none => exact ⟨p, Boot.World.canServe_of_starting hu hs hstarting hl⟩
  | some q =>
      have hq := (hs.lock q).mpr hl
      cases hphase : h.phase q with
      | draining s =>
          have hstep : h.step adminSocket (.unlink q) =
              some ((h.setPhase q (.unlinked s)).setNode (adminSocket q) none) := by
            simp [Boot.World.step, hphase]
          have hne : p ≠ q := by
            rintro rfl
            rw [hstarting] at hphase
            cases hphase
          exact ⟨p, .of_step hstep trivial (hexit (hs.step hstep) (hu.step hs id hstep)
            ((Boot.World.setPhase_of_ne h _ hne).trans hstarting)
            (Boot.World.setPhase_self ..))⟩
      | unlinked s => exact ⟨p, hexit hs hu hstarting hphase⟩
      | _ =>
          refine ⟨q, Boot.World.canServe_of_holds hu hs hq fun s => ⟨?_, ?_⟩⟩ <;>
            · rw [hphase]
              simp

/-- A call that waits comes back to its probe. -/
theorem run_polling {c : CallId} (hc : Polls (w.call c)) :
    ∃ as t, (∀ a ∈ as, a.Own) ∧
      run (World.step adminSocket hello socket client) w as = some t ∧ t.host = w.host ∧
      ∃ p exit, t.call c = .polling p exit := by
  have hwaiting : ∀ {w : World} {p exit failure}, w.call c = .waiting p exit failure →
      w.step adminSocket hello socket client (.deadline c false) =
        some (w.setCall c (.polling p exit)) := by
    intro w p exit failure hw
    simp [World.step, hw]
  cases hcall : w.call c with
  | polling p exit => exact ⟨[], w, by simp, rfl, rfl, p, exit, hcall⟩
  | waiting p exit failure =>
      refine ⟨[.deadline c false], w.setCall c (.polling p exit), by simp [Action.Own], ?_, rfl, p,
        exit, setCall_self ..⟩
      rw [run, hwaiting hcall]
      rfl
  | observing p exit failure =>
      have hpoll : w.step adminSocket hello socket client (.pollExit c false) =
          some (w.setCall c (.waiting p exit failure)) := by
        cases exit <;> simp [World.step, hcall]
      refine ⟨[.pollExit c false, .deadline c false],
        (w.setCall c (.waiting p exit failure)).setCall c (.polling p exit), by simp [Action.Own],
        ?_, rfl, p, exit, setCall_self ..⟩
      rw [run, hpoll, Option.bind_some, run, hwaiting (setCall_self ..)]
      rfl
  | idle | probing | spawning | done =>
      rw [hcall] at hc
      exact hc.elim

/-- A call that has spawned its process and waits can still be answered, without another launch,
exactly if some process has not come to its shutdown. Losing the lock to a daemon that is on its
way out is what a call does not recover from. -/
theorem can_answer (c : CallId) (hsocket : ∀ p, adminSocket p = socket c)
    (hcompatible : ∀ p, versionCompatible client (hello p).version = true)
    {node : Path → Option Node} {next : SocketId} {text : Option Pid}
    (hleft : ∀ path, node path ≠ some .other) {as : List Action}
    (hours : ∀ a ∈ as, a.Undisturbing)
    (h : run (World.step adminSocket hello socket client)
      (init (Boot.World.init node next text)) as = some w) (hc : Polls (w.call c)) :
    (∃ bs t r, (∀ b ∈ bs, b.Own) ∧
      run (World.step adminSocket hello socket client) w bs = some t ∧
      t.call c = .done (.ok r)) ↔ ∃ p, Rising (w.host.phase p) := by
  have hw : HostOk adminSocket w := invariant_of_meets
    (fun hinv (ha : Action.Undisturbing _) hstep => HostOk.step hinv ha hstep)
    (hostOk_init hleft next text) (meets_of_mem (fun a ha _ => hours a ha) _) h
  constructor
  · rintro ⟨bs, t, r, hown, hrun, hdone⟩
    by_contra hnone
    have hstart : Hopeless adminSocket c w :=
      ⟨hw, not_exists.mp hnone, fun r hr => by rw [hr] at hc; exact hc⟩
    have hend : Hopeless adminSocket c t := invariant_of_meets
      (fun hinv (ha : Action.Own _) hstep => Hopeless.step hinv ha hstep) hstart
      (meets_of_mem (fun b hb _ => hown b hb) _) hrun
    exact hend.call r hdone
  · rintro ⟨p, hp⟩
    -- the call goes back to its probe, a daemon comes to serve, and the probe finds it
    obtain ⟨as₁, w₁, hown₁, hrun₁, hhost₁, q₁, exit, hcall₁⟩ :=
      @run_polling adminSocket hello socket client w c hc
    obtain ⟨q, as₂, host, s, hown₂, hrun₂, hserving⟩ := canServe_of_rising hw.1 hw.2 hp
    obtain ⟨-, hundisturbed⟩ := invariant_of_meets
      (P := fun h => Boot.World.Safe h ∧ Boot.World.Undisturbed adminSocket h)
      (fun hinv (ha : Boot.Action.Own _) hstep =>
        ⟨hinv.1.step hstep, hinv.2.step hinv.1 ha.not_foreign hstep⟩)
      hw (meets_of_mem (fun a ha _ => hown₂ a ha) _) hrun₂
    have hat := hundisturbed.at_ q
    rw [hserving] at hat
    rw [← hhost₁] at hrun₂
    have hping : World.step adminSocket hello socket client { w₁ with host := host }
        (.ping c (.ok (hello q))) =
        some ({ w₁ with host := host }.setCall c (.done (.ok (hello q)))) := by
      have hreplies : World.replies hello { w₁ with host := host } (socket c) (.ok (hello q)) =
          true := by
        simp [World.replies, answering, World.serving, ← hsocket q, hat.1, hat.2, hserving]
      simp [World.step, hreplies, hcall₁, checkVersion, hcompatible q]
    refine ⟨as₁ ++ (as₂.map .host ++ [.ping c (.ok (hello q))]),
      { w₁ with host := host }.setCall c (.done (.ok (hello q))), hello q, ?_, ?_,
      setCall_self ..⟩
    · intro b hb
      simp only [List.mem_append, List.mem_map, List.mem_singleton] at hb
      rcases hb with hb | ⟨a, ha, rfl⟩ | rfl
      · exact hown₁ b hb
      · exact hown₂ a ha
      · trivial
    · rw [run_append, hrun₁, Option.bind_some, run_append, run_host hrun₂, Option.bind_some, run,
        hping]
      rfl

end World

end System

/-! ### Two races -/

private def socketPath : Path := "/run/datamancer/control.sock"

private def theHello : DaemonHello := ⟨"0.1.0", none⟩

private def overSocket : World → Action → Option World :=
  World.step (fun _ => socketPath) (fun _ => theHello) (fun _ => socketPath) "0.1.3"

private def nothing : World := .init (.init (fun _ => none) 0 none)

/-- A daemon is shut down, and the one that an app spawns meanwhile finds it still there. -/
private def duringShutdown : List Action :=
  [.host (.launch 10), .host (.tryLock 10), .host (.truncate 10), .host (.writePid 10),
    .host (.configured 10), .host (.stat 10), .host (.bind 10), .host (.drain 10), .ensure 0,
    .ping 0 (.error "shutting_down"), .spawn 0 11, .host (.tryLock 11), .host (.unlink 10),
    .host (.exit 10)]

theorem can_answer_duringShutdown :
    ∃ w, run overSocket nothing duringShutdown = some w ∧
      ¬ ∃ bs t r, (∀ b ∈ bs, Action.Own b) ∧ run overSocket w bs = some t ∧
        t.call 0 = .done (.ok r) := by
  obtain ⟨w, hrun, hcall, hphase⟩ :
      ∃ w, run overSocket nothing duringShutdown = some w ∧ w.call 0 = .polling 11 none ∧
        w.host.phase = [(10, .starting), (10, .locked), (10, .truncated), (10, .configuring),
          (10, .clearing), (10, .binding), (10, .serving 0), (10, .draining 0), (11, .starting),
          (11, .exited (.failure (.alreadyRunning (some 10)))), (10, .unlinked 0),
          (10, .exited .success)].foldl (fun f x => Function.update f x.1 x.2)
            (fun _ => Boot.Phase.unborn) := ⟨_, rfl, rfl, rfl⟩
  have hours : ∀ a ∈ duringShutdown, a.Undisturbing := by
    simp [duringShutdown, Action.Undisturbing, Boot.Action.Foreign]
  have hsocket : ∀ p : Pid, (fun _ : Pid => socketPath) p = (fun _ : CallId => socketPath) 0 :=
    fun _ => rfl
  have hcompatible : versionCompatible "0.1.3" theHello.version = true := by decide
  have hversion : ∀ p : Pid,
      versionCompatible "0.1.3" ((fun _ : Pid => theHello) p).version = true := fun _ => hcompatible
  have hiff := World.can_answer 0 hsocket hversion (fun _ h => by cases h) hours hrun
    (by rw [hcall]; trivial)
  refine ⟨w, hrun, fun hanswer => ?_⟩
  obtain ⟨p, hp⟩ := hiff.mp hanswer
  simp only [hphase, List.foldl, Function.update_apply] at hp
  split_ifs at hp <;> exact hp

end Lifecycle

end Datamancer
