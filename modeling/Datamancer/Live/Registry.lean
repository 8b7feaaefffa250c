import Datamancer.Core.Error
import Datamancer.Lib.ActionSystem
import Mathlib.Logic.Function.Basic

/-!
# Datamancer.Live.Registry

The registry of authoritative live sessions: `Datamancer::authoritative` and
`create_authoritative`, the strong references callers hold on a session
(`SubscriberGuard`s, `Session` handles, calls in flight), and the life of the
controller behind it (`run_live` and its teardown).

A call is cut where the source awaits or takes the registry lock; each cut is one
action, and a schedule of actions is one interleaving. The two lives of a session are
separate here as they are in the source: its slot is as live as somebody holds a strong
reference, its controller as it has not left its loop.
-/

namespace Datamancer

/-- Calls are numbered; a call's number is also the id of the subscriber it registers. -/
abbrev CallId := Nat

abbrev SessionId := Nat

/-! ### Sessions -/

/-- A strong reference to a session: of a call in flight, of the `SubscriberGuard` or of
the `Arc` that a call returned. -/
inductive Holder
  | opener (k : CallId)
  | guard (k : CallId)
  | handle (k : CallId)
  deriving DecidableEq

/-- Where the controller of a session is. -/
inductive Phase
  /-- The slot is claimed; `start_live` and `subscribe` are under way. -/
  | starting
  /-- In `run_backfill`. -/
  | backfilling
  /-- In the loop of `run_live`. -/
  | looping
  /-- Out of its loop, in `teardown_upstream`. -/
  | leaving
  | exited
  deriving DecidableEq

/-- The controller polls its commands and removals. -/
def Phase.Serving (phase : Phase) : Prop := phase = .backfilling ∨ phase = .looping

instance (phase : Phase) : Decidable phase.Serving := inferInstanceAs (Decidable (_ ∨ _))

theorem Phase.Serving.ne_exited {phase : Phase} (h : phase.Serving) : phase ≠ .exited := by
  rintro rfl
  rcases h with h | h <;> cases h

/-- The controller will still answer the commands it is sent. -/
def Phase.Open (phase : Phase) : Prop := phase = .starting ∨ phase.Serving

instance (phase : Phase) : Decidable phase.Open := inferInstanceAs (Decidable (_ ∨ _))

/-- An `AuthoritativeSession` with its controller. -/
structure Authoritative where
  pair : Pair
  arcs : List Holder
  phase : Phase
  /-- Subscribers of the fan-out. -/
  fanout : List CallId
  /-- `AddSubscriber` commands not yet handled. -/
  cmds : List CallId
  /-- Removals not yet handled. -/
  removals : List CallId

namespace Authoritative

/-- `add_subscriber` up to its await: hold a reference and send the command. A controller
that is gone has no receiver to send to. -/
def addSubscriber (a : Authoritative) (k : CallId) : Authoritative :=
  { a with
    arcs := .opener k :: a.arcs
    cmds := if a.phase = .exited then a.cmds else a.cmds ++ [k] }

/-- The reference of a call becomes the guard and the `Arc` it returns. -/
def settle (a : Authoritative) (k : CallId) : Authoritative :=
  { a with arcs := .guard k :: .handle k :: a.arcs.erase (.opener k) }

def release (a : Authoritative) (h : Holder) : Authoritative := { a with arcs := a.arcs.erase h }

def dropSubscriber (a : Authoritative) (k : CallId) : Authoritative :=
  { a with fanout := a.fanout.filter (· ≠ k) }

/-- `live_should_teardown`: without any subscriber left the loop ends. -/
def checkTeardown (a : Authoritative) : Authoritative :=
  { a with phase := if a.fanout = [] then .leaving else a.phase }

theorem checkTeardown_phase {a : Authoritative} (h : a.phase.Serving) :
    a.checkTeardown.phase.Serving ∨ a.checkTeardown.phase = .leaving := by
  simp only [checkTeardown]
  split
  · exact .inr rfl
  · exact .inl h

theorem fanout_of_checkTeardown {a : Authoritative} (h : a.phase.Serving)
    (hleaving : a.checkTeardown.phase = .leaving) : a.fanout = [] := by
  simp only [checkTeardown] at hleaving
  split at hleaving
  · assumption
  · simp [hleaving, Phase.Serving] at h

/-- The controller drops its receivers, and the commands still in them unanswered. -/
def exit (a : Authoritative) : Authoritative := { a with phase := .exited, cmds := [] }

end Authoritative

/-! ### Calls -/

/-- Where a call of `authoritative` is. -/
inductive CallState
  | idle
  /-- Before the probe. -/
  | probing (p : Pair)
  /-- Awaiting `add_subscriber` on the session the probe found. -/
  | sharing (p : Pair) (s : SessionId)
  /-- Before the re-check under the lock. -/
  | claiming (p : Pair)
  /-- Awaiting `add_subscriber` on the winner of a lost race. -/
  | joining (p : Pair) (s : SessionId)
  /-- Owns the slot; awaiting `start_live` and `subscribe`. -/
  | starting (p : Pair) (s : SessionId)
  /-- Its subscriber is in the fan-out; about to return. -/
  | registered (p : Pair) (s : SessionId)
  | returned (p : Pair) (res : Except Error SessionId)

/-! ### The system -/

structure Registry where
  slot : Pair → Option SessionId
  session : SessionId → Option Authoritative
  call : CallId → CallState

inductive RegistryAction
  /-- A call of `authoritative` for the pair. -/
  | invoke (k : CallId) (p : Pair)
  | probe (k : CallId)
  /-- The re-check; `s` is the session the call has allocated. -/
  | claim (k : CallId) (s : SessionId)
  /-- `start_live` and `subscribe` succeed and the controller is spawned, to run a
  creation-time backfill first or not. -/
  | started (k : CallId) (backfill : Bool)
  | startFailed (k : CallId) (e : Error)
  /-- The controller handles its next `AddSubscriber`. -/
  | ack (s : SessionId)
  /-- A call finds that its command has been dropped unanswered. -/
  | refused (k : CallId)
  /-- A call whose subscriber is registered returns. -/
  | resume (k : CallId)
  /-- The controller handles its next removal. -/
  | remove (s : SessionId)
  /-- The fan-out finds the receiver of a subscriber dropped. -/
  | prune (s : SessionId) (k : CallId)
  /-- The backfill reaches the seam. -/
  | backfilled (s : SessionId)
  /-- The provider channel closes, or the removal channel does. -/
  | leave (s : SessionId)
  | exit (s : SessionId)
  | dropGuard (s : SessionId) (k : CallId)
  | dropHandle (s : SessionId) (k : CallId)
  /-- `AuthoritativeSession::drop`, of a session nobody holds any more. -/
  | drop (s : SessionId)
  deriving DecidableEq

namespace Registry

/-- Nothing opened yet. -/
def init : Registry := ⟨fun _ => none, fun _ => none, fun _ => .idle⟩

def setCall (r : Registry) (k : CallId) (c : CallState) : Registry :=
  { r with call := Function.update r.call k c }

def setSession (r : Registry) (s : SessionId) (a : Authoritative) : Registry :=
  { r with session := Function.update r.session s (some a) }

def setSlot (r : Registry) (p : Pair) (s : Option SessionId) : Registry :=
  { r with slot := Function.update r.slot p s }

section Projections

variable (r : Registry) (k : CallId) (c : CallState) (s : SessionId) (a : Authoritative)
  (p : Pair) (o : Option SessionId)

@[simp, grind =] theorem setCall_call (j : CallId) :
    (r.setCall k c).call j = if j = k then c else r.call j := by
  simp [setCall, Function.update_apply]

@[simp, grind =] theorem setCall_session : (r.setCall k c).session = r.session := rfl

@[simp, grind =] theorem setCall_slot : (r.setCall k c).slot = r.slot := rfl

@[simp, grind =] theorem setSession_call : (r.setSession s a).call = r.call := rfl

@[simp, grind =] theorem setSession_session (t : SessionId) :
    (r.setSession s a).session t = if t = s then some a else r.session t := by
  simp [setSession, Function.update_apply]

theorem setSession_self : (r.setSession s a).session s = some a := by simp

@[simp, grind =] theorem setSession_slot : (r.setSession s a).slot = r.slot := rfl

@[simp, grind =] theorem setSlot_call : (r.setSlot p o).call = r.call := rfl

@[simp, grind =] theorem setSlot_session : (r.setSlot p o).session = r.session := rfl

@[simp, grind =] theorem setSlot_slot (q : Pair) :
    (r.setSlot p o).slot q = if q = p then o else r.slot q := by
  simp [setSlot, Function.update_apply]

end Projections

/-- `map.get(&key).and_then(Weak::upgrade)`: the session in the slot, while somebody holds
it. -/
def upgrade (r : Registry) (p : Pair) : Option (SessionId × Authoritative) :=
  match r.slot p with
  | none => none
  | some s =>
      match r.session s with
      | none => none
      | some a => if a.arcs = [] then none else some (s, a)

theorem upgrade_some {r : Registry} {p : Pair} {s : SessionId} {a : Authoritative}
    (h : r.upgrade p = some (s, a)) :
    r.slot p = some s ∧ r.session s = some a ∧ a.arcs ≠ [] := by
  unfold upgrade at h
  split at h
  · cases h
  · split at h
    · cases h
    · obtain ⟨harcs, h⟩ := Option.ite_none_left_eq_some.mp h
      cases h
      exact ⟨‹_›, ‹_›, harcs⟩

/-- What `AuthoritativeSession::drop` does under the registry lock: it removes the slot of
its pair unless the `Weak` in it still has a strong count, whoever owns it. -/
def dropCleanup (r : Registry) (p : Pair) : Registry :=
  match r.upgrade p with
  | some _ => r
  | none => r.setSlot p none

@[simp, grind =] theorem dropCleanup_call (r : Registry) (p : Pair) :
    (r.dropCleanup p).call = r.call := by
  unfold dropCleanup
  split <;> rfl

@[simp, grind =] theorem dropCleanup_session (r : Registry) (p : Pair) :
    (r.dropCleanup p).session = r.session := by
  unfold dropCleanup
  split <;> rfl

/-- A slot is removed, or it stays as it is. -/
theorem dropCleanup_slot (r : Registry) (p q : Pair) :
    (r.dropCleanup p).slot q = r.slot q ∨
      q = p ∧ r.upgrade p = none ∧ (r.dropCleanup p).slot q = none := by
  unfold dropCleanup
  cases hup : r.upgrade p with
  | some _ => exact .inl rfl
  | none =>
      by_cases hq : q = p
      · exact .inr ⟨hq, rfl, by simp [hq]⟩
      · exact .inl (by simp [hq])

/-- The session of a call that has claimed the slot of a pair. The opener is in the fan-out
before the controller is spawned. -/
def opened (p : Pair) (k : CallId) : Authoritative := ⟨p, [.opener k], .starting, [k], [], []⟩

/-- What an action of one session's controller or referrers makes of the session. -/
def onSession (r : Registry) (s : SessionId) (f : Authoritative → Option Authoritative) :
    Option Registry :=
  match r.session s with
  | none => none
  | some a => (f a).map (r.setSession s)

def step (r : Registry) : RegistryAction → Option Registry
  | .invoke k p =>
      match r.call k with
      | .idle => some (r.setCall k (.probing p))
      | _ => none
  | .probe k =>
      match r.call k with
      | .probing p =>
          match r.upgrade p with
          | some (s, a) => some ((r.setSession s (a.addSubscriber k)).setCall k (.sharing p s))
          | none => some (r.setCall k (.claiming p))
      | _ => none
  | .claim k s =>
      match r.call k, r.session s with
      | .claiming p, none =>
          match r.upgrade p with
          | some (w, a) => some ((r.setSession w (a.addSubscriber k)).setCall k (.joining p w))
          | none =>
              some (((r.setSession s (opened p k)).setSlot p (some s)).setCall k (.starting p s))
      | _, _ => none
  | .started k backfill =>
      match r.call k with
      | .starting p s => (r.onSession s fun a => some
          { a with phase := if backfill then .backfilling else .looping }).map
            (setCall · k (.registered p s))
      | _ => none
  | .startFailed k e =>
      match r.call k with
      | .starting p s => (r.onSession s fun a => some (a.release (.opener k)).exit).map
          (setCall · k (.returned p (.error e)))
      | _ => none
  | .ack s =>
      match r.session s with
      | some a =>
          match a.cmds with
          | k :: cmds =>
              if a.phase.Serving then
                match r.call k with
                | .sharing p _ | .joining p _ => some ((r.setSession s
                    { a with cmds, fanout := a.fanout ++ [k] }).setCall k (.registered p s))
                | _ => none
              else none
          | [] => none
      | none => none
  | .refused k =>
      match r.call k with
      | .sharing p s => (r.onSession s fun a =>
          if a.phase = .exited then some (a.release (.opener k)) else none).map
            (setCall · k (.claiming p))
      | .joining p s => (r.onSession s fun a =>
          if a.phase = .exited then some (a.release (.opener k)) else none).map
            (setCall · k (.returned p (.error .sessionClosed)))
      | _ => none
  | .resume k =>
      match r.call k with
      | .registered p s => (r.onSession s fun a => some (a.settle k)).map
          (setCall · k (.returned p (.ok s)))
      | _ => none
  | .remove s => r.onSession s fun a =>
      match a.removals with
      | k :: removals =>
          if a.phase.Serving then some ({ a with removals }.dropSubscriber k).checkTeardown
          else none
      | [] => none
  | .prune s k =>
      match r.call k with
      | .returned _ _ => r.onSession s fun a =>
          -- in a backfill the fan-out is not looked at again before the seam
          if a.phase = .backfilling then some (a.dropSubscriber k)
          else if a.phase = .looping then some (a.dropSubscriber k).checkTeardown
          else none
      | _ => none
  | .backfilled s => r.onSession s fun a =>
      if a.phase = .backfilling then some { a with phase := .looping }.checkTeardown else none
  | .leave s => r.onSession s fun a =>
      if a.phase.Serving then some { a with phase := .leaving } else none
  | .exit s => r.onSession s fun a => if a.phase = .leaving then some a.exit else none
  | .dropGuard s k => r.onSession s fun a =>
      if .guard k ∈ a.arcs then
        some { a.release (.guard k) with removals := a.removals ++ [k] }
      else none
  | .dropHandle s k => r.onSession s fun a =>
      if .handle k ∈ a.arcs then some (a.release (.handle k)) else none
  | .drop s =>
      match r.session s with
      | some a => if a.arcs = [] then some (r.dropCleanup a.pair) else none
      | none => none

/-! ### Inversion of a step -/

/-- What each action can do, with what it needs. -/
inductive Step (r : Registry) : RegistryAction → Registry → Prop
  | invoke {k p} (hk : r.call k = .idle) : Step r (.invoke k p) (r.setCall k (.probing p))
  | probeShare {k p s a} (hk : r.call k = .probing p) (hup : r.upgrade p = some (s, a)) :
      Step r (.probe k) ((r.setSession s (a.addSubscriber k)).setCall k (.sharing p s))
  | probeMiss {k p} (hk : r.call k = .probing p) (hup : r.upgrade p = none) :
      Step r (.probe k) (r.setCall k (.claiming p))
  | claimJoin {k s p w a} (hk : r.call k = .claiming p) (hs : r.session s = none)
      (hup : r.upgrade p = some (w, a)) :
      Step r (.claim k s) ((r.setSession w (a.addSubscriber k)).setCall k (.joining p w))
  | claimOpen {k s p} (hk : r.call k = .claiming p) (hs : r.session s = none)
      (hup : r.upgrade p = none) :
      Step r (.claim k s)
        (((r.setSession s (opened p k)).setSlot p (some s)).setCall k (.starting p s))
  | started (backfill : Bool) {k p s a} (hk : r.call k = .starting p s)
      (hs : r.session s = some a) :
      Step r (.started k backfill) ((r.setSession s
        { a with phase := if backfill then .backfilling else .looping }).setCall k
          (.registered p s))
  | startFailed {k e p s a} (hk : r.call k = .starting p s) (hs : r.session s = some a) :
      Step r (.startFailed k e) ((r.setSession s (a.release (.opener k)).exit).setCall k
        (.returned p (.error e)))
  | ack {s a k cmds p t} (hs : r.session s = some a) (hcmds : a.cmds = k :: cmds)
      (hserving : a.phase.Serving) (hk : r.call k = .sharing p t ∨ r.call k = .joining p t) :
      Step r (.ack s) ((r.setSession s { a with cmds, fanout := a.fanout ++ [k] }).setCall k
        (.registered p s))
  | refusedShare {k p s a} (hk : r.call k = .sharing p s) (hs : r.session s = some a)
      (hexited : a.phase = .exited) :
      Step r (.refused k) ((r.setSession s (a.release (.opener k))).setCall k (.claiming p))
  | refusedJoin {k p s a} (hk : r.call k = .joining p s) (hs : r.session s = some a)
      (hexited : a.phase = .exited) :
      Step r (.refused k) ((r.setSession s (a.release (.opener k))).setCall k
        (.returned p (.error .sessionClosed)))
  | resume {k p s a} (hk : r.call k = .registered p s) (hs : r.session s = some a) :
      Step r (.resume k) ((r.setSession s (a.settle k)).setCall k (.returned p (.ok s)))
  | remove {s a k removals} (hs : r.session s = some a) (hremovals : a.removals = k :: removals)
      (hserving : a.phase.Serving) :
      Step r (.remove s)
        (r.setSession s ({ a with removals }.dropSubscriber k).checkTeardown)
  | pruneBackfill {s a k p res} (hk : r.call k = .returned p res) (hs : r.session s = some a)
      (hphase : a.phase = .backfilling) :
      Step r (.prune s k) (r.setSession s (a.dropSubscriber k))
  | prune {s a k p res} (hk : r.call k = .returned p res) (hs : r.session s = some a)
      (hphase : a.phase = .looping) :
      Step r (.prune s k) (r.setSession s (a.dropSubscriber k).checkTeardown)
  | backfilled {s a} (hs : r.session s = some a) (hphase : a.phase = .backfilling) :
      Step r (.backfilled s) (r.setSession s { a with phase := .looping }.checkTeardown)
  | leave {s a} (hs : r.session s = some a) (hserving : a.phase.Serving) :
      Step r (.leave s) (r.setSession s { a with phase := .leaving })
  | exit {s a} (hs : r.session s = some a) (hphase : a.phase = .leaving) :
      Step r (.exit s) (r.setSession s a.exit)
  | dropGuard {s a k} (hs : r.session s = some a) (hk : .guard k ∈ a.arcs) :
      Step r (.dropGuard s k)
        (r.setSession s { a.release (.guard k) with removals := a.removals ++ [k] })
  | dropHandle {s a k} (hs : r.session s = some a) (hk : .handle k ∈ a.arcs) :
      Step r (.dropHandle s k) (r.setSession s (a.release (.handle k)))
  | drop {s a} (hs : r.session s = some a) (ha : a.arcs = []) :
      Step r (.drop s) (r.dropCleanup a.pair)

theorem onSession_some {r r' : Registry} {s : SessionId}
    {f : Authoritative → Option Authoritative} (h : r.onSession s f = some r') :
    ∃ a b, r.session s = some a ∧ f a = some b ∧ r' = r.setSession s b := by
  unfold onSession at h
  split at h
  · cases h
  · next a ha =>
    obtain ⟨b, hb, rfl⟩ := Option.map_eq_some_iff.mp h
    exact ⟨a, b, ha, hb, rfl⟩

theorem step_cases {r r' : Registry} {act : RegistryAction} (h : r.step act = some r') :
    Step r act r' := by
  cases act with
  | invoke k p =>
      simp only [step] at h
      split at h
      · cases h; exact .invoke ‹_›
      · cases h
  | probe k =>
      simp only [step] at h
      split at h
      · split at h
        · cases h; exact .probeShare ‹_› ‹_›
        · cases h; exact .probeMiss ‹_› ‹_›
      · cases h
  | claim k s =>
      simp only [step] at h
      split at h
      · split at h
        · cases h; exact .claimJoin ‹_› ‹_› ‹_›
        · cases h; exact .claimOpen ‹_› ‹_› ‹_›
      · cases h
  | started k backfill =>
      simp only [step] at h
      split at h
      · obtain ⟨t, ht, rfl⟩ := Option.map_eq_some_iff.mp h
        obtain ⟨a, b, ha, hb, rfl⟩ := onSession_some ht
        cases hb
        exact .started backfill ‹_› ha
      · cases h
  | startFailed k e =>
      simp only [step] at h
      split at h
      · obtain ⟨t, ht, rfl⟩ := Option.map_eq_some_iff.mp h
        obtain ⟨a, b, ha, hb, rfl⟩ := onSession_some ht
        cases hb
        exact .startFailed ‹_› ha
      · cases h
  | ack s =>
      simp only [step] at h
      split at h
      · split at h
        · split at h
          · split at h
            · cases h; exact .ack ‹_› ‹_› ‹_› (.inl ‹_›)
            · cases h; exact .ack ‹_› ‹_› ‹_› (.inr ‹_›)
            · cases h
          · cases h
        · cases h
      · cases h
  | refused k =>
      simp only [step] at h
      split at h
      all_goals first | cases h | obtain ⟨t, ht, rfl⟩ := Option.map_eq_some_iff.mp h
      · obtain ⟨a, b, ha, hb, rfl⟩ := onSession_some ht
        obtain ⟨hexited, hb⟩ := Option.ite_none_right_eq_some.mp hb
        cases hb
        exact .refusedShare ‹_› ha hexited
      · obtain ⟨a, b, ha, hb, rfl⟩ := onSession_some ht
        obtain ⟨hexited, hb⟩ := Option.ite_none_right_eq_some.mp hb
        cases hb
        exact .refusedJoin ‹_› ha hexited
  | resume k =>
      simp only [step] at h
      split at h
      · obtain ⟨t, ht, rfl⟩ := Option.map_eq_some_iff.mp h
        obtain ⟨a, b, ha, hb, rfl⟩ := onSession_some ht
        cases hb
        exact .resume ‹_› ha
      · cases h
  | remove s =>
      obtain ⟨a, b, ha, hb, rfl⟩ := onSession_some h
      split at hb
      · obtain ⟨hserving, hb⟩ := Option.ite_none_right_eq_some.mp hb
        cases hb
        exact .remove ha ‹_› hserving
      · cases hb
  | prune s k =>
      simp only [step] at h
      split at h
      · obtain ⟨a, b, ha, hb, rfl⟩ := onSession_some h
        split at hb
        · cases hb; exact .pruneBackfill ‹_› ha ‹_›
        · obtain ⟨hphase, hb⟩ := Option.ite_none_right_eq_some.mp hb
          cases hb
          exact .prune ‹_› ha hphase
      · cases h
  | backfilled s =>
      obtain ⟨a, b, ha, hb, rfl⟩ := onSession_some h
      obtain ⟨hphase, hb⟩ := Option.ite_none_right_eq_some.mp hb
      cases hb
      exact .backfilled ha hphase
  | leave s =>
      obtain ⟨a, b, ha, hb, rfl⟩ := onSession_some h
      obtain ⟨hserving, hb⟩ := Option.ite_none_right_eq_some.mp hb
      cases hb
      exact .leave ha hserving
  | exit s =>
      obtain ⟨a, b, ha, hb, rfl⟩ := onSession_some h
      obtain ⟨hphase, hb⟩ := Option.ite_none_right_eq_some.mp hb
      cases hb
      exact .exit ha hphase
  | dropGuard s k =>
      obtain ⟨a, b, ha, hb, rfl⟩ := onSession_some h
      obtain ⟨hk, hb⟩ := Option.ite_none_right_eq_some.mp hb
      cases hb
      exact .dropGuard ha hk
  | dropHandle s k =>
      obtain ⟨a, b, ha, hb, rfl⟩ := onSession_some h
      obtain ⟨hk, hb⟩ := Option.ite_none_right_eq_some.mp hb
      cases hb
      exact .dropHandle ha hk
  | drop s =>
      simp only [step] at h
      split at h
      · obtain ⟨ha, hb⟩ := Option.ite_none_right_eq_some.mp h
        cases hb
        exact .drop ‹_› ha
      · cases h

theorem step_of {r r' : Registry} {act : RegistryAction} (h : Step r act r') :
    r.step act = some r' := by
  cases h with
  | claimJoin hk hs hup | claimOpen hk hs hup => simp [step, hk, hs, hup]
  | ack hs hcmds hserving hk => rcases hk with hk | hk <;> simp [step, hs, hcmds, hserving, hk]
  | prune hk hs hphase => simp [step, onSession, hk, hs, hphase]
  | _ => simp [step, onSession, *]

end Registry

end Datamancer
