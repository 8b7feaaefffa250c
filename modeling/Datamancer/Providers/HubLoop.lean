import Datamancer.Lib.WatchChannel
import Datamancer.Lib.ActionSystem
import Datamancer.Providers.AlpacaHub

/-!
# Datamancer.Providers.HubLoop

The outer loop of a hub (`run_hub_task`, of both providers): it resolves its settings and its
credentials, each from a source that may change at any time, connects, and parks where only a
new value can help. What a connected hub does with its commands and messages is in
`Datamancer.Providers.AlpacaHub`; here they change nothing.
-/

namespace Datamancer

namespace Alpaca

/-! ### Sources -/

inductive SettingsSource (T : Type)
  | static (settings : T)
  | watch (rx : WatchChannel (Option T))

inductive CredentialsSource (C : Type)
  | env
  | static (creds : C)
  | watch (rx : WatchChannel (Option C))

/-- One resolution of a `CredentialsSource`. -/
inductive Resolved (C : Type)
  | env
  | creds (c : C)
  | missing

variable {T C : Type}

namespace SettingsSource

def current : SettingsSource T → Option T
  | static s => some s
  | watch rx => rx.value

/-- `watch`: the version a fresh receiver has seen. -/
def watched : SettingsSource T → Option Nat
  | static _ => none
  | watch rx => some rx.version

/-- What a receiver finds in the channel; a fixed source has none. -/
def channel : SettingsSource T → Option (WatchChannel (Option T))
  | static _ => none
  | watch rx => some rx

theorem current_of_channel {s : SettingsSource T} {w : WatchChannel (Option T)}
    (h : s.channel = some w) : s.current = w.value := by
  cases s with
  | static s => cases h
  | watch w' =>
      cases h
      rfl

end SettingsSource

namespace CredentialsSource

def current : CredentialsSource C → Resolved C
  | env => .env
  | static c => .creds c
  | watch rx => rx.value.elim .missing .creds

def watched : CredentialsSource C → Option Nat
  | watch rx => some rx.version
  | env | static _ => none

def channel : CredentialsSource C → Option (WatchChannel (Option C))
  | watch rx => some rx
  | env | static _ => none

theorem current_of_channel {s : CredentialsSource C} {w : WatchChannel (Option C)}
    (h : s.channel = some w) : s.current = w.value.elim .missing .creds := by
  cases s with
  | watch w' =>
      cases h
      rfl
  | _ => cases h

end CredentialsSource

/-! ### The loop -/

inductive StreamFailure
  | unauthenticated
  | transient
  deriving DecidableEq

/-- Where the loop is, with the receivers it holds (the version each has seen). -/
inductive HubPhase (T C : Type)
  /-- At the head of the loop. -/
  | top
  /-- It has its settings receiver and is about to read the settings. -/
  | settingsWatched (settingsRx : Option Nat)
  | settingsRead (settingsRx : Option Nat) (settings : T)
  /-- It has its credentials receiver and is about to read the credentials. -/
  | credentialsWatched (settingsRx : Option Nat) (settings : T) (credRx : Option Nat)
  | connecting (settingsRx : Option Nat) (settings : T) (credRx : Option Nat) (creds : Resolved C)
  /-- In the event loop of a connection made with these credentials. -/
  | serving (settingsRx credRx : Option Nat) (creds : Resolved C)
  /-- In `wait_for_provisioning`. -/
  | parked (park : Park) (rx : Nat)
  /-- In `sleep_with_jitter`. -/
  | backoff
  | exited

structure HubLoop (T C : Type) where
  settings : SettingsSource T
  credentials : CredentialsSource C
  phase : HubPhase T C
  /-- The credentials the upstream has rejected. -/
  rejected : List C

inductive LoopAction (T C : Type)
  | publishSettings (v : Option T)
  | dropSettings
  | publishCredentials (v : Option C)
  | dropCredentials
  /-- The loop takes a receiver or reads a source. -/
  | advance
  | connected
  | connectFails (failure : StreamFailure)
  | streamFails (failure : StreamFailure)
  /-- The connected hub finds its credentials receiver ready. -/
  | credentialsReady
  | settingsReady
  /-- A parked hub is notified. -/
  | wake
  | slept
  /-- A command is taken. -/
  | command
  /-- The provider and every handle are gone. -/
  | hangUp

namespace HubLoop

def init (settings : SettingsSource T) (credentials : CredentialsSource C) : HubLoop T C :=
  ⟨settings, credentials, .top, []⟩

def setPhase (l : HubLoop T C) (phase : HubPhase T C) : HubLoop T C := { l with phase }

/-- The upstream rejects the credentials. -/
def reject (l : HubLoop T C) : Resolved C → HubLoop T C
  | .creds c => { l with rejected := c :: l.rejected }
  | .env | .missing => l

/-- The receiver has a notification it has not read. -/
def Unread {α : Type} (channel : Option (WatchChannel α)) (rx : Nat) : Prop :=
  ∃ w, channel = some w ∧ w.Unread rx

instance {α : Type} : (channel : Option (WatchChannel α)) → (rx : Nat) →
    Decidable (Unread channel rx)
  | none, _ => .isFalse fun h => by
      obtain ⟨w, hw, -⟩ := h
      cases hw
  | some w, rx => decidable_of_iff (w.Unread rx)
      ⟨fun h => ⟨w, rfl, h⟩, fun h => by
        obtain ⟨w', hw, h⟩ := h
        cases hw
        exact h⟩

/-- The one source a parked hub listens to has a notification for it. -/
def Notified (l : HubLoop T C) : Park → Nat → Prop
  | .disabled, rx => Unread l.settings.channel rx
  | .missingCredentials, rx | .rejectedCredentials, rx => Unread l.credentials.channel rx

instance (l : HubLoop T C) : (park : Park) → (rx : Nat) → Decidable (l.Notified park rx)
  | .disabled, _ | .missingCredentials, _ | .rejectedCredentials, _ =>
      inferInstanceAs (Decidable (Unread _ _))

/-- What a command is answered with where it is not served (`Error::Unauthenticated` for the
credential parks). -/
def answer (m : Market) (l : HubLoop T C) : Option Error :=
  match l.phase with
  | .parked park _ => some (refusal m (some park))
  | .backoff => some (refusal m none)
  | _ => none

/-- Only a watched source resolves to nothing, so there is a receiver to park on. -/
def park (l : HubLoop T C) (park : Park) : Option Nat → HubLoop T C
  | some rx => l.setPhase (.parked park rx)
  | none => l.setPhase .exited

def advance (l : HubLoop T C) : Option (HubLoop T C) :=
  match l.phase with
  | .top => some (l.setPhase (.settingsWatched l.settings.watched))
  | .settingsWatched rx =>
      match l.settings.current with
      | none => some (l.park .disabled rx)
      | some settings => some (l.setPhase (.settingsRead rx settings))
  | .settingsRead rx settings =>
      some (l.setPhase (.credentialsWatched rx settings l.credentials.watched))
  | .credentialsWatched rx settings credRx =>
      match l.credentials.current with
      | .missing => some (l.park .missingCredentials credRx)
      | creds => some (l.setPhase (.connecting rx settings credRx creds))
  | _ => none

/-- A connect or a stream made with the credentials fails. -/
def fail (l : HubLoop T C) (credRx : Option Nat) (creds : Resolved C) :
    StreamFailure → HubLoop T C
  | .unauthenticated =>
      match credRx with
      | some rx => (l.reject creds).setPhase (.parked .rejectedCredentials rx)
      | none => (l.reject creds).setPhase .backoff
  | .transient => l.setPhase .backoff

/-- A receiver is ready with a notification, or because its sender is gone; the latter ends
the arm of the select (`none`). -/
def ready {α : Type} (channel : Option (WatchChannel α)) (rx : Nat) : Option Bool :=
  channel.bind fun w =>
    if w.Unread rx then some true else if w.closed then some false else none

def step (l : HubLoop T C) (act : LoopAction T C) : Option (HubLoop T C) :=
  match act, l.phase with
  | .publishSettings v, _ =>
      match l.settings with
      | .watch w => if w.closed then none else some { l with settings := .watch (w.send v) }
      | .static _ => none
  | .dropSettings, _ =>
      match l.settings with
      | .watch w => some { l with settings := .watch w.close }
      | .static _ => none
  | .publishCredentials v, _ =>
      match l.credentials with
      | .watch w => if w.closed then none else some { l with credentials := .watch (w.send v) }
      | .env | .static _ => none
  | .dropCredentials, _ =>
      match l.credentials with
      | .watch w => some { l with credentials := .watch w.close }
      | .env | .static _ => none
  | .advance, _ => l.advance
  | .connected, .connecting rx _ credRx creds => some (l.setPhase (.serving rx credRx creds))
  | .connectFails failure, .connecting _ _ credRx creds => some (l.fail credRx creds failure)
  | .streamFails failure, .serving _ credRx creds => some (l.fail credRx creds failure)
  | .credentialsReady, .serving rx (some credRx) creds =>
      (ready l.credentials.channel credRx).map fun changed =>
        -- the sender is gone: the receiver is dropped, and the credentials in hand stay
        if changed then l.setPhase .top else l.setPhase (.serving rx none creds)
  | .settingsReady, .serving (some rx) credRx creds =>
      (ready l.settings.channel rx).map fun changed =>
        if changed then l.setPhase .top else l.setPhase (.serving none credRx creds)
  | .wake, .parked park rx => if l.Notified park rx then some (l.setPhase .top) else none
  | .slept, .backoff => some (l.setPhase .top)
  | .command, .parked _ _ | .command, .serving _ _ _ => some l
  -- a command cuts the backoff short; parked or serving, it is dealt with in place
  | .command, .backoff => some (l.setPhase .top)
  | .hangUp, .parked _ _ | .hangUp, .serving _ _ _ | .hangUp, .backoff =>
      some (l.setPhase .exited)
  | _, _ => none

/-! ### Inversion of a step -/

/-- What each action can do. -/
inductive Step (l : HubLoop T C) : LoopAction T C → HubLoop T C → Prop
  | publishSettings {w v} (hs : l.settings = .watch w) :
      Step l (.publishSettings v) { l with settings := .watch (w.send v) }
  | dropSettings {w} (hs : l.settings = .watch w) :
      Step l .dropSettings { l with settings := .watch w.close }
  | publishCredentials {w v} (hc : l.credentials = .watch w) :
      Step l (.publishCredentials v) { l with credentials := .watch (w.send v) }
  | dropCredentials {w} (hc : l.credentials = .watch w) :
      Step l .dropCredentials { l with credentials := .watch w.close }
  | watchSettings (hp : l.phase = .top) :
      Step l .advance (l.setPhase (.settingsWatched l.settings.watched))
  | disabled {rx} (hp : l.phase = .settingsWatched rx) (hs : l.settings.current = none) :
      Step l .advance (l.park .disabled rx)
  | enabled {rx settings} (hp : l.phase = .settingsWatched rx)
      (hs : l.settings.current = some settings) :
      Step l .advance (l.setPhase (.settingsRead rx settings))
  | watchCredentials {rx settings} (hp : l.phase = .settingsRead rx settings) :
      Step l .advance (l.setPhase (.credentialsWatched rx settings l.credentials.watched))
  | missing {rx settings credRx} (hp : l.phase = .credentialsWatched rx settings credRx)
      (hc : l.credentials.current = .missing) :
      Step l .advance (l.park .missingCredentials credRx)
  | resolved {rx settings credRx} (hp : l.phase = .credentialsWatched rx settings credRx)
      (hc : l.credentials.current ≠ .missing) :
      Step l .advance (l.setPhase (.connecting rx settings credRx l.credentials.current))
  | connected {rx settings credRx creds} (hp : l.phase = .connecting rx settings credRx creds) :
      Step l .connected (l.setPhase (.serving rx credRx creds))
  | connectFails {rx settings credRx creds failure}
      (hp : l.phase = .connecting rx settings credRx creds) :
      Step l (.connectFails failure) (l.fail credRx creds failure)
  | streamFails {rx credRx creds failure} (hp : l.phase = .serving rx credRx creds) :
      Step l (.streamFails failure) (l.fail credRx creds failure)
  | rotated : Step l .credentialsReady (l.setPhase .top)
  | credentialsGone {rx credRx creds} (hp : l.phase = .serving rx (some credRx) creds) :
      Step l .credentialsReady (l.setPhase (.serving rx none creds))
  | reconfigured : Step l .settingsReady (l.setPhase .top)
  | settingsGone {rx credRx creds} (hp : l.phase = .serving (some rx) credRx creds) :
      Step l .settingsReady (l.setPhase (.serving none credRx creds))
  | wake : Step l .wake (l.setPhase .top)
  | slept : Step l .slept (l.setPhase .top)
  | command : Step l .command l
  | retry : Step l .command (l.setPhase .top)
  | hangUp : Step l .hangUp (l.setPhase .exited)

theorem advance_cases {l l' : HubLoop T C} (hstep : l.advance = some l') :
    Step l .advance l' := by
  rw [advance] at hstep
  split at hstep
  · cases hstep
    exact .watchSettings ‹_›
  · split at hstep
    · cases hstep
      exact .disabled ‹_› ‹_›
    · cases hstep
      exact .enabled ‹_› ‹_›
  · cases hstep
    exact .watchCredentials ‹_›
  · split at hstep
    · cases hstep
      exact .missing ‹_› ‹_›
    · cases hstep
      exact .resolved ‹_› ‹_›
  · cases hstep

theorem step_cases {l l' : HubLoop T C} {act : LoopAction T C} (hstep : l.step act = some l') :
    Step l act l' := by
  rw [step.eq_def] at hstep
  split at hstep
  · split at hstep
    · obtain ⟨-, hstep⟩ := Option.ite_none_left_eq_some.mp hstep
      cases hstep
      exact .publishSettings ‹_›
    · cases hstep
  · split at hstep
    · cases hstep
      exact .dropSettings ‹_›
    · cases hstep
  · split at hstep
    · obtain ⟨-, hstep⟩ := Option.ite_none_left_eq_some.mp hstep
      cases hstep
      exact .publishCredentials ‹_›
    · cases hstep
    · cases hstep
  · split at hstep
    · cases hstep
      exact .dropCredentials ‹_›
    · cases hstep
    · cases hstep
  · exact advance_cases hstep
  · cases hstep
    exact .connected ‹_›
  · cases hstep
    exact .connectFails ‹_›
  · cases hstep
    exact .streamFails ‹_›
  · obtain ⟨changed, -, rfl⟩ := Option.map_eq_some_iff.mp hstep
    cases changed with
    | true => exact .rotated
    | false => exact .credentialsGone ‹_›
  · obtain ⟨changed, -, rfl⟩ := Option.map_eq_some_iff.mp hstep
    cases changed with
    | true => exact .reconfigured
    | false => exact .settingsGone ‹_›
  · obtain ⟨-, hstep⟩ := Option.ite_none_right_eq_some.mp hstep
    cases hstep
    exact .wake
  · cases hstep
    exact .slept
  · cases hstep
    exact .command
  · cases hstep
    exact .command
  · cases hstep
    exact .retry
  · cases hstep
    exact .hangUp
  · cases hstep
    exact .hangUp
  · cases hstep
    exact .hangUp
  · cases hstep

end HubLoop

end Alpaca

end Datamancer
