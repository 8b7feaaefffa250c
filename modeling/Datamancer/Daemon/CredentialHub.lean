import Datamancer.Lib.WatchChannel
import Datamancer.Lib.WriteLog

/-!
# Datamancer.Daemon.CredentialHub

The credential broker of the daemon (`credentials.rs`) over the file backend of its store
(`datamancer-credentials/src/file.rs`). A set or a clear holds its provider's lock over the
store operation and what follows it; the store operation is a blocking task, which holds the
one mutex of the file while it loads, changes and saves the whole map.

The file is what it decodes to.
-/

namespace Datamancer

namespace CredentialHub

open WriteLog

/-! ### The store -/

inductive ProviderCredentials
  | apiKeyPair (keyId secret : String)
  | gateway (host : String) (port : UInt16) (clientId : UInt32)
  deriving DecidableEq

structure AlpacaCredentials where
  keyId : String
  secret : String
  deriving DecidableEq

/-- Both built-in providers take a key pair. -/
def toAlpaca : ProviderCredentials → Option AlpacaCredentials
  | .apiKeyPair keyId secret => some ⟨keyId, secret⟩
  | .gateway _ _ _ => none

inductive CredentialError
  | serde
  | io
  deriving DecidableEq

abbrev Entries := String → Option ProviderCredentials

/-- The credentials file. -/
inductive File
  | absent
  | json (map : Entries)
  /-- Its bytes are no such map. -/
  | undecodable

def File.entries : File → Entries
  | json map => map
  | absent | undecodable => fun _ => none

/-- `FileBackend::load`; any read may fail. -/
def File.load (ok : Bool) : File → Except CredentialError Entries
  | absent => if ok then .ok fun _ => none else .error .io
  | json map => if ok then .ok map else .error .io
  | undecodable => if ok then .error .serde else .error .io

/-! ### Operations -/

inductive Op
  | set (provider : String) (creds : ProviderCredentials)
  | get (provider : String)
  | clear (provider : String)
  deriving DecidableEq

def Op.provider : Op → String
  | set provider _ | get provider | clear provider => provider

/-- It takes its provider's lock. -/
def Op.Locks : Op → Prop
  | set _ _ | clear _ => True
  | get _ => False

/-- The map a store operation saves, if it comes to that: a clear of nothing saves nothing. -/
def Op.update (map : Entries) : Op → Option Entries
  | set provider creds => some (Function.update map provider (some creds))
  | clear provider =>
      if (map provider).isSome then some (Function.update map provider none) else none
  | get _ => none

/-- What it returns where it succeeds. -/
def Op.found (map : Entries) : Op → Option ProviderCredentials
  | get provider => map provider
  | set _ _ | clear _ => none

/-- The write a successful operation is. -/
def Op.write : Op → List (Write String ProviderCredentials)
  | set provider creds => [⟨provider, some creds⟩]
  | clear provider => [⟨provider, none⟩]
  | get _ => []

inductive TaskError
  | store (e : CredentialError)
  /-- The blocking task did not run to its end. -/
  | join
  deriving DecidableEq

inductive Code
  | unknownProvider
  | badRequest
  | credentialBackendUnavailable
  | credentialsMissing
  | internal
  deriving DecidableEq

inductive Reply
  | ok
  | credentials (creds : ProviderCredentials)
  | error (code : Code)
  deriving DecidableEq

def Op.reply : Op → Except TaskError (Option ProviderCredentials) → Reply
  | _, .error (.store _) => .error .credentialBackendUnavailable
  | _, .error .join => .error .internal
  | get _, .ok (some creds) => .credentials creds
  | get _, .ok none => .error .credentialsMissing
  | set _ _, .ok _ | clear _, .ok _ => .ok

/-! ### The world -/

abbrev RequestId := Nat

inductive RequestState
  | fresh
  /-- It awaits its provider's lock. -/
  | waiting (op : Op)
  /-- Its blocking task awaits the file's mutex. -/
  | queued (op : Op)
  /-- The task holds the mutex. -/
  | loading (op : Op)
  | saving (op : Op) (map : Entries)
  /-- The task is over. -/
  | stored (op : Op) (res : Except TaskError (Option ProviderCredentials))
  | done (op : Op) (reply : Reply)

def RequestState.operation : RequestState → Option Op
  | fresh => none
  | waiting op | queued op | loading op | saving op _ | stored op _ | done op _ => some op

structure World where
  file : File
  fileLock : Option RequestId
  /-- The locks of the providers, by the request whose guard holds it. -/
  lock : String → Option RequestId
  senders : String → Option (WatchChannel (Option AlpacaCredentials))
  request : RequestId → RequestState

inductive Action
  | request (r : RequestId) (op : Op)
  | grant (r : RequestId)
  /-- The blocking task does not run. -/
  | abort (r : RequestId)
  | enter (r : RequestId)
  | load (r : RequestId) (ok : Bool)
  /-- The whole map is written and renamed over the file, or something fails before. -/
  | save (r : RequestId) (ok : Bool)
  | resume (r : RequestId)
  deriving DecidableEq

def Action.owner : Action → RequestId
  | request r _ | grant r | abort r | enter r | load r _ | save r _ | resume r => r

namespace World

/-- The credentials a provider runs with. -/
def running (w : World) (provider : String) : Option AlpacaCredentials :=
  (w.senders provider).bind (·.value)

def setRequest (w : World) (r : RequestId) (st : RequestState) : World :=
  { w with request := Function.update w.request r st }

/-- The task is over, and the mutex it held is free. -/
def endTask (w : World) (r : RequestId) (op : Op)
    (res : Except TaskError (Option ProviderCredentials)) : World :=
  { w.setRequest r (.stored op res) with fileLock := none }

/-- The guard of the provider's lock is dropped. -/
def unlock (w : World) : Op → World
  | .set provider _ | .clear provider => { w with lock := Function.update w.lock provider none }
  | .get _ => w

/-- `send_replace` on the provider's watch, after a set that has been stored. -/
def hotApply (w : World) : Op → Except TaskError (Option ProviderCredentials) → World
  | .set provider creds, .ok _ =>
      { w with
        senders := Function.update w.senders provider
          ((w.senders provider).map (·.send (toAlpaca creds))) }
  | _, _ => w

/-- What a request does before it awaits anything. -/
def admission (w : World) : Op → RequestState
  | .set provider creds =>
      if (w.senders provider).isNone then .done (.set provider creds) (.error .unknownProvider)
      else if (toAlpaca creds).isNone then .done (.set provider creds) (.error .badRequest)
      else .waiting (.set provider creds)
  | .get provider =>
      if (w.senders provider).isNone then .done (.get provider) (.error .unknownProvider)
      else .queued (.get provider)
  | .clear provider =>
      if (w.senders provider).isNone then .done (.clear provider) (.error .unknownProvider)
      else .waiting (.clear provider)

def step (w : World) : Action → Option World
  | .request r op =>
      match w.request r with
      | .fresh => some (w.setRequest r (w.admission op))
      | _ => none
  | .grant r =>
      match w.request r with
      | .waiting op =>
          if w.lock op.provider = none then
            some { w.setRequest r (.queued op) with
              lock := Function.update w.lock op.provider (some r) }
          else none
      | _ => none
  | .abort r =>
      match w.request r with
      | .queued op => some (w.setRequest r (.stored op (.error .join)))
      | _ => none
  | .enter r =>
      match w.request r, w.fileLock with
      | .queued op, none => some { w.setRequest r (.loading op) with fileLock := some r }
      | _, _ => none
  | .load r ok =>
      match w.request r with
      | .loading op =>
          match w.file.load ok with
          | .error e => some (w.endTask r op (.error (.store e)))
          | .ok map =>
              match op.update map with
              | some map' => some (w.setRequest r (.saving op map'))
              | none => some (w.endTask r op (.ok (op.found map)))
      | _ => none
  | .save r ok =>
      match w.request r with
      | .saving op map =>
          if ok then some { w.endTask r op (.ok none) with file := .json map }
          else some (w.endTask r op (.error (.store .io)))
      | _ => none
  | .resume r =>
      match w.request r with
      | .stored op res =>
          some (((w.hotApply op res).unlock op).setRequest r (.done op (op.reply res)))
      | _ => none

/-- The store writes of a step: where a task that changes the store has succeeded. -/
def writes (w : World) : Action → List (Write String ProviderCredentials)
  | .load r ok =>
      match w.request r, w.file.load ok with
      | .loading op, .ok map => if (op.update map).isNone then op.write else []
      | _, _ => []
  | .save r ok =>
      match w.request r with
      | .saving op _ => if ok then op.write else []
      | _ => []
  | _ => []

/-! ### Inversion of a step -/

/-- What each action can do, with what it needs and what it writes to the store. -/
inductive Step (w : World) : Action → List (Write String ProviderCredentials) → World → Prop
  | request {r op} (hr : w.request r = .fresh) :
      Step w (.request r op) [] (w.setRequest r (w.admission op))
  | grant {r op} (hr : w.request r = .waiting op) (hl : w.lock op.provider = none) :
      Step w (.grant r) [] { w.setRequest r (.queued op) with
        lock := Function.update w.lock op.provider (some r) }
  | abort {r op} (hr : w.request r = .queued op) :
      Step w (.abort r) [] (w.setRequest r (.stored op (.error .join)))
  | enter {r op} (hr : w.request r = .queued op) (hl : w.fileLock = none) :
      Step w (.enter r) [] { w.setRequest r (.loading op) with fileLock := some r }
  | unread {r ok op e} (hr : w.request r = .loading op) :
      Step w (.load r ok) [] (w.endTask r op (.error e))
  | load {r ok op map map'} (hr : w.request r = .loading op) (hload : w.file.load ok = .ok map)
      (hupdate : op.update map = some map') :
      Step w (.load r ok) [] (w.setRequest r (.saving op map'))
  | unchanged {r ok op map} (hr : w.request r = .loading op) (hload : w.file.load ok = .ok map)
      (hupdate : op.update map = none) :
      Step w (.load r ok) op.write (w.endTask r op (.ok (op.found map)))
  | save {r op map} (hr : w.request r = .saving op map) :
      Step w (.save r true) op.write { w.endTask r op (.ok none) with file := .json map }
  | unsaved {r op map e} (hr : w.request r = .saving op map) :
      Step w (.save r false) [] (w.endTask r op (.error e))
  | resume {r op res} (hr : w.request r = .stored op res) :
      Step w (.resume r) [] (((w.hotApply op res).unlock op).setRequest r (.done op (op.reply res)))

theorem step_cases {w w' : World} {a : Action} (h : w.step a = some w') :
    Step w a (w.writes a) w' := by
  cases a with
  | request r op =>
      simp only [step] at h
      split at h
      · cases h
        exact .request ‹_›
      · cases h
  | grant r =>
      simp only [step] at h
      split at h
      · obtain ⟨hl, h⟩ := Option.ite_none_right_eq_some.mp h
        cases h
        exact .grant ‹_› hl
      · cases h
  | abort r =>
      simp only [step] at h
      split at h
      · cases h
        exact .abort ‹_›
      · cases h
  | enter r =>
      simp only [step] at h
      split at h
      · cases h
        exact .enter ‹_› ‹_›
      · cases h
  | load r ok =>
      simp only [step] at h
      split at h
      · rename_i op hr
        split at h
        · rename_i e hload
          cases h
          simp only [writes, hr, hload]
          exact .unread hr
        · rename_i map hload
          split at h
          · rename_i map' hupdate
            cases h
            simp only [writes, hr, hload, hupdate]
            exact .load hr hload hupdate
          · rename_i hupdate
            cases h
            simp only [writes, hr, hload, hupdate]
            exact .unchanged hr hload hupdate
      · cases h
  | save r ok =>
      simp only [step] at h
      split at h
      · rename_i op map hr
        cases ok with
        | true =>
            cases h
            simp only [writes, hr]
            exact .save hr
        | false =>
            cases h
            simp only [writes, hr]
            exact .unsaved hr
      · cases h
  | resume r =>
      simp only [step] at h
      split at h
      · cases h
        exact .resume ‹_›
      · cases h

/-! ### Boot -/

/-- The stored credentials of a provider, where they can be read and fit. -/
def seed (file : File) (ok : Bool) (id : String) : Option AlpacaCredentials :=
  match file.load ok with
  | .ok map => (map id).bind toAlpaca
  | .error _ => none

/-- A watch for each provider; each read of the store may fail. -/
def withStore (file : File) (ok : String → Bool) (ids : List String) : World where
  file := file
  fileLock := none
  lock := fun _ => none
  senders := fun id => if id ∈ ids then some (.new (seed file (ok id) id)) else none
  request := fun _ => .fresh

/-- The credentials of the environment, for a provider that has none. -/
def envFallback (w : World) (id : String) (env : Option AlpacaCredentials) : World :=
  match w.senders id, env with
  | some sender, some creds =>
      if sender.value.isSome then w
      else { w with senders := Function.update w.senders id (some (sender.send (some creds))) }
  | _, _ => w

def bootstrap (file : File) (ok : String → Bool) (ids : List String)
    (env : List (String × Option AlpacaCredentials)) : World :=
  env.foldl (fun w e => w.envFallback e.1 e.2) (withStore file ok ids)

end World

end CredentialHub

end Datamancer
