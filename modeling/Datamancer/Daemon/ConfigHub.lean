import Datamancer.Lib.ReplaceFile
import Datamancer.Lib.WatchChannel
import Datamancer.Providers.AlpacaHistory

/-!
# Datamancer.Daemon.ConfigHub

The configuration service of the daemon (`config_hub.rs`) with the web surface's lock over it
(`web/config_api.rs`) and the atomic replacement of the file (`paths.rs`). A request is a
future that may be dropped wherever it awaits; its write runs on a thread of its own and goes
on when the request is gone.

The sections of a configuration that no operation reads are one parameter, and with them the
checks of `Config::validate`; TOML is a parameter (`Format`). A request spawns one write at
most, so the write has the request's number.
-/

namespace Datamancer

namespace ConfigHub

open ReplaceFile

/-! ### Configurations -/

inductive AccountTypeCfg
  | paper
  | live
  deriving DecidableEq

inductive HistoryFeedCfg
  | iex
  | sip
  deriving DecidableEq

inductive CryptoVenueCfg
  | us
  | usKraken
  | euKraken
  deriving DecidableEq

inductive AccountType
  | paper
  | live
  deriving DecidableEq

inductive AlpacaCryptoVenue
  | us
  | usKraken
  | euKraken
  deriving DecidableEq

def AccountTypeCfg.into : AccountTypeCfg → AccountType
  | paper => .paper
  | live => .live

def HistoryFeedCfg.into : HistoryFeedCfg → Alpaca.AlpacaHistoryFeed
  | iex => .iex
  | sip => .sip

def CryptoVenueCfg.into : CryptoVenueCfg → AlpacaCryptoVenue
  | us => .us
  | usKraken => .usKraken
  | euKraken => .euKraken

structure AlpacaSection where
  accountType : AccountTypeCfg
  historyFeed : Option HistoryFeedCfg
  deriving DecidableEq

structure AlpacaCryptoSection where
  accountType : AccountTypeCfg
  venue : CryptoVenueCfg
  deriving DecidableEq

structure AlpacaSettings where
  accountType : AccountType
  historyFeed : Option Alpaca.AlpacaHistoryFeed
  deriving DecidableEq

structure AlpacaCryptoSettings where
  accountType : AccountType
  venue : AlpacaCryptoVenue
  deriving DecidableEq

def alpacaSettings (s : AlpacaSection) : AlpacaSettings :=
  ⟨s.accountType.into, s.historyFeed.map HistoryFeedCfg.into⟩

def alpacaCryptoSettings (s : AlpacaCryptoSection) : AlpacaCryptoSettings :=
  ⟨s.accountType.into, s.venue.into⟩

/-- A configuration; `O` is all that no operation looks into. -/
structure Config (O : Type) where
  alpaca : Option AlpacaSection
  alpacaCrypto : Option AlpacaCryptoSection
  /-- The token of the `[ws]` section, where there is one. -/
  ws : Option (Option String)
  other : O
  deriving DecidableEq

/-- How configurations are checked and written. -/
structure Format (O : Type) where
  validate : Config O → Except String Unit
  toToml : Config O → Except String (List Char)
  parse : List Char → Option (Config O)

/-- What is written is read back. -/
def Format.RoundTrips {O : Type} (F : Format O) : Prop :=
  ∀ c text, F.toToml c = .ok text → F.parse text = some c

/-! ### Operations -/

def redactedSecret : String := "<redacted>"

inductive OpError
  /-- The payload of `configure_provider` does not deserialize. -/
  | settings (message : String)
  | unknownProvider (provider : String)
  | invalid (message : String)
  | serialize (message : String)
  | io
  /-- The file cannot be read or parsed. -/
  | unreadable
  deriving DecidableEq

/-- A settings payload, as either section that it is deserialized to. -/
structure Payload where
  alpaca : Except String AlpacaSection
  alpacaCrypto : Except String AlpacaCryptoSection

inductive Op (O : Type)
  | configureProvider (provider : String) (settings : Payload)
  | removeProvider (provider : String)
  /-- `PUT /api/config`. -/
  | put (config : Config O)
  | getConfig
  /-- `GET /api/config`. -/
  | readDisk

variable {O : Type}

/-- The configuration an operation persists; `none` where it only reads. -/
def Op.candidate (current : Config O) : Op O → Option (Except OpError (Config O))
  | configureProvider provider settings =>
      if provider = Alpaca.providerId then
        match settings.alpaca with
        | .ok s => some (.ok { current with alpaca := some s })
        | .error e => some (.error (.settings e))
      else if provider = "alpaca-crypto" then
        match settings.alpacaCrypto with
        | .ok s => some (.ok { current with alpacaCrypto := some s })
        | .error e => some (.error (.settings e))
      else some (.error (.unknownProvider provider))
  | removeProvider provider =>
      if provider = Alpaca.providerId then some (.ok { current with alpaca := none })
      else if provider = "alpaca-crypto" then some (.ok { current with alpacaCrypto := none })
      else some (.error (.unknownProvider provider))
  | put config => some (.ok config)
  | getConfig | readDisk => none

/-- What `ConfigState` does under its own lock before it turns to the hub; the file is read
where the placeholder stands for the token, or to be shown. -/
def Op.withFile (file : Option (Config O)) : Op O → Except OpError (Op O)
  | put config =>
      if config.ws = some (some redactedSecret) then
        match file with
        | some stored => .ok (put { config with ws := some (stored.ws.bind id) })
        | none => .error .unreadable
      else .ok (put config)
  | readDisk =>
      match file with
      | some _ => .ok readDisk
      | none => .error .unreadable
  | op => .ok op

/-! ### The world -/

abbrev RequestId := Nat

/-- Where the blocking task of a write is (`Config::save`). -/
inductive Save
  | queued
  | replacing (text : List Char) (w : Writer Char)
  | finished (res : Except OpError Unit)

structure Write (O : Type) where
  config : Config O
  save : Save

inductive RequestState (O : Type)
  | fresh
  | waitingIo (op : Op O)
  | holdingIo (op : Op O)
  | waitingHub (op : Op O)
  /-- It holds the hub's lock and awaits its write. -/
  | saving (config : Config O)
  | done (res : Except OpError Unit)
  | dropped

/-- The request has begun and its future is there. -/
def RequestState.Pending : RequestState O → Prop
  | waitingIo _ | holdingIo _ | waitingHub _ | saving _ => True
  | fresh | done _ | dropped => False

structure World (O : Type) where
  disk : Disk Char
  current : Config O
  alpacaTx : WatchChannel (Option AlpacaSettings)
  alpacaCryptoTx : WatchChannel (Option AlpacaCryptoSettings)
  hubLock : Option RequestId
  ioLock : Option RequestId
  request : RequestId → RequestState O
  write : RequestId → Option (Write O)
  /-- The request has changed the file, the current configuration or a watch. -/
  touched : RequestId → Bool

inductive Action (O : Type)
  | request (r : RequestId) (op : Op O)
  | grantIo (r : RequestId)
  /-- The file is read; that may fail. -/
  | read (r : RequestId) (ok : Bool)
  | grantHub (r : RequestId)
  /-- The blocking task starts. -/
  | begin (r : RequestId)
  /-- The blocking task never runs. -/
  | abort (r : RequestId)
  | write (r : RequestId) (act : WriterAction)
  /-- The request finds its write finished. -/
  | resume (r : RequestId)
  | drop (r : RequestId)

def Action.owner : Action O → RequestId
  | request r _ | grantIo r | read r _ | grantHub r | begin r | abort r | write r _ | resume r
  | drop r => r

/-- `Config::save` up to the file. -/
def Save.start (F : Format O) (config : Config O) : Save :=
  match F.validate config, F.toToml config with
  | .error e, _ => .finished (.error (.invalid e))
  | .ok (), .error e => .finished (.error (.serialize e))
  | .ok (), .ok text => .replacing text .opening

/-- A write to the file, up to its result. -/
def Save.ofWriter (text : List Char) : Writer Char → Save
  | .finished true => .finished (.ok ())
  | .finished false => .finished (.error .io)
  | w => .replacing text w

/-- What a hole in a file reads as. -/
def hole : Char := Char.ofNat 0

namespace World

/-- The boot configuration, as the file has it. -/
def init (text : List Char) (boot : Config O) : World O where
  disk := ⟨fun _ => text, 1, 0, none⟩
  current := boot
  alpacaTx := .new (boot.alpaca.map alpacaSettings)
  alpacaCryptoTx := .new (boot.alpacaCrypto.map alpacaCryptoSettings)
  hubLock := none
  ioLock := none
  request := fun _ => .fresh
  write := fun _ => none
  touched := fun _ => false

def setRequest (w : World O) (r : RequestId) (st : RequestState O) : World O :=
  { w with request := Function.update w.request r st }

def setWrite (w : World O) (r : RequestId) (wr : Write O) : World O :=
  { w with write := Function.update w.write r (some wr) }

/-- A lock goes with the guard of the request that holds it. -/
def unlock (lock : Option RequestId) (r : RequestId) : Option RequestId :=
  if lock = some r then none else lock

/-- The request is over, and its guards are dropped. -/
def finish (w : World O) (r : RequestId) (st : RequestState O) : World O :=
  { w.setRequest r st with hubLock := unlock w.hubLock r, ioLock := unlock w.ioLock r }

/-- A watch is sent to only where its value changes. -/
def sendIfChanged {α : Type} [DecidableEq α] (tx : WatchChannel α) (v : α) : WatchChannel α :=
  if tx.value = v then tx else tx.send v

/-- Commit and `apply`. -/
def commit (w : World O) (config : Config O) : World O :=
  { w with
    current := config
    alpacaTx := sendIfChanged w.alpacaTx (config.alpaca.map alpacaSettings)
    alpacaCryptoTx :=
      sendIfChanged w.alpacaCryptoTx (config.alpacaCrypto.map alpacaCryptoSettings) }

/-- One action, but for the record of who has changed what. -/
def act (F : Format O) (w : World O) : Action O → Option (World O)
  | .request r op =>
      match w.request r with
      | .fresh =>
          match op with
          -- whatever reads the file holds the I/O lock for it; an edit goes to the hub at once
          | .put _ | .readDisk => some (w.setRequest r (.waitingIo op))
          | _ => some (w.setRequest r (.waitingHub op))
      | _ => none
  | .grantIo r =>
      match w.request r, w.ioLock with
      | .waitingIo op, none => some { w.setRequest r (.holdingIo op) with ioLock := some r }
      | _, _ => none
  | .read r ok =>
      match w.request r with
      | .holdingIo op =>
          match op.withFile (if ok then F.parse w.disk.content else none) with
          -- the I/O lock stays held while the request waits for the hub
          | .ok op => some (w.setRequest r (.waitingHub op))
          | .error e => some (w.finish r (.done (.error e)))
      | _ => none
  | .grantHub r =>
      match w.request r, w.hubLock with
      | .waitingHub op, none =>
          match op.candidate w.current with
          -- nothing would change, so nothing is written
          | none => some (w.finish r (.done (.ok ())))
          | some (.error e) => some (w.finish r (.done (.error e)))
          | some (.ok config) => some
              { (w.setRequest r (.saving config)).setWrite r ⟨config, .queued⟩ with
                hubLock := some r }
      | _, _ => none
  | .begin r =>
      match w.write r with
      | some ⟨config, .queued⟩ => some (w.setWrite r ⟨config, Save.start F config⟩)
      | _ => none
  | .abort r =>
      match w.write r with
      | some ⟨config, .queued⟩ => some (w.setWrite r ⟨config, .finished (.error .io)⟩)
      | _ => none
  | .write r act =>
      match w.write r with
      | some ⟨config, .replacing text writer⟩ =>
          (ReplaceFile.step hole text w.disk writer act).map fun out =>
            { w.setWrite r ⟨config, Save.ofWriter text out.2⟩ with disk := out.1 }
      | _ => none
  | .resume r =>
      match w.request r, w.write r with
      | .saving config, some ⟨_, .finished (.ok ())⟩ =>
          some ((w.commit config).finish r (.done (.ok ())))
      | .saving _, some ⟨_, .finished (.error e)⟩ => some (w.finish r (.done (.error e)))
      | _, _ => none
  | .drop r =>
      match w.request r with
      | .waitingIo _ | .holdingIo _ | .waitingHub _ | .saving _ => some (w.finish r .dropped)
      | _ => none

/-- The three copies. -/
def copies (w : World O) :
    List Char × Config O × Option AlpacaSettings × Option AlpacaCryptoSettings :=
  (w.disk.content, w.current, w.alpacaTx.value, w.alpacaCryptoTx.value)

/-! ### Inversion of an action -/

/-- What each action can do, with what it needs. -/
inductive Step (F : Format O) (w : World O) : Action O → World O → Prop
  | request {r op st} (hr : w.request r = .fresh) (hst : st = .waitingIo op ∨ st = .waitingHub op) :
      Step F w (.request r op) (w.setRequest r st)
  | grantIo {r op} (hr : w.request r = .waitingIo op) :
      Step F w (.grantIo r) { w.setRequest r (.holdingIo op) with ioLock := some r }
  | read {r ok op op'} (hr : w.request r = .holdingIo op) :
      Step F w (.read r ok) (w.setRequest r (.waitingHub op'))
  | unreadable {r ok op e} (hr : w.request r = .holdingIo op) :
      Step F w (.read r ok) (w.finish r (.done (.error e)))
  | noCandidate {r op} (hr : w.request r = .waitingHub op) :
      Step F w (.grantHub r) (w.finish r (.done (.ok ())))
  | refused {r op e} (hr : w.request r = .waitingHub op) :
      Step F w (.grantHub r) (w.finish r (.done (.error e)))
  | spawn {r op config} (hr : w.request r = .waitingHub op) (hl : w.hubLock = none)
      (hc : op.candidate w.current = some (.ok config)) :
      Step F w (.grantHub r) { (w.setRequest r (.saving config)).setWrite r ⟨config, .queued⟩ with
        hubLock := some r }
  | begin {r config} (hw : w.write r = some ⟨config, .queued⟩) :
      Step F w (.begin r) (w.setWrite r ⟨config, Save.start F config⟩)
  | abort {r config} (hw : w.write r = some ⟨config, .queued⟩) :
      Step F w (.abort r) (w.setWrite r ⟨config, .finished (.error .io)⟩)
  | write {r act config text writer disk' writer'}
      (hw : w.write r = some ⟨config, .replacing text writer⟩)
      (hstep : ReplaceFile.step hole text w.disk writer act = some (disk', writer')) :
      Step F w (.write r act)
        { w.setWrite r ⟨config, Save.ofWriter text writer'⟩ with disk := disk' }
  | commit {r config config'} (hr : w.request r = .saving config)
      (hw : w.write r = some ⟨config', .finished (.ok ())⟩) :
      Step F w (.resume r) ((w.commit config).finish r (.done (.ok ())))
  | failed {r config config' e} (hr : w.request r = .saving config)
      (hw : w.write r = some ⟨config', .finished (.error e)⟩) :
      Step F w (.resume r) (w.finish r (.done (.error e)))
  | drop {r} (hr : (w.request r).Pending) : Step F w (.drop r) (w.finish r .dropped)

theorem act_cases {F : Format O} {w w' : World O} {a : Action O} (h : w.act F a = some w') :
    Step F w a w' := by
  cases a with
  | request r op =>
      simp only [act] at h
      split at h
      · split at h
        · cases h
          exact .request ‹_› (.inl rfl)
        · cases h
          exact .request ‹_› (.inl rfl)
        · cases h
          exact .request ‹_› (.inr rfl)
      · cases h
  | grantIo r =>
      simp only [act] at h
      split at h
      · cases h
        exact .grantIo ‹_›
      · cases h
  | read r ok =>
      simp only [act] at h
      split at h
      · split at h
        · cases h
          exact .read ‹_›
        · cases h
          exact .unreadable ‹_›
      · cases h
  | grantHub r =>
      simp only [act] at h
      split at h
      · split at h
        · cases h
          exact .noCandidate ‹_›
        · cases h
          exact .refused ‹_›
        · cases h
          exact .spawn ‹_› ‹_› ‹_›
      · cases h
  | begin r =>
      simp only [act] at h
      split at h
      · cases h
        exact .begin ‹_›
      · cases h
  | abort r =>
      simp only [act] at h
      split at h
      · cases h
        exact .abort ‹_›
      · cases h
  | write r act =>
      simp only [World.act] at h
      split at h
      · obtain ⟨out, hstep, rfl⟩ := Option.map_eq_some_iff.mp h
        exact .write ‹_› hstep
      · cases h
  | resume r =>
      simp only [act] at h
      split at h
      · cases h
        exact .commit ‹_› ‹_›
      · cases h
        exact .failed ‹_› ‹_›
      · cases h
  | drop r =>
      simp only [act] at h
      split at h <;> cases h <;> exact .drop (by rw [‹w.request r = _›]; trivial)

variable [DecidableEq O]

/-- Who acts is recorded if a copy changes. -/
def mark (w w' : World O) (r : RequestId) : World O :=
  if w'.copies = w.copies then w' else { w' with touched := Function.update w'.touched r true }

def step (F : Format O) (w : World O) (a : Action O) : Option (World O) :=
  (w.act F a).map fun w' => w.mark w' a.owner

end World

end ConfigHub

end Datamancer
