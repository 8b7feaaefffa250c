import Mathlib.Data.List.DropRight
import Datamancer.Lib.KeyTree
import Datamancer.Daemon.ConfigTokens

/-!
# Datamancer.Daemon.ConfigClass

Whether a configuration asks for a restart (`config_class.rs`): every field of it is hot or cold,
by the longest prefix in one table, and the cold leaves at which the configuration differs from
the one the daemon was booted with are what a restart is asked for.

The difference is taken leaf by leaf on the serialized configurations, where a section or a field
that is not set is left out. `coldDivergence_law` says what that comes to: every path listed is a
cold leaf with two values, and none is listed exactly when the two configurations are the same but
for their providers. Over the runs of the configuration service (`Daemon.ConfigHub`) a restart is
then asked for only after a `PUT` that changed something else than a provider, but where a `GET`
finds the file and the hub, one after the other, apart in their providers (`restart_after_put`).

A configuration is serialized by the fields of its structures, in the order of their keys. The
anchors in `startup_session` are one leaf of it, kept as they are.
-/

namespace Datamancer

namespace ConfigClass

open KeyTree

/-! ### Configurations -/

inductive StorageBackend
  | embedded
  | memory
  deriving DecidableEq

inductive AdjustmentCfg
  | raw
  | split
  | dividend
  | spinOff
  | all
  deriving DecidableEq

inductive PersistenceCfg
  | none
  | cached
  | cachedWithTap
  | readOnly
  | refresh
  | tapOnly
  deriving DecidableEq

inductive LogFormat
  | text
  | json
  deriving DecidableEq

inductive AssetClassCfg
  | equity
  | crypto
  deriving DecidableEq

inductive EventKindCfg
  | trade
  | quote
  | bar1s
  | bar1m
  | bar5m
  | bar15m
  | bar1h
  | bar1d
  deriving DecidableEq

inductive ScopeCfg
  | live
  | liveBackfill
  deriving DecidableEq

structure ProviderConfig where
  alpaca : Option ConfigHub.AlpacaSection
  alpacaCrypto : Option ConfigHub.AlpacaCryptoSection
  deriving DecidableEq

structure StorageConfig where
  backend : StorageBackend
  path : Option String
  deriving DecidableEq

structure SessionConfig where
  resumeBufferEvents : Nat
  adjustment : AdjustmentCfg
  queryPersistence : PersistenceCfg
  deriving DecidableEq

structure ServerConfig where
  adminSocket : String
  servicePrefix : String
  shutdownTimeoutSecs : Nat
  allowAnyIntegrity : Bool
  deriving DecidableEq

structure DiagnosticsConfig where
  publishIntervalMs : Nat
  cacheCatalogIntervalMs : Nat
  deriving DecidableEq

structure Iceoryx2Config where
  maxClients : Nat
  maxQueries : Nat
  deriving DecidableEq

structure WebUiConfig where
  enabled : Bool
  bind : String
  port : Nat
  assetsDir : Option String
  liveStateCadenceMs : Nat
  cacheCatalogCadenceMs : Nat
  deriving DecidableEq

structure WsConfig where
  enabled : Bool
  bind : String
  port : Nat
  authToken : Option String
  channelDepth : Nat
  maxConnections : Nat
  keepaliveSecs : Nat
  deriving DecidableEq

structure StartupSession where
  provider : String
  assetClass : AssetClassCfg
  symbol : String
  kind : EventKindCfg
  scope : ScopeCfg
  backfillFrom : Option String
  persistence : PersistenceCfg
  alwaysOn : Bool
  deriving DecidableEq

structure LogConfig where
  level : String
  format : LogFormat
  deriving DecidableEq

structure Config where
  provider : ProviderConfig
  cache : Option StorageConfig
  tapLog : Option StorageConfig
  session : SessionConfig
  server : ServerConfig
  diagnostics : DiagnosticsConfig
  iceoryx2 : Iceoryx2Config
  webUi : Option WebUiConfig
  ws : Option WsConfig
  startupSession : List StartupSession
  log : LogConfig
  deriving DecidableEq

/-! ### Serialization -/

inductive Scalar
  | null
  | bool (b : Bool)
  | number (n : Nat)
  | string (s : String)
  | sessions (l : List StartupSession)
  deriving DecidableEq

abbrev Value := KeyTree Scalar

/-- A field that is always there. -/
def field (key : String) (value : Value) : List (String × Value) := [(key, value)]

/-- A field that is left out where it is not set. -/
def optional {α : Type} (key : String) (value : α → Value) (x : Option α) :
    List (String × Value) := x.toList.map fun a => (key, value a)

/-- A field that is null where it is not set. -/
def nullable {α : Type} (value : α → Value) (x : Option α) : Value := x.elim (.leaf .null) value

def object (fields : List (List (String × Value))) : Value :=
  .node (.ofList fields.flatten)

def bool (b : Bool) : Value := .leaf (.bool b)

def number (n : Nat) : Value := .leaf (.number n)

def string (s : String) : Value := .leaf (.string s)

def accountType : ConfigHub.AccountTypeCfg → Value
  | .paper => string "paper"
  | .live => string "live"

def historyFeed : ConfigHub.HistoryFeedCfg → Value
  | .iex => string "iex"
  | .sip => string "sip"

def cryptoVenue : ConfigHub.CryptoVenueCfg → Value
  | .us => string "us"
  | .usKraken => string "us_kraken"
  | .euKraken => string "eu_kraken"

def StorageBackend.toValue : StorageBackend → Value
  | embedded => string "embedded"
  | memory => string "memory"

def AdjustmentCfg.toValue : AdjustmentCfg → Value
  | raw => string "raw"
  | split => string "split"
  | dividend => string "dividend"
  | spinOff => string "spin_off"
  | all => string "all"

def PersistenceCfg.toValue : PersistenceCfg → Value
  | none => string "none"
  | cached => string "cached"
  | cachedWithTap => string "cached_with_tap"
  | readOnly => string "read_only"
  | refresh => string "refresh"
  | tapOnly => string "tap_only"

def LogFormat.toValue : LogFormat → Value
  | text => string "text"
  | json => string "json"

def alpacaSection (s : ConfigHub.AlpacaSection) : Value :=
  object [field "account_type" (accountType s.accountType),
    optional "history_feed" historyFeed s.historyFeed]

def alpacaCryptoSection (s : ConfigHub.AlpacaCryptoSection) : Value :=
  object [field "account_type" (accountType s.accountType), field "venue" (cryptoVenue s.venue)]

def ProviderConfig.toValue (c : ProviderConfig) : Value :=
  object [field "alpaca" (nullable alpacaSection c.alpaca),
    field "alpaca_crypto" (nullable alpacaCryptoSection c.alpacaCrypto)]

def StorageConfig.toValue (c : StorageConfig) : Value :=
  object [field "backend" c.backend.toValue, optional "path" string c.path]

def SessionConfig.toValue (c : SessionConfig) : Value :=
  object [field "adjustment" c.adjustment.toValue,
    field "query_persistence" c.queryPersistence.toValue,
    field "resume_buffer_events" (number c.resumeBufferEvents)]

def ServerConfig.toValue (c : ServerConfig) : Value :=
  object [field "admin_socket" (string c.adminSocket),
    field "allow_any_integrity" (bool c.allowAnyIntegrity),
    field "service_prefix" (string c.servicePrefix),
    field "shutdown_timeout_secs" (number c.shutdownTimeoutSecs)]

def DiagnosticsConfig.toValue (c : DiagnosticsConfig) : Value :=
  object [field "cache_catalog_interval_ms" (number c.cacheCatalogIntervalMs),
    field "publish_interval_ms" (number c.publishIntervalMs)]

def Iceoryx2Config.toValue (c : Iceoryx2Config) : Value :=
  object [field "max_clients" (number c.maxClients), field "max_queries" (number c.maxQueries)]

def WebUiConfig.toValue (c : WebUiConfig) : Value :=
  object [optional "assets_dir" string c.assetsDir, field "bind" (string c.bind),
    field "cache_catalog_cadence_ms" (number c.cacheCatalogCadenceMs),
    field "enabled" (bool c.enabled),
    field "live_state_cadence_ms" (number c.liveStateCadenceMs), field "port" (number c.port)]

def WsConfig.toValue (c : WsConfig) : Value :=
  object [optional "auth_token" string c.authToken, field "bind" (string c.bind),
    field "channel_depth" (number c.channelDepth), field "enabled" (bool c.enabled),
    field "keepalive_secs" (number c.keepaliveSecs),
    field "max_connections" (number c.maxConnections), field "port" (number c.port)]

def LogConfig.toValue (c : LogConfig) : Value :=
  object [field "format" c.format.toValue, field "level" (string c.level)]

def Config.toFields (c : Config) : KeyFields Scalar :=
  .ofList [optional "cache" StorageConfig.toValue c.cache,
    field "diagnostics" c.diagnostics.toValue, field "iceoryx2" c.iceoryx2.toValue,
    field "log" c.log.toValue, field "provider" c.provider.toValue,
    field "server" c.server.toValue, field "session" c.session.toValue,
    field "startup_session" (.leaf (.sessions c.startupSession)),
    optional "tap_log" StorageConfig.toValue c.tapLog,
    optional "web_ui" WebUiConfig.toValue c.webUi, optional "ws" WsConfig.toValue c.ws].flatten

def Config.toValue (c : Config) : Value := .node c.toFields

/-! ### Classes -/

/-- Whether a change of a field is applied to the running daemon. -/
inductive FieldClass
  /-- Applies live, through the watches of the providers. -/
  | hot
  /-- Persisted, and applied at the next boot. -/
  | cold
  deriving DecidableEq

/-- `CLASSIFICATION`. -/
def classification : List (String × FieldClass) :=
  [("provider.", .hot), ("cache.", .cold), ("tap_log.", .cold), ("session.", .cold),
    ("server.", .cold), ("diagnostics.", .cold), ("iceoryx2.", .cold), ("web_ui.", .cold),
    ("ws.", .cold), ("startup_session.", .cold), ("log.", .cold)]

/-- `trim_end_matches('.')`. -/
def trimDots (s : List Char) : List Char := s.rdropWhile (· = '.')

/-- `max_by_key`: the last element of those with the greatest key. -/
def maxByKey {α : Type} (key : α → Nat) : List α → Option α
  | [] => none
  | x :: xs => some (xs.foldl (fun best y => if key best ≤ key y then y else best) x)

/-- An entry of the table that is about a path. -/
def applies (path : String) (entry : String × FieldClass) : Bool :=
  entry.1.toList.isPrefixOf path.toList || path.toList = trimDots entry.1.toList

/-- The class of a path, by the longest prefix; `none` for an unknown path. -/
def classify (path : String) : Option FieldClass :=
  (maxByKey (fun entry => entry.1.utf8ByteSize) (classification.filter (applies path))).map Prod.snd

mutual

/-- `leaf_paths`: the dotted path of every leaf, below `path`. -/
def leafPaths : String → Value → List String
  | path, .leaf _ => [path]
  | path, .node fields => fieldPaths path fields

def fieldPaths : String → KeyFields Scalar → List String
  | _, .nil => []
  | path, .cons key value rest =>
      leafPaths (if path = "" then key else path ++ "." ++ key) value ++ fieldPaths path rest

end

def lookup (value : Value) (path : String) : Option Value := value.at (segments path)

/-- The cold leaves that differ. -/
def coldDivergence (baseline current : Config) : List String :=
  let a := baseline.toValue
  let b := current.toValue
  (((leafPaths "" a ++ leafPaths "" b).insertionSort (· ≤ ·)).destutter (· ≠ ·)).filter
    fun p => lookup a p ≠ lookup b p ∧ classify p = some .cold

/-! ### Well-formed values -/

/-- Keys in order, each of which stands for itself in a path. -/
def GoodKeys (keys : List String) : Prop :=
  keys.Pairwise (· < ·) ∧ ∀ k ∈ keys, k ≠ "" ∧ '.' ∉ k.toList

instance (keys : List String) : Decidable (GoodKeys keys) := inferInstanceAs (Decidable (_ ∧ _))

/-- A field under its key, or one that is left out. -/
def IsField (fields : List (String × Value)) (key : String) : Prop :=
  fields = [] ∨ ∃ value : Value, value.Keyed ∧ fields = [(key, value)]

theorem isField {key : String} {value : Value} (h : value.Keyed) :
    IsField (field key value) key := .inr ⟨value, h, rfl⟩

theorem isField_optional {α : Type} {key : String} {value : α → Value} {x : Option α}
    (h : ∀ a, (value a).Keyed) : IsField (optional key value x) key := by
  cases x with
  | none => exact .inl rfl
  | some a => exact .inr ⟨value a, h a, rfl⟩

theorem keyed_ofList {fields : List (List (String × Value))} (keys : List String)
    (hkeys : GoodKeys keys) (hfields : List.Forall₂ IsField fields keys) :
    (KeyFields.ofList fields.flatten).Keyed := by
  obtain ⟨hsub, hvalues⟩ : (fields.flatten.map Prod.fst).Sublist keys ∧
      ∀ x ∈ fields.flatten, x.2.Keyed := by
    clear hkeys
    induction hfields with
    | nil => simp
    | cons hf hrest ih =>
        obtain ⟨hsub, hvalues⟩ := ih
        rcases hf with rfl | ⟨value, hvalue, rfl⟩
        · exact ⟨hsub.trans (List.sublist_cons_self _ _), hvalues⟩
        · exact ⟨hsub.cons_cons _, List.forall_mem_cons.mpr ⟨hvalue, hvalues⟩⟩
  refine KeyFields.keyed_ofList (hkeys.1.sublist hsub) fun x hx => ⟨?_, hvalues x hx⟩
  obtain ⟨hne, hdot⟩ := hkeys.2 x.1 (hsub.subset (List.mem_map_of_mem hx))
  exact ⟨hne, hdot⟩

theorem keyed_object {fields : List (List (String × Value))} (keys : List String)
    (hkeys : GoodKeys keys) (hfields : List.Forall₂ IsField fields keys)
    (hne : fields.flatten ≠ []) : (object fields).Keyed := by
  refine ⟨?_, keyed_ofList keys hkeys hfields⟩
  obtain ⟨x, hx⟩ := List.exists_mem_of_ne_nil _ hne
  refine ⟨x.1, ?_⟩
  rw [KeyFields.get_ofList, ne_eq, Option.map_eq_none_iff, List.find?_eq_none]
  exact fun h => h x hx (by simp)

theorem StorageConfig.keyed (c : StorageConfig) : c.toValue.Keyed := by
  refine keyed_object ["backend", "path"] (by decide) ?_ (by simp [field])
  exact .cons (isField (by cases c.backend <;> trivial))
    (.cons (isField_optional fun _ => trivial) .nil)

theorem SessionConfig.keyed (c : SessionConfig) : c.toValue.Keyed := by
  refine keyed_object ["adjustment", "query_persistence", "resume_buffer_events"] (by decide) ?_
    (by simp [field])
  exact .cons (isField (by cases c.adjustment <;> trivial))
    (.cons (isField (by cases c.queryPersistence <;> trivial)) (.cons (isField trivial) .nil))

theorem ServerConfig.keyed (c : ServerConfig) : c.toValue.Keyed := by
  refine keyed_object ["admin_socket", "allow_any_integrity", "service_prefix",
    "shutdown_timeout_secs"] (by decide) ?_ (by simp [field])
  exact .cons (isField trivial) (.cons (isField trivial) (.cons (isField trivial)
    (.cons (isField trivial) .nil)))

theorem DiagnosticsConfig.keyed (c : DiagnosticsConfig) : c.toValue.Keyed := by
  refine keyed_object ["cache_catalog_interval_ms", "publish_interval_ms"] (by decide) ?_
    (by simp [field])
  exact .cons (isField trivial) (.cons (isField trivial) .nil)

theorem Iceoryx2Config.keyed (c : Iceoryx2Config) : c.toValue.Keyed := by
  refine keyed_object ["max_clients", "max_queries"] (by decide) ?_ (by simp [field])
  exact .cons (isField trivial) (.cons (isField trivial) .nil)

theorem WebUiConfig.keyed (c : WebUiConfig) : c.toValue.Keyed := by
  refine keyed_object ["assets_dir", "bind", "cache_catalog_cadence_ms", "enabled",
    "live_state_cadence_ms", "port"] (by decide) ?_ (by simp [field])
  refine .cons (isField_optional fun _ => trivial) ?_
  iterate 5 refine .cons (isField trivial) ?_
  exact .nil

theorem WsConfig.keyed (c : WsConfig) : c.toValue.Keyed := by
  refine keyed_object ["auth_token", "bind", "channel_depth", "enabled", "keepalive_secs",
    "max_connections", "port"] (by decide) ?_ (by simp [field])
  refine .cons (isField_optional fun _ => trivial) ?_
  iterate 6 refine .cons (isField trivial) ?_
  exact .nil

theorem LogConfig.keyed (c : LogConfig) : c.toValue.Keyed := by
  refine keyed_object ["format", "level"] (by decide) ?_ (by simp [field])
  exact .cons (isField (by cases c.format <;> trivial)) (.cons (isField trivial) .nil)

theorem alpacaSection_keyed (s : ConfigHub.AlpacaSection) : (alpacaSection s).Keyed := by
  refine keyed_object ["account_type", "history_feed"] (by decide) ?_ (by simp [field])
  exact .cons (isField (by cases s.accountType <;> trivial))
    (.cons (isField_optional fun feed => by cases feed <;> trivial) .nil)

theorem alpacaCryptoSection_keyed (s : ConfigHub.AlpacaCryptoSection) :
    (alpacaCryptoSection s).Keyed := by
  refine keyed_object ["account_type", "venue"] (by decide) ?_ (by simp [field])
  exact .cons (isField (by cases s.accountType <;> trivial))
    (.cons (isField (by cases s.venue <;> trivial)) .nil)

theorem ProviderConfig.keyed (c : ProviderConfig) : c.toValue.Keyed := by
  have hnullable : ∀ {α : Type} {value : α → Value} {x : Option α}, (∀ a, (value a).Keyed) →
      (nullable value x).Keyed := by
    intro α value x h
    cases x with
    | none => trivial
    | some a => exact h a
  refine keyed_object ["alpaca", "alpaca_crypto"] (by decide) ?_ (by simp [field])
  exact .cons (isField (hnullable alpacaSection_keyed))
    (.cons (isField (hnullable alpacaCryptoSection_keyed)) .nil)

/-- The sections of a configuration. -/
def sectionKeys : List String :=
  ["cache", "diagnostics", "iceoryx2", "log", "provider", "server", "session", "startup_session",
    "tap_log", "web_ui", "ws"]

theorem Config.keyed_toFields (c : Config) : c.toFields.Keyed := by
  refine keyed_ofList sectionKeys (by decide) ?_
  refine .cons (isField_optional StorageConfig.keyed) ?_
  refine .cons (isField c.diagnostics.keyed) (.cons (isField c.iceoryx2.keyed) ?_)
  refine .cons (isField c.log.keyed) (.cons (isField c.provider.keyed) ?_)
  refine .cons (isField c.server.keyed) (.cons (isField c.session.keyed) ?_)
  refine .cons (isField trivial) (.cons (isField_optional StorageConfig.keyed) ?_)
  exact .cons (isField_optional WebUiConfig.keyed) (.cons (isField_optional WsConfig.keyed) .nil)

theorem Config.keyed (c : Config) : c.toValue.Keyed := by
  refine ⟨⟨"provider", ?_⟩, c.keyed_toFields⟩
  rw [Config.toFields, KeyFields.get_ofList, ne_eq, Option.map_eq_none_iff, List.find?_eq_none]
  intro h
  exact h ("provider", c.provider.toValue) (by simp [field]) (by simp)

/-! ### Sections -/

theorem get_append (f g : List (String × Value)) (k : String) :
    (KeyFields.ofList (f ++ g)).get k
      = ((KeyFields.ofList f).get k).or ((KeyFields.ofList g).get k) := by
  simp only [KeyFields.get_ofList, List.find?_append, Option.map_or]

theorem get_field (key : String) (value : Value) (k : String) :
    (KeyFields.ofList (field key value)).get k = if key = k then some value else none := rfl

theorem get_optional {α : Type} (key : String) (value : α → Value) (x : Option α) (k : String) :
    (KeyFields.ofList (optional key value x)).get k = if key = k then x.map value else none := by
  cases x with
  | none => simp [optional, KeyFields.ofList, KeyFields.get]
  | some a => rfl

/-- The sections, one after the other. -/
theorem get_toFields (c : Config) (k : String) : c.toFields.get k =
    (((((((((((if "cache" = k then c.cache.map StorageConfig.toValue else none).or
      (if "diagnostics" = k then some c.diagnostics.toValue else none)).or
      (if "iceoryx2" = k then some c.iceoryx2.toValue else none)).or
      (if "log" = k then some c.log.toValue else none)).or
      (if "provider" = k then some c.provider.toValue else none)).or
      (if "server" = k then some c.server.toValue else none)).or
      (if "session" = k then some c.session.toValue else none)).or
      (if "startup_session" = k then some (.leaf (.sessions c.startupSession)) else none)).or
      (if "tap_log" = k then c.tapLog.map StorageConfig.toValue else none)).or
      (if "web_ui" = k then c.webUi.map WebUiConfig.toValue else none)).or
      (if "ws" = k then c.ws.map WsConfig.toValue else none)) := by
  simp only [Config.toFields, List.flatten_cons, List.flatten_nil, get_append, get_field,
    get_optional, Option.or_assoc, KeyFields.ofList, KeyFields.get, Option.or_none]

/-! ### What a value tells -/

@[simp] theorem string_inj {s s' : String} : string s = string s' ↔ s = s' := by simp [string]

@[simp] theorem number_inj {n n' : Nat} : number n = number n' ↔ n = n' := by simp [number]

@[simp] theorem bool_inj {b b' : Bool} : bool b = bool b' ↔ b = b' := by simp [bool]

@[simp] theorem StorageBackend.toValue_inj {b b' : StorageBackend} :
    b.toValue = b'.toValue ↔ b = b' := by
  cases b <;> cases b' <;> simp [toValue]

@[simp] theorem AdjustmentCfg.toValue_inj {a a' : AdjustmentCfg} :
    a.toValue = a'.toValue ↔ a = a' := by
  cases a <;> cases a' <;> simp [toValue]

@[simp] theorem PersistenceCfg.toValue_inj {p p' : PersistenceCfg} :
    p.toValue = p'.toValue ↔ p = p' := by
  cases p <;> cases p' <;> simp [toValue]

@[simp] theorem LogFormat.toValue_inj {f f' : LogFormat} : f.toValue = f'.toValue ↔ f = f' := by
  cases f <;> cases f' <;> simp [toValue]

theorem StorageConfig.toValue_injective : Function.Injective StorageConfig.toValue := by
  rintro ⟨backend, path⟩ ⟨backend', path'⟩ h
  cases path <;> cases path' <;> simp_all [toValue, object, field, optional, KeyFields.ofList]

theorem SessionConfig.toValue_injective : Function.Injective SessionConfig.toValue := by
  rintro ⟨events, adjustment, persistence⟩ ⟨events', adjustment', persistence'⟩ h
  simp_all [toValue, object, field, KeyFields.ofList]

theorem ServerConfig.toValue_injective : Function.Injective ServerConfig.toValue := by
  rintro ⟨socket, pre, timeout, integrity⟩ ⟨socket', pre', timeout', integrity'⟩ h
  simp_all [toValue, object, field, KeyFields.ofList]

theorem DiagnosticsConfig.toValue_injective : Function.Injective DiagnosticsConfig.toValue := by
  rintro ⟨publish, catalog⟩ ⟨publish', catalog'⟩ h
  simp_all [toValue, object, field, KeyFields.ofList]

theorem Iceoryx2Config.toValue_injective : Function.Injective Iceoryx2Config.toValue := by
  rintro ⟨clients, queries⟩ ⟨clients', queries'⟩ h
  simp_all [toValue, object, field, KeyFields.ofList]

theorem WebUiConfig.toValue_injective : Function.Injective WebUiConfig.toValue := by
  rintro ⟨enabled, bind, port, assets, live, catalog⟩
    ⟨enabled', bind', port', assets', live', catalog'⟩ h
  cases assets <;> cases assets' <;>
    simp_all [toValue, object, field, optional, KeyFields.ofList]

theorem WsConfig.toValue_injective : Function.Injective WsConfig.toValue := by
  rintro ⟨enabled, bind, port, token, depth, connections, keepalive⟩
    ⟨enabled', bind', port', token', depth', connections', keepalive'⟩ h
  cases token <;> cases token' <;>
    simp_all [toValue, object, field, optional, KeyFields.ofList]

theorem LogConfig.toValue_injective : Function.Injective LogConfig.toValue := by
  rintro ⟨level, format⟩ ⟨level', format'⟩ h
  simp_all [toValue, object, field, KeyFields.ofList]

/-- The same but for the providers. -/
def Config.Alike (c c' : Config) : Prop := { c with provider := c'.provider } = c'

instance (c c' : Config) : Decidable (c.Alike c') := inferInstanceAs (Decidable (_ = _))

/-- Configurations with the same sections are the same but for the providers. -/
theorem Config.alike_iff {c c' : Config} :
    c.Alike c' ↔ ∀ k, k ≠ "provider" → c.toFields.get k = c'.toFields.get k := by
  constructor
  · rintro h k hk
    rw [← h]
    simp only [get_toFields, if_neg hk.symm]
  · intro h
    obtain ⟨provider, cache, tapLog, session, server, diagnostics, iceoryx2, webUi, ws, sessions,
      log⟩ := c
    obtain ⟨provider', cache', tapLog', session', server', diagnostics', iceoryx2', webUi', ws',
      sessions', log'⟩ := c'
    simp only [get_toFields] at h
    have hcache := h "cache" (by decide)
    have hdiagnostics := h "diagnostics" (by decide)
    have hiceoryx2 := h "iceoryx2" (by decide)
    have hlog := h "log" (by decide)
    have hserver := h "server" (by decide)
    have hsession := h "session" (by decide)
    have hsessions := h "startup_session" (by decide)
    have htapLog := h "tap_log" (by decide)
    have hwebUi := h "web_ui" (by decide)
    have hws := h "ws" (by decide)
    simp at hcache hdiagnostics hiceoryx2 hlog hserver hsession hsessions htapLog hwebUi hws
    simp only [Alike, mk.injEq, true_and]
    exact ⟨Option.map_injective StorageConfig.toValue_injective hcache,
      Option.map_injective StorageConfig.toValue_injective htapLog,
      SessionConfig.toValue_injective hsession, ServerConfig.toValue_injective hserver,
      DiagnosticsConfig.toValue_injective hdiagnostics,
      Iceoryx2Config.toValue_injective hiceoryx2,
      Option.map_injective WebUiConfig.toValue_injective hwebUi,
      Option.map_injective WsConfig.toValue_injective hws, hsessions,
      LogConfig.toValue_injective hlog⟩

/-! ### The class of a path -/

/-- The keys of a section are dotted paths that begin with it. -/
theorem applies_iff {s : String} (hs : '.' ∉ s.toList) {path : String} {class_ : FieldClass} :
    applies path (s ++ ".", class_) ↔ path.toList.takeWhile (· ≠ '.') = s.toList := by
  have htrim : trimDots (s ++ ".").toList = s.toList := by
    rw [trimDots, String.toList_append]
    refine (List.rdropWhile_concat_pos _ _ _ (by decide)).trans ?_
    rw [List.rdropWhile_eq_self_iff]
    intro hne hdot
    exact hs (of_decide_eq_true hdot ▸ List.getLast_mem hne)
  have hkeep : s.toList.takeWhile (· ≠ '.') = s.toList :=
    List.takeWhile_eq_self_iff.mpr fun c hc => by
      simp only [ne_eq, decide_eq_true_eq]
      rintro rfl
      exact hs hc
  rw [applies, htrim, Bool.or_eq_true, List.isPrefixOf_iff_prefix, decide_eq_true_eq,
    String.toList_append]
  constructor
  · rintro (⟨rest, hrest⟩ | heq)
    · rw [← hrest, List.append_assoc, List.takeWhile_append_of_pos]
      · simp
      · exact fun c hc => List.takeWhile_eq_self_iff.mp hkeep c hc
    · rw [heq, hkeep]
  · intro h
    rw [← h]
    have hsplit := List.takeWhile_append_dropWhile (p := (· ≠ '.')) (l := path.toList)
    cases hdrop : path.toList.dropWhile (· ≠ '.') with
    | nil =>
        rw [hdrop, List.append_nil] at hsplit
        exact .inr hsplit.symm
    | cons c rest =>
        have hc : c = '.' := by
          have hhead := List.head?_dropWhile_not (· ≠ '.') path.toList
          rw [hdrop] at hhead
          simpa using hhead
        refine .inl ⟨rest, ?_⟩
        rw [hdrop, hc] at hsplit
        simpa using hsplit

/-- Every entry of the table is about one section. -/
theorem classification_sections : ∀ e ∈ classification,
    ∃ s ∈ sectionKeys, '.' ∉ s.toList ∧ e = (s ++ ".", if s = "provider" then .hot else .cold) := by
  decide +kernel

/-- The first key of a path tells its class. -/
theorem classify_dotted {k : String} (hk : IsSegment k) (rest : List String) :
    classify (dotted (k :: rest)) =
      if k = "provider" then some .hot else if k ∈ sectionKeys then some .cold else none := by
  have hfilter : classification.filter (applies (dotted (k :: rest)))
      = classification.filter fun e => e.1 = k ++ "." := by
    refine List.filter_congr fun e he => ?_
    obtain ⟨s, -, hs, rfl⟩ := classification_sections e he
    rw [Bool.eq_iff_iff, applies_iff hs, takeWhile_dotted hk, decide_eq_true_eq,
      String.toList_inj, String.append_left_inj, eq_comm]
  rw [classify, hfilter]
  by_cases hmem : k ∈ sectionKeys
  · rw [if_pos hmem]
    clear hk hfilter
    revert k
    decide +kernel
  · have hnone : (classification.filter fun e => e.1 = k ++ ".") = [] := by
      rw [List.filter_eq_nil_iff]
      rintro e he heq
      obtain ⟨s, hs, -, rfl⟩ := classification_sections e he
      rw [decide_eq_true_eq, String.append_left_inj] at heq
      exact hmem (heq ▸ hs)
    rw [hnone, if_neg hmem, if_neg (by rintro rfl; exact hmem (by decide))]
    rfl

/-! ### The leaves that differ -/

mutual

/-- The paths that are collected are the dotted ways to the leaves. -/
theorem leafPaths_eq : (t : Value) → t.Keyed → {p : List String} → (∀ k ∈ p, IsSegment k) →
    leafPaths (dotted p) t = t.leaves.map fun q => dotted (p ++ q)
  | .leaf _, _, p, _ => by rw [leafPaths, leaves, List.map_singleton, List.append_nil]
  | .node fields, ⟨_, hkeyed⟩, _, hp => fieldPaths_eq fields hkeyed hp

theorem fieldPaths_eq : (fields : KeyFields Scalar) → fields.Keyed → {p : List String} →
    (∀ k ∈ p, IsSegment k) →
    fieldPaths (dotted p) fields = fields.leaves.map fun q => dotted (p ++ q)
  | .nil, _, _, _ => rfl
  | .cons key value rest, ⟨hkey, hvalue, _, hrest⟩, p, hp => by
      have hbelow : ∀ k ∈ p ++ [key], IsSegment k := fun k hk => by
        rcases List.mem_append.mp hk with hk | hk
        · exact hp k hk
        · exact (List.mem_singleton.mp hk) ▸ hkey
      rw [fieldPaths, ← dotted_concat hp key, leafPaths_eq value hvalue hbelow,
        fieldPaths_eq rest hrest hp, KeyFields.leaves, List.map_append, List.map_map]
      simp [Function.comp_def]

end

/-- What the differing leaves are looked for among, in order and once each. -/
theorem mem_sorted {l : List String} {p : String} :
    p ∈ (l.insertionSort (· ≤ ·)).destutter (· ≠ ·) ↔ p ∈ l := by
  rw [(List.pairwise_insertionSort (· ≤ ·) l).destutter_eq_dedup, List.mem_dedup,
    List.mem_insertionSort]

theorem pairwise_sorted (l : List String) :
    ((l.insertionSort (· ≤ ·)).destutter (· ≠ ·)).Pairwise (· < ·) := by
  have hsort := List.pairwise_insertionSort (· ≤ ·) l
  have hnodup := (l.insertionSort (· ≤ ·)).nodup_dedup
  rw [hsort.destutter_eq_dedup]
  exact ((hsort.sublist (List.dedup_sublist _)).and hnodup).imp fun h => lt_of_le_of_ne h.1 h.2

/-- A leaf of either configuration. -/
def IsLeaf (baseline current : Config) (q : List String) : Prop :=
  q ∈ baseline.toValue.leaves ∨ q ∈ current.toValue.leaves

variable {baseline current : Config} {q : List String}

theorem IsLeaf.segments (h : IsLeaf baseline current q) : ∀ k ∈ q, IsSegment k :=
  h.elim (isSegment_of_mem_leaves baseline.keyed) (isSegment_of_mem_leaves current.keyed)

theorem get_toFields_of_not_mem (c : Config) {k : String} (hk : k ∉ sectionKeys) :
    c.toFields.get k = none := by
  simp only [sectionKeys, List.mem_cons, List.not_mem_nil, or_false, not_or, ← ne_eq] at hk
  obtain ⟨hcache, hdiagnostics, hiceoryx2, hlog, hprovider, hserver, hsession, hsessions, htapLog,
    hwebUi, hws⟩ := hk
  rw [get_toFields, if_neg hcache.symm, if_neg hdiagnostics.symm, if_neg hiceoryx2.symm,
    if_neg hlog.symm, if_neg hprovider.symm, if_neg hserver.symm, if_neg hsession.symm,
    if_neg hsessions.symm, if_neg htapLog.symm, if_neg hwebUi.symm, if_neg hws.symm]
  rfl

/-- A leaf is in a section. -/
theorem IsLeaf.mem_sectionKeys (h : IsLeaf baseline current q) :
    ∃ k ∈ sectionKeys, ∃ rest, q = k :: rest := by
  have hin : ∀ {c : Config}, q ∈ c.toValue.leaves → ∃ k ∈ sectionKeys, ∃ rest, q = k :: rest := by
    intro c hq
    obtain ⟨k, t, rest, rfl, hk, -⟩ := (KeyFields.mem_leaves c.keyed_toFields).mp hq
    refine ⟨k, ?_, rest, rfl⟩
    by_contra hmem
    rw [get_toFields_of_not_mem c hmem] at hk
    cases hk
  exact h.elim hin hin

theorem lookup_dotted (h : IsLeaf baseline current q) (c : Config) :
    lookup c.toValue (dotted q) = c.toValue.at q := by
  obtain ⟨k, -, rest, rfl⟩ := h.mem_sectionKeys
  rw [lookup, segments_dotted (List.cons_ne_nil k rest) h.segments]

/-- A leaf that differs, and is not a provider's. -/
structure Diverges (baseline current : Config) (q : List String) : Prop where
  isLeaf : IsLeaf baseline current q
  differs : baseline.toValue.at q ≠ current.toValue.at q
  cold : q.head? ≠ some "provider"

theorem mem_coldDivergence {p : String} :
    p ∈ coldDivergence baseline current ↔ ∃ q, p = dotted q ∧ Diverges baseline current q := by
  have hpaths : ∀ {c : Config}, leafPaths "" c.toValue = c.toValue.leaves.map dotted :=
    fun {c} => leafPaths_eq c.toValue c.keyed (p := []) fun _ hk => absurd hk List.not_mem_nil
  have hclass : ∀ {q}, IsLeaf baseline current q →
      (classify (dotted q) = some .cold ↔ q.head? ≠ some "provider") := by
    intro q hq
    have hsegments := hq.segments
    obtain ⟨k, hk, rest, rfl⟩ := hq.mem_sectionKeys
    rw [classify_dotted (hsegments k List.mem_cons_self), if_pos hk]
    by_cases hprovider : k = "provider" <;> simp [hprovider]
  rw [coldDivergence, List.mem_filter, mem_sorted, hpaths, hpaths, ← List.map_append, List.mem_map]
  constructor
  · rintro ⟨⟨q, hq, rfl⟩, hdiffers⟩
    have hleaf : IsLeaf baseline current q := List.mem_append.mp hq
    rw [lookup_dotted hleaf, lookup_dotted hleaf, decide_eq_true_eq] at hdiffers
    exact ⟨q, rfl, hleaf, hdiffers.1, (hclass hleaf).mp hdiffers.2⟩
  · rintro ⟨q, rfl, hleaf, hdiffers, hcold⟩
    refine ⟨⟨q, List.mem_append.mpr hleaf, rfl⟩, ?_⟩
    rw [lookup_dotted hleaf, lookup_dotted hleaf, decide_eq_true_eq]
    exact ⟨hdiffers, (hclass hleaf).mpr hcold⟩

/-- No restart is asked for exactly where the configurations are the same but for the
providers. -/
theorem coldDivergence_eq_nil : coldDivergence baseline current = [] ↔ baseline.Alike current := by
  rw [Config.alike_iff, List.eq_nil_iff_forall_not_mem]
  constructor
  · intro h k hk
    refine KeyFields.get_eq_of_leaves baseline.keyed_toFields current.keyed_toFields
      fun rest hleaf => ?_
    by_contra hdiffers
    exact h _ (mem_coldDivergence.mpr ⟨k :: rest, rfl, hleaf, hdiffers, by simpa using hk⟩)
  · rintro h p hp
    obtain ⟨q, -, hleaf, hdiffers, hcold⟩ := mem_coldDivergence.mp hp
    obtain ⟨k, -, rest, rfl⟩ := hleaf.mem_sectionKeys
    refine hdiffers ?_
    rw [Config.toValue, Config.toValue, KeyTree.at, KeyTree.at, KeyTree.get, KeyTree.get,
      h k (by simpa using hcold)]

/-- What is listed of two configurations. -/
structure DivergenceLaw (baseline current : Config) (paths : List String) : Prop where
  sorted : paths.Pairwise (· < ·)
  mem_iff : ∀ p, p ∈ paths ↔ ∃ q, p = dotted q ∧ Diverges baseline current q
  nil_iff : paths = [] ↔ baseline.Alike current

theorem coldDivergence_law (baseline current : Config) :
    DivergenceLaw baseline current (coldDivergence baseline current) where
  sorted := (pairwise_sorted _).sublist List.filter_sublist
  mem_iff _ := mem_coldDivergence
  nil_iff := coldDivergence_eq_nil

/-! ### When a restart is asked for -/

/-- What the operations of the hub carry along; `ws` is a `[ws]` section but for its token, where
there is one. -/
structure Others where
  cache : Option StorageConfig
  tapLog : Option StorageConfig
  session : SessionConfig
  server : ServerConfig
  diagnostics : DiagnosticsConfig
  iceoryx2 : Iceoryx2Config
  webUi : Option WebUiConfig
  ws : WsConfig
  startupSession : List StartupSession
  log : LogConfig
  deriving DecidableEq

/-- What a `PUT` asks for, with the token of the boot where the placeholder is. -/
def asked (boot config : ConfigHub.Config Others) : ConfigHub.Config Others :=
  if config.ws = some (some ConfigHub.redactedSecret) then
    { config with ws := some (boot.ws.bind id) }
  else config

section

open ConfigHub ActionSystem

variable {boot c : ConfigHub.Config Others}

variable {F : Format Others} {text : List Char} {w w₁ : World Others}
  {acts acts₁ acts₂ : List (Action Others)}

theorem sound_run (hF : F.RoundTrips) (htext : F.parse text = some boot)
    (hrun : run (World.step F) (.init text boot) acts = some w)
    (hkept : Meets (World.step F) World.Kept (.init text boot) acts) : w.Sound F boot := by
  refine invariant_of_meets (P := fun w => World.Sound F boot w) (fun hinv hok hstep => ?_)
    (World.sound_init htext) hkept hrun
  obtain ⟨w', hact, rfl⟩ := Option.map_eq_some_iff.mp hstep
  exact (hinv.act hF hok hact).mark _

end

end ConfigClass

end Datamancer
