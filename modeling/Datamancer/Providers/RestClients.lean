import Datamancer.Lib.RebuildOnUse
import Datamancer.Daemon.ConfigHub
import Datamancer.Daemon.CredentialHub
import Datamancer.Providers.HubLoop

/-!
# Datamancer.Providers.RestClients

The REST clients of the two Alpaca providers. Each provider keeps its clients behind a mutex with
one receiver for its credentials and one for its settings, and a call that needs a client first
has them rebuilt if either receiver has news (`rest_clients`, `refresh_rest`). The stock provider
reads its settings and its credentials once for both clients, the crypto provider once for each.

What the clients themselves are is a parameter: `oxidized_alpaca` makes one from the environment or
from a key pair, or fails to.
-/

namespace Datamancer

namespace Alpaca

namespace Rest

open ActionSystem RebuildOnUse ConfigHub CredentialHub

/-! ### Building a client -/

/-- How one kind of client is made: `new`, from the environment, and `new_with_credentials`. -/
structure Constructors (Client : Type) where
  new : AccountType → Option Client
  newWithCredentials : AccountType → (keyId secret : String) → Option Client

structure RestClients (MD TR : Type) where
  marketData : Option MD
  trading : Option TR
  deriving DecidableEq

variable {MD TR T : Type} (marketData : Constructors MD) (trading : Constructors TR)

/-- `build_rest`, of the stock provider. -/
def buildRest (settings : Option AlpacaSettings) (credentials : Resolved AlpacaCredentials) :
    RestClients MD TR :=
  match settings with
  | none => ⟨none, none⟩
  | some settings =>
      match credentials with
      | .env => ⟨marketData.new settings.accountType, trading.new settings.accountType⟩
      | .creds c =>
          ⟨marketData.newWithCredentials settings.accountType c.keyId c.secret,
            trading.newWithCredentials settings.accountType c.keyId c.secret⟩
      | .missing => ⟨none, none⟩

/-- `build_trading` and `build_market_data`, of the crypto provider. -/
def buildClient {Client : Type} (client : Constructors Client)
    (settings : Option AlpacaCryptoSettings) (credentials : Resolved AlpacaCredentials) :
    Option Client :=
  settings.bind fun settings =>
    match credentials with
    | .env => client.new settings.accountType
    | .creds c => client.newWithCredentials settings.accountType c.keyId c.secret
    | .missing => none

/-! ### What the clients are built from -/

inductive Part
  | credentials
  | settings
  deriving DecidableEq

instance : Fintype Part := ⟨{.credentials, .settings}, fun p => by cases p <;> simp⟩

/-- What the channel of a part holds; a source of the part that does not change has none. -/
abbrev Held (T : Type) : Part → Type
  | .credentials => Option AlpacaCredentials
  | .settings => Option T

structure ProviderConfig (T : Type) where
  settings : SettingsSource T
  credentials : CredentialsSource AlpacaCredentials

namespace ProviderConfig

variable (cfg : ProviderConfig T)

def watched : Part → Bool
  | .credentials => cfg.credentials.channel.isSome
  | .settings => cfg.settings.channel.isSome

def init : ∀ p, Held T p
  | .credentials => cfg.credentials.channel.bind WatchChannel.value
  | .settings => cfg.settings.channel.bind WatchChannel.value

/-- `current` of the settings, where their channel holds this. -/
def settingsOf (held : Option T) : Option T :=
  match cfg.settings with
  | .static settings => some settings
  | .watch _ => held

/-- `current` of the credentials, where their channel holds this. -/
def credentialsOf (held : Option AlpacaCredentials) : Resolved AlpacaCredentials :=
  match cfg.credentials with
  | .env => .env
  | .static c => .creds c
  | .watch _ => held.elim .missing .creds

/-- Before anything is sent, `current` is what the provider was configured with. -/
theorem settingsOf_init : cfg.settingsOf (cfg.init .settings) = cfg.settings.current := by
  obtain ⟨settings, credentials⟩ := cfg
  cases settings <;> rfl

theorem credentialsOf_init :
    cfg.credentialsOf (cfg.init .credentials) = cfg.credentials.current := by
  obtain ⟨settings, credentials⟩ := cfg
  cases credentials <;> rfl

end ProviderConfig

/-- The receivers in the order they are asked, and captured. -/
def checks : List Part := [.credentials, .settings]

theorem mem_checks (p : Part) : p ∈ checks := by cases p <;> simp [checks]

theorem sum_parts (f : Part → Nat) : ∑ p, f p = f .credentials + f .settings :=
  Finset.sum_pair (by decide)

/-- What was sent to the sources of a provider, and how many of them were closed. -/
def sends {κ : Type} {src : κ → Part} (s : State (Held T) src) : Nat :=
  s.version .credentials + s.version .settings

def closings {κ : Type} {src : κ → Part} (s : State (Held T) src) : Nat :=
  (s.closed .credentials).toNat + (s.closed .settings).toNat

/-! ### The stock provider -/

namespace Stock

/-- The settings are read before the credentials. -/
def reads : List Part := [.settings, .credentials]

variable (cfg : ProviderConfig AlpacaSettings)

abbrev World := State (Held AlpacaSettings) (id : Part → Part)

def init : World := start checks cfg.init

def step : World → Action (Held AlpacaSettings) → Option World :=
  RebuildOnUse.step cfg.watched checks reads

/-- The clients built from what was read. -/
def clients (r : Readings (Held AlpacaSettings) (id : Part → Part)) : RestClients MD TR :=
  buildRest marketData trading (cfg.settingsOf (r.value .settings))
    (cfg.credentialsOf (r.value .credentials))

/-- Every call of `rest_clients` is handed clients built from settings and from credentials that
were there when the call began or came later, whatever is sent while it checks and reads: once the
provider is disabled and stays so, none. And the clients are rebuilt no more often than something
was sent or a sender was dropped. -/
theorem rest_clients {as : List (Action (Held AlpacaSettings))} {t : World}
    (h : run (step cfg) (init cfg) as = some t) :
    (∀ since r, (since, r) ∈ t.handed → ∃ settings credentials,
      (t.source .settings).HeldSince (since .settings) settings ∧
      (t.source .credentials).HeldSince (since .credentials) credentials ∧
      clients marketData trading cfg r =
        buildRest marketData trading (cfg.settingsOf settings) (cfg.credentialsOf credentials)) ∧
    (∀ since r, (since, r) ∈ t.handed →
      (∀ settings, (t.source .settings).HeldSince (since .settings) settings →
        cfg.settingsOf settings = none) →
      (clients marketData trading cfg r : RestClients MD TR) = ⟨none, none⟩) ∧
    t.rebuilds ≤ sends t + closings t := by
  have hreads : ∀ p, p ∈ reads := fun p => by cases p <;> simp [reads]
  refine ⟨fun since r hr => ?_, fun since r hr hoff => ?_, ?_⟩
  · have hfresh := fresh mem_checks hreads h hr
    exact ⟨r.value .settings, r.value .credentials, hfresh .settings, hfresh .credentials, rfl⟩
  · have hfresh := fresh mem_checks hreads h hr
    rw [clients, hoff _ (hfresh .settings)]
    rfl
  · have hle := rebuilds_le mem_checks hreads h
    rw [sum_parts] at hle
    unfold sends closings
    omega

/-! ### A provider disabled while its first clients are built -/

private def keyPair : AlpacaCredentials := ⟨"AKID", "s3cret"⟩

private def hot : ProviderConfig AlpacaSettings :=
  ⟨.watch (.new (some ⟨.paper, none⟩)), .watch (.new (some keyPair))⟩

/-- A client that shows what it was made from. -/
private def shown : Constructors (AccountType × String) :=
  ⟨fun a => some (a, "env"), fun a keyId _ => some (a, keyId)⟩

private def disabling : List (Action (Held AlpacaSettings)) :=
  [.next, .next, .next, .next, .send .settings none, .next, .next,
    .use, .next, .next, .next, .next, .next, .next]

theorem rest_clients_disabling : ∃ t, run (step hot) (init hot) disabling = some t ∧
    t.handed.map (fun use => clients shown shown hot use.2) =
      [⟨some (.paper, "AKID"), some (.paper, "AKID")⟩, ⟨none, none⟩] ∧
    t.rebuilds ≤ sends t + closings t := by
  obtain ⟨t, hrun, hclients⟩ : ∃ t, run (step hot) (init hot) disabling = some t ∧
      t.handed.map (fun use => clients shown shown hot use.2) =
        [⟨some (.paper, "AKID"), some (.paper, "AKID")⟩, ⟨none, none⟩] := ⟨_, rfl, rfl⟩
  exact ⟨t, hrun, hclients, (rest_clients shown shown hot hrun).2.2⟩

end Stock

/-! ### The crypto provider -/

namespace Crypto

inductive Client
  | trading
  | marketData
  deriving DecidableEq

/-- Each client is built from readings of its own. -/
abbrev part : Client × Part → Part := Prod.snd

def reads : List (Client × Part) :=
  [(.trading, .settings), (.trading, .credentials),
    (.marketData, .settings), (.marketData, .credentials)]

variable (cfg : ProviderConfig AlpacaCryptoSettings)

abbrev World := State (Held AlpacaCryptoSettings) part

def init : World := start checks cfg.init

def step : World → Action (Held AlpacaCryptoSettings) → Option World :=
  RebuildOnUse.step cfg.watched checks reads

/-- `trading_client` and `current_market_data`, built from what was read. -/
def tradingClient (r : Readings (Held AlpacaCryptoSettings) part) : Option TR :=
  buildClient trading (cfg.settingsOf (r.value (.trading, .settings)))
    (cfg.credentialsOf (r.value (.trading, .credentials)))

def currentMarketData (r : Readings (Held AlpacaCryptoSettings) part) : Option MD :=
  buildClient marketData (cfg.settingsOf (r.value (.marketData, .settings)))
    (cfg.credentialsOf (r.value (.marketData, .credentials)))

/-- What a client of this kind may have been built from, for a use that began then. -/
def BuiltSince {Client : Type} (client : Constructors Client) (t : World) (since : Part → Nat)
    (built : Option Client) : Prop :=
  ∃ settings credentials,
    (t.source .settings).HeldSince (since .settings) settings ∧
    (t.source .credentials).HeldSince (since .credentials) credentials ∧
    built = buildClient client (cfg.settingsOf settings) (cfg.credentialsOf credentials)

theorem refresh_rest {as : List (Action (Held AlpacaCryptoSettings))} {t : World}
    (h : run (step cfg) (init cfg) as = some t) :
    (∀ since r, (since, r) ∈ t.handed →
      BuiltSince cfg trading t since (tradingClient trading cfg r) ∧
      BuiltSince cfg marketData t since (currentMarketData marketData cfg r)) ∧
      t.rebuilds ≤ sends t + closings t := by
  have hreads : ∀ k, k ∈ reads := fun ⟨c, p⟩ => by cases c <;> cases p <;> simp [reads]
  constructor
  · intro since r hr
    have hfresh := fresh mem_checks hreads h hr
    exact ⟨⟨_, _, hfresh (.trading, .settings), hfresh (.trading, .credentials), rfl⟩,
      _, _, hfresh (.marketData, .settings), hfresh (.marketData, .credentials), rfl⟩
  · have hle := rebuilds_le mem_checks hreads h
    rw [sum_parts] at hle
    unfold sends closings
    omega

/-! ### A rotation between the two clients -/

private def hot : ProviderConfig AlpacaCryptoSettings :=
  ⟨.watch (.new (some ⟨.paper, .us⟩)), .watch (.new none)⟩

private def shown : Constructors (AccountType × String) :=
  ⟨fun a => some (a, "env"), fun a keyId _ => some (a, keyId)⟩

private def rotating : List (Action (Held AlpacaCryptoSettings)) :=
  [.next, .next, .next, .next, .next, .send .credentials (some ⟨"AKID", "s3cret"⟩),
    .next, .next, .next,
    .use, .next, .next, .next, .next, .next, .next, .next, .next]

/-- The first use finds no trading client and a market-data client already; the next one finds
both. -/
theorem refresh_rest_rotating : ∃ t, run (step hot) (init hot) rotating = some t ∧
    t.handed.map (fun use => (tradingClient shown hot use.2, currentMarketData shown hot use.2)) =
      [(none, some (.paper, "AKID")), (some (.paper, "AKID"), some (.paper, "AKID"))] ∧
    t.rebuilds ≤ sends t + closings t := by
  obtain ⟨t, hrun, hclients⟩ : ∃ t, run (step hot) (init hot) rotating = some t ∧
      t.handed.map
          (fun use => (tradingClient shown hot use.2, currentMarketData shown hot use.2)) =
        [(none, some (.paper, "AKID")), (some (.paper, "AKID"), some (.paper, "AKID"))] :=
    ⟨_, rfl, rfl⟩
  exact ⟨t, hrun, hclients, (refresh_rest shown shown hot hrun).2⟩

end Crypto

end Rest

end Alpaca

end Datamancer
