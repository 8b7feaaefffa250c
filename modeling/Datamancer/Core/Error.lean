import Datamancer.Core.Event

/-!
# Datamancer.Core.Error

The error type every fallible operation returns, with the messages its variants
render to.
-/

namespace Datamancer

/-! ### Renderings an error message embeds -/

/-- `Display for AssetClass`. -/
def AssetClass.display : AssetClass → String
  | .equity => "equity"
  | .etf => "etf"
  | .crypto => "crypto"

/-- `Display for Instrument`: symbol first, the qualifying tuple in parentheses. -/
def Instrument.display (i : Instrument) : String :=
  i.symbol ++ " (" ++ i.provider ++ "/" ++ i.assetClass.display ++ ")"

def BarInterval.debug : BarInterval → String
  | .oneSecond => "OneSecond"
  | .oneMinute => "OneMinute"
  | .fiveMinute => "FiveMinute"
  | .fifteenMinute => "FifteenMinute"
  | .oneHour => "OneHour"
  | .oneDay => "OneDay"

def EventKind.debug : EventKind → String
  | .trade => "Trade"
  | .quote => "Quote"
  | .bar i => "Bar(" ++ i.debug ++ ")"

def Surface.debug : Surface → String
  | .live => "Live"
  | .history => "History"

/-! ### Errors -/

inductive Error
  | unknownProvider (provider : String)
  | unsupportedEventKind (kind : EventKind) (instrument : Instrument) (surface : Surface)
  | liveSessionConflict (instrument : Instrument) (kind : EventKind)
  | persistenceRequired
  | sessionClosed
  | duplicateSubscription (instrument : Instrument) (kind : EventKind)
  | notSubscribed (instrument : Instrument) (kind : EventKind)
  | unsupportedClientScope
  | eventsAlreadyTaken
  | provider (provider message : String)
  | unauthenticated (provider message : String)
  | storage (message : String)
  | config (message : String)
  | io (message : String)
  deriving DecidableEq, Repr

/-- `Display for Error`. -/
def Error.display : Error → String
  | .unknownProvider p => "unknown provider: " ++ p
  | .unsupportedEventKind k i s =>
      "no registered provider supports event kind " ++ k.debug ++ " for " ++ i.display
        ++ " on the " ++ s.debug ++ " surface"
  | .liveSessionConflict i k =>
      "a live session for " ++ k.debug ++ " on " ++ i.display ++ " is already active"
  | .persistenceRequired => "this configuration requires persistence but none is configured"
  | .sessionClosed => "session closed"
  | .duplicateSubscription i k =>
      "client already subscribed to " ++ k.debug ++ " on " ++ i.display
  | .notSubscribed i k => "client is not subscribed to " ++ k.debug ++ " on " ++ i.display
  | .unsupportedClientScope =>
      "client subscriptions are pure-live; historical and backfill scopes are unsupported"
  | .eventsAlreadyTaken => "event stream is currently held by another consumer"
  | .provider p m => "provider " ++ p ++ ": " ++ m
  | .unauthenticated p m => "provider " ++ p ++ ": unauthenticated: " ++ m
  | .storage m => "storage: " ++ m
  | .config m => "config: " ++ m
  | .io m => m

/-- Provider-local message for an in-band `ProviderError` control: the control
carries the provider id itself, so the prefix is stripped. -/
def Error.providerErrorMessage : Error → String
  | .provider _ message => message
  | .unauthenticated _ message => "unauthenticated: " ++ message
  | e => e.display

end Datamancer
