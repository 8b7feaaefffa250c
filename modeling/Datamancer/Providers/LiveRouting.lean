import Mathlib.Data.Set.Basic
import Datamancer.Providers.AlpacaStream
import Datamancer.Providers.HubTrace

/-!
# Datamancer.Providers.LiveRouting

From a streamed message to the sink of a subscription, and from the removal of one
subscription to the others. Three things have to fit: what the provider says it supports
goes by asset class, the routes are keyed by instrument, and the stream knows symbols
only. A message is decoded to the instrument `providerInstrument` makes of its symbol, so a
route is reached exactly if it is of that instrument; and an unsubscription ends the stream
of every route of the symbol and kind.
-/

namespace Datamancer

open ActionSystem

namespace Alpaca

/-! ### Routed pairs -/

/-- Every message about the pair is one event, dispatched to the sink. -/
def Served (h : Hub) (p : Pair) (s : SessionId) : Prop :=
  ∀ msg : StockStreamMessage, msg.topic = some (p.1.symbol, p.2) → ∀ rx order,
    ∃ ev, translateStockMessage msg rx = [ev] ∧ (s, .event ev) ∈ h.dispatchEvent order ev

/-- The service has accepted the unsubscription of a pair and the hub takes its answer. -/
def Unsubscribes {S : Service} (cap : Nat) (st : Streaming S) (q : Pair) (st' : Streaming S) :
    Prop :=
  ∃ s, st.hub.task = .asking (.unsubscribe s q) ∧ st.step S cap (.answer (.ok ())) = some st'

/-- Every other pair with a route stays subscribed upstream. -/
def KeepsOthers {S : Service} (st : Streaming S) (q : Pair) (st' : Streaming S) : Prop :=
  ∀ p, p ≠ q → st.Live p → st'.Live p

/-- Live routing completeness, of one state. -/
structure Complete {S : Service} (cap : Nat) (st : Streaming S) : Prop where
  served : ∀ p s, st.hub.routes.lookup p = some s → Served st.hub p s
  keeps : ∀ q st', Unsubscribes cap st q st' → KeepsOthers st q st'

/-! ### One message -/

/-- The hub does not look at what is behind the socket. -/
theorem Streaming.run_hub {S : Service} {cap : Nat} {acts : List HubAction} {st st' : Streaming S}
    (hrun : run (Streaming.step S cap) st acts = some st') :
    run (Hub.step .stock cap) st.hub acts = some st'.hub := by
  induction acts generalizing st with
  | nil =>
      cases hrun
      rfl
  | cons act acts ih =>
      obtain ⟨next, hstep, hrest⟩ := Option.bind_eq_some_iff.mp hrun
      obtain ⟨hub, hhub, rfl⟩ := Option.map_eq_some_iff.mp hstep
      show (st.hub.step .stock cap act).bind _ = _
      rw [hhub]
      exact ih hrest

/-- Dispatch is by the instrument the provider makes of the symbol. -/
theorem served_iff {past : List HubAction} {h : Hub} (ht : Traced .stock past h) {p : Pair}
    {s : SessionId} (hp : h.routes.lookup p = some s) :
    Served h p s ↔ p.1 = providerInstrument p.1.symbol := by
  have hsub := ht.routed p s hp
  constructor
  · intro hserved
    obtain ⟨msg, htopic⟩ := exists_topic (streamed_of_supports (ht.supported s p hsub))
    obtain ⟨ev, htr, hmem⟩ := hserved msg htopic 0 []
    obtain ⟨ev', htr', hkey⟩ := translateStockMessage_of_topic htopic 0
    cases htr.symm.trans htr'
    simp only [Hub.dispatchEvent, hkey, List.mem_map, Option.mem_toList, Prod.mk.injEq] at hmem
    obtain ⟨t, hlookup, rfl, -⟩ := hmem
    -- the session has one subscription, so the route that got the event is of the pair
    have hsame := ht.once t p _ hsub (ht.routed _ t hlookup)
    exact congrArg Prod.fst hsame
  · intro hcanon msg htopic rx order
    obtain ⟨ev, htr, hkey⟩ := translateStockMessage_of_topic htopic rx
    have hkey' : ev.routeKey = some p := by rw [hkey, ← hcanon]
    refine ⟨ev, htr, ?_⟩
    simp [Hub.dispatchEvent, hkey', hp]

/-! ### One unsubscription -/

/-- The removal list of a pair names whatever is of its symbol and kind. -/
theorem subscribes_removal {p q : Pair} (hp : Streamed p.2) :
    Subscribes (applyPairToList .new q true) p ↔ SameTopic p q := by
  have hnew : ¬ Subscribes .new p := by
    obtain ⟨i, kind⟩ := p
    rcases kind with _ | _ | (_ | _ | _ | _ | _ | _) <;> simp [Subscribes, fieldOf,
      StockSubscriptionList.new]
  by_cases hkind : p.2 = q.2
  · rw [subscribes_add (hkind ▸ hp)]
    simp [hnew]
  · rw [Subscribes, fieldOf_applyPairToList_of_ne hkind]
    exact iff_of_false hnew fun hsame => hkind hsame.2

/-- What the accepted unsubscription does: the route goes, and the service removes what the
removal list names. -/
theorem Unsubscribes.spec {S : Service} {cap : Nat} {st st' : Streaming S} {q : Pair}
    (h : Unsubscribes cap st q st') : st'.hub.routes = st.hub.routes.erase q
      ∧ st'.socket = S.removeSubscriptions st.socket (applyPairToList .new q true) := by
  obtain ⟨s, htask, hstep⟩ := h
  obtain ⟨hub, hhub, rfl⟩ := Option.map_eq_some_iff.mp hstep
  simp only [Hub.step, Hub.answer, htask, Option.some.injEq] at hhub
  subst hhub
  exact ⟨rfl, by simp [Streaming.socketAfter, htask]⟩

/-- A pair stays unless the unsubscribed one is of the same symbol and kind. -/
theorem Unsubscribes.live_iff {S : Service} (hS : S.Documented) {cap : Nat}
    {st st' : Streaming S} {p q : Pair} (h : Unsubscribes cap st q st')
    (hp : Streamed p.2) (hpq : p ≠ q) :
    st'.Live p ↔ st.Live p ∧ ¬ SameTopic p q := by
  obtain ⟨hroutes, hsocket⟩ := h.spec
  have hroute : p ∈ st'.hub.routes ↔ p ∈ st.hub.routes := by
    rw [hroutes, AList.mem_erase]
    exact and_iff_right hpq
  have hstream := hS.remove st.socket (applyPairToList .new q true) p.1.symbol p.2
  rw [Streaming.Live, Streaming.Live, hroute, hsocket, hstream, and_assoc]
  exact and_congr_right' (and_congr_right' (not_congr (subscribes_removal hp)))

theorem keepsOthers_iff {S : Service} (hS : S.Documented) {cap : Nat} {past : List HubAction}
    {st st' : Streaming S} (ht : Traced .stock past st.hub) {q : Pair}
    (h : Unsubscribes cap st q st') :
    KeepsOthers st q st' ↔ ∀ p, st.Live p → p ≠ q → ¬ SameTopic p q := by
  have hstreamed : ∀ p, st.Live p → Streamed p.2 := by
    intro p hp
    obtain ⟨s, hs⟩ := AList.lookup_isSome.mpr hp.1 |> Option.isSome_iff_exists.mp
    exact streamed_of_supports (ht.supported s p (ht.routed p s hs))
  constructor
  · intro hkeeps p hp hpq
    exact ((h.live_iff hS (hstreamed p hp) hpq).mp (hkeeps p hpq hp)).2
  · intro htopic p hpq hp
    exact (h.live_iff hS (hstreamed p hp) hpq).mpr ⟨hp, htopic p hp hpq⟩

/-! ### Every run -/

/-- Live routing in every state of every run: a subscription is served exactly if its
instrument is the one the provider makes of its symbol; an unsubscription keeps exactly
those that are not of its symbol and kind; and both are always so in a run that subscribes
only such instruments. -/
theorem live_routing {S : Service} (hS : S.Documented) {cap : Nat} {acts : List HubAction}
    {st : Streaming S} (hrun : run (Streaming.step S cap) (.init S) acts = some st) :
    (∀ p s, st.hub.routes.lookup p = some s →
      (Served st.hub p s ↔ p.1 = providerInstrument p.1.symbol))
    ∧ (∀ q st', Unsubscribes cap st q st' →
      (KeepsOthers st q st' ↔ ∀ p, st.Live p → p ≠ q → ¬ SameTopic p q))
    ∧ ((∀ s p, HubAction.subscribe s p ∈ acts → p.1 = providerInstrument p.1.symbol) →
      Complete cap st) := by
  have ht := Traced.run (Streaming.run_hub hrun)
  refine ⟨fun p s hp => served_iff ht hp, fun q st' hq => keepsOthers_iff hS ht hq,
    fun hcanon => ⟨fun p s hp => ?_, fun q st' hq => ?_⟩⟩
  · exact (served_iff ht hp).mpr (hcanon s p (ht.routed p s hp))
  · refine (keepsOthers_iff hS ht hq).mpr fun p hp hpq htopic => hpq ?_
    obtain ⟨s, hs⟩ := Option.isSome_iff_exists.mp (AList.lookup_isSome.mpr hp.1)
    obtain ⟨t, htask, -⟩ := hq
    have hpcanon := hcanon s p (ht.routed p s hs)
    have hqcanon := hcanon t q (ht.asked _ htask)
    -- of one symbol the provider makes one instrument
    exact Prod.ext (by rw [hpcanon, hqcanon, htopic.1]) htopic.2

section Spy

/-- A service that keeps the set of what it streams. -/
def setService : Service where
  Socket := Set (String × EventKind)
  fresh := ∅
  addSubscriptions socket list := socket ∪ {t | list.Lists t.1 t.2}
  removeSubscriptions socket list := socket \ {t | list.Lists t.1 t.2}
  streams socket symbol kind := (symbol, kind) ∈ socket

theorem setService_documented : setService.Documented where
  fresh := fun _ _ => Set.notMem_empty _
  add := fun _ _ _ _ => Iff.rfl
  remove := fun _ _ _ _ => Iff.rfl

def spyEquity : Pair := (⟨"alpaca", .equity, "SPY"⟩, .trade)
def spyEtf : Pair := (⟨"alpaca", .etf, "SPY"⟩, .trade)

/-- The hub connects and serves one subscription. -/
def subscribeRun (s : SessionId) (p : Pair) : List HubAction :=
  [.subscribe s p, .take, .answer (.ok ()), .send, .send, .proceed]

theorem live_routing_spy : ∃ st,
    run (Streaming.step setService 4) (.init _)
      ([.connected [] (.ok ()), .proceed] ++ subscribeRun 0 spyEquity) = some st
    ∧ st.hub.routes.lookup spyEquity = some 0 ∧ Complete 4 st := by
  obtain ⟨st, hrun, hroute⟩ : ∃ st,
      run (Streaming.step setService 4) (.init _)
        ([.connected [] (.ok ()), .proceed] ++ subscribeRun 0 spyEquity) = some st
      ∧ st.hub.routes.lookup spyEquity = some 0 := ⟨_, rfl, rfl⟩
  refine ⟨st, hrun, hroute, (live_routing setService_documented hrun).2.2 fun s p hp => ?_⟩
  simp only [subscribeRun, List.mem_append, List.mem_cons, HubAction.subscribe.injEq,
    List.not_mem_nil, reduceCtorEq, or_false, false_or] at hp
  obtain ⟨-, rfl⟩ := hp
  rfl

/-- A subscribed fund gets none of its messages, and its unsubscription ends the stream of
the equity of the same symbol. -/
theorem fund_not_complete :
    (∃ st s, run (Streaming.step setService 4) (.init _)
        ([.connected [] (.ok ()), .proceed] ++ subscribeRun 0 spyEtf) = some st
      ∧ st.hub.routes.lookup spyEtf = some s ∧ ¬ Served st.hub spyEtf s)
    ∧ ∃ st st', run (Streaming.step setService 4) (.init _)
        ([.connected [] (.ok ()), .proceed] ++ subscribeRun 0 spyEquity ++
          subscribeRun 1 spyEtf ++ [.unsubscribe 1, .take]) = some st
      ∧ Unsubscribes 4 st spyEtf st' ∧ ¬ KeepsOthers st spyEtf st' := by
  constructor
  · refine ⟨_, 0, rfl, rfl, fun hserved => ?_⟩
    obtain ⟨ev, htr, hmem⟩ := hserved (.trade ⟨"SPY", ⟨0⟩, 0, 0⟩) rfl 0 []
    cases htr
    exact absurd hmem List.not_mem_nil
  · refine ⟨_, _, rfl, ⟨1, rfl, rfl⟩, fun hkeeps => ?_⟩
    have hlive := hkeeps spyEquity (by decide)
      ⟨AList.lookup_isSome.mp (by decide), .inr (List.mem_singleton.mpr rfl)⟩
    exact hlive.2.2 (List.mem_singleton.mpr rfl)

end Spy

end Alpaca

end Datamancer
