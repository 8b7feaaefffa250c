import Datamancer.Live.Singleton
import Datamancer.Providers.HubSets

/-!
# Datamancer.Providers.Turnover

The registry of live sessions and the hub that serves them, together: a call that has claimed a
slot subscribes at the hub, a controller that leaves its loop unsubscribes there and closes its
handle. The slot is free again as soon as nobody holds the session, while its controller may not
have sent its `Unsubscribe` yet, so a successor may be subscribed before its predecessor is
unsubscribed. The hub knows pairs, not sessions: such an `Unsubscribe` takes the route of the
successor (`unsubscribed_successor`).
-/

namespace Datamancer

open ActionSystem

namespace Alpaca

structure Turnover where
  registry : Registry
  hub : Hub
  /-- The session opened last for a pair. -/
  newest : Pair → Option SessionId

inductive TurnoverAction
  | registry (act : RegistryAction)
  /-- `create_authoritative` subscribes the handle it has started. -/
  | subscribe (k : CallId)
  | hub (act : HubAction)

namespace Turnover

def init : Turnover := ⟨.init, .init, fun _ => none⟩

/-- A controller is in one of some phases. -/
def inPhase (w : Turnover) (s : SessionId) (phases : List Phase) : Bool :=
  match w.registry.session s with
  | some a => a.phase ∈ phases
  | none => false

/-- What the registry's actions wait for at the hub: a call for the answer to its `Subscribe`, a
controller that leaves for its handle to be closed. -/
def registryReady (w : Turnover) : RegistryAction → Bool
  | .started k _ =>
      match w.registry.call k with
      | .starting p s => w.hub.handle s = .subscribed p
      | _ => false
  | .startFailed k _ =>
      match w.registry.call k with
      | .starting _ s =>
          -- `start_live` fails before there is a handle
          match w.hub.handle s with
          | .fresh | .failed _ => true
          | _ => false
      | _ => false
  | .exit s => w.hub.handle s = .closed
  | _ => true

/-- What a handle does is done by its controller, in the order of `run_live`. -/
def hubReady (w : Turnover) : HubAction → Bool
  | .subscribe _ _ => false
  | .unsubscribe s | .close s => w.inPhase s [.leaving]
  | .recv s => w.inPhase s [.backfilling, .looping]
  | .hangUp s => w.inPhase s [.exited]
  | _ => true

/-- A call that claims the slot opens a session. -/
def newestAfter (w : Turnover) : RegistryAction → Pair → Option SessionId
  | .claim k s =>
      match w.registry.call k with
      | .claiming p =>
          match w.registry.upgrade p with
          | none => Function.update w.newest p (some s)
          | some _ => w.newest
      | _ => w.newest
  | _ => w.newest

def step (m : Market) (cap : Nat) (w : Turnover) : TurnoverAction → Option Turnover
  | .registry act =>
      if w.registryReady act then
        (w.registry.step act).map fun registry =>
          { w with registry, newest := w.newestAfter act }
      else none
  | .subscribe k =>
      match w.registry.call k with
      | .starting p s => (w.hub.step m cap (.subscribe s p)).map fun hub => { w with hub }
      | _ => none
  | .hub act =>
      if w.hubReady act then (w.hub.step m cap act).map fun hub => { w with hub } else none

/-- The newest session of a pair has had its `Subscribe` acknowledged, so that its open returns
`Ok`, and has not sent its own `Unsubscribe`. -/
def Established (w : Turnover) (p : Pair) (t : SessionId) : Prop :=
  w.newest p = some t ∧ w.hub.handle t = .subscribed p

/-- The hub routes the pair of an established session to it and keeps it subscribed upstream. -/
def Routed (w : Turnover) : Prop :=
  ∀ p t, w.Established p t → w.hub.routes.lookup p = some t ∧ Subscribes w.hub.subs p

/-- No session is established for the pair, nor for another of its symbol and kind. -/
def Spare (w : Turnover) (p : Pair) : Prop := ∀ q t, SameTopic q p → ¬ w.Established q t

/-- The hub takes a pair out of its set, to unsubscribe it or because the upstream has rejected
it, only while no session is established for its symbol and kind. -/
def Undisturbed (w : Turnover) : TurnoverAction → Prop
  | .hub .take => ∀ s p queue, w.hub.queue = .unsubscribe s p :: queue → w.Spare p
  | .hub (.answer (.error _)) => ∀ s p, w.hub.task = .asking (.subscribe s p) → w.Spare p
  | _ => True

/-! ### The registry's part -/

variable {r r' : Registry} {act : RegistryAction}

/-- A call that has claimed a slot had, or claims it now. -/
theorem starting_step (hstep : r.step act = some r') {k : CallId} {p : Pair} {s : SessionId}
    (hk : r'.call k = .starting p s) :
    r.call k = .starting p s
      ∨ act = .claim k s ∧ r.call k = .claiming p ∧ r.upgrade p = none ∧ r.session s = none := by
  cases Registry.step_cases hstep with
  | @claimOpen j t q hj ht hup =>
      simp only [Registry.setCall_call, Registry.setSlot_call, Registry.setSession_call] at hk
      split_ifs at hk with hkj
      · cases hk
        exact .inr ⟨by rw [hkj], hkj ▸ hj, hup, ht⟩
      · exact .inl hk
  | _ => exact .inl (by grind)

/-- It stays where it is until its subscription is answered. -/
theorem starting_kept (hstep : r.step act = some r') {k : CallId} {p : Pair} {s : SessionId}
    (hk : r.call k = .starting p s) :
    r'.call k = .starting p s ∨ (∃ b, act = .started k b) ∨ ∃ e, act = .startFailed k e := by
  cases Registry.step_cases hstep with
  | started backfill hj => grind
  | startFailed hj => grind
  | _ => exact .inl (by grind)

theorem session_kept (hstep : r.step act = some r') {s : SessionId} (hs : r.session s ≠ none) :
    r'.session s ≠ none := by
  have hset : ∀ t a, (r.setSession t a).session s ≠ none := by
    intro t a
    rw [Registry.setSession_session]
    split_ifs
    · simp
    · exact hs
  cases Registry.step_cases hstep with
  | invoke | probeMiss => exact hs
  | drop =>
      rw [Registry.dropCleanup_session]
      exact hs
  | _ => exact hset _ _

/-- A call that has claimed a slot holds it: nobody else can claim it. -/
theorem upgrade_of_starting (hwf : WF r) (hheld : Held r) (howned : Owned r) {k : CallId}
    {p : Pair} {s : SessionId} (hk : r.call k = .starting p s) :
    ∃ a, r.upgrade p = some (s, a) := by
  obtain ⟨a, ha, hmem⟩ := hheld k s (by rw [hk]; rfl)
  have hcall := hwf.call k
  rw [hk] at hcall
  obtain ⟨b, hb, hpair, -⟩ := hcall
  cases ha.symm.trans hb
  have harcs : a.arcs ≠ [] := List.ne_nil_of_mem hmem
  have hslot := howned s a ha harcs
  rw [hpair] at hslot
  exact ⟨a, by simp [Registry.upgrade, hslot, ha, harcs]⟩

/-! ### The handles' part -/

variable {m : Market} {cap : Nat} {h h' : Hub} {a : HubAction}

/-- The handle of a session that has a command under way has left its first state. -/
theorem not_fresh_of_pending (hs : h.Synced) {c : HubCommand} (hc : c ∈ h.pending) :
    h.handle c.session ≠ .fresh := by
  intro hf
  have hcommand := hs.awaited c hc
  rw [hf] at hcommand
  cases hcommand

/-- An answered handle has a subscription only by the acknowledgement of its `Subscribe`. -/
theorem answered_subscribed {st : HandleState} {s : SessionId} {c : HubCommand}
    {res : Except Error Unit} (hc : st.command s = some c) (p : Pair) :
    st.answered res ≠ .subscribing p
      ∧ (st.answered res = .subscribed p → c = .subscribe s p ∧ res = .ok ()) := by
  cases st with
  | subscribing q =>
      cases hc
      rcases res with e | ⟨⟩
      · exact ⟨by simp [HandleState.answered], fun hp => by cases hp⟩
      · refine ⟨by simp [HandleState.answered], fun hp => ?_⟩
        cases hp
        exact ⟨rfl, rfl⟩
  | unsubscribing q =>
      rcases res with e | ⟨⟩ <;>
        exact ⟨by simp [HandleState.answered], fun hp => by cases hp⟩
  | closing q =>
      rcases res with e | ⟨⟩ <;>
        exact ⟨by simp [HandleState.answered], fun hp => by cases hp⟩
  | _ => cases hc

/-- What a step makes of a handle in state `old`: it is subscribing by its call, subscribed by
the hub's reply, and never goes back. -/
structure HandleMoves (h : Hub) (a : HubAction) (s : SessionId) (old new : HandleState) : Prop where
  left : new ≠ .fresh → old ≠ .fresh ∨ ∃ p, a = .subscribe s p
  subscribing : ∀ p, new = .subscribing p → old = .subscribing p ∨ a = .subscribe s p
  subscribed : ∀ p, new = .subscribed p → old = .subscribed p
    ∨ h.task = .sending [] (.reply (.subscribe s p) (.ok ()))

theorem HandleMoves.refl (s : SessionId) (st : HandleState) : HandleMoves h a s st st :=
  ⟨.inl, fun _ => .inl, fun _ => .inl⟩

/-- Only the handle of one session moves. -/
theorem HandleMoves.of_set {t : SessionId} {st : HandleState}
    (hhandle : ∀ u, h'.handle u = if u = t then st else h.handle u)
    (hmoves : HandleMoves h a t (h.handle t) st) (s : SessionId) :
    HandleMoves h a s (h.handle s) (h'.handle s) := by
  rw [hhandle]
  split_ifs with hst
  · rw [hst]
    exact hmoves
  · exact .refl s _

theorem handle_step (hs : h.Synced) (hstep : h.step m cap a = some h') (s : SessionId) :
    HandleMoves h a s (h.handle s) (h'.handle s) := by
  cases Hub.step_cases hstep with
  | @subscribe t q hf hp =>
      refine .of_set (Hub.enqueue_handle h _ _) ⟨fun _ => .inr ⟨q, rfl⟩, fun p hp => .inr ?_,
        fun p hp => (by cases hp)⟩ s
      cases hp
      rfl
  | @unsubscribe t q hf =>
      exact .of_set (Hub.enqueue_handle h _ _)
        ⟨fun _ => .inl (by simp [hf]), fun p hp => (by cases hp), fun p hp => (by cases hp)⟩ s
  | @closeHeld t q hf =>
      refine .of_set (Hub.enqueue_handle h _ _)
        ⟨fun _ => .inl ?_, fun p hp => (by cases hp), fun p hp => (by cases hp)⟩ s
      rcases hf with hf | hf <;> rw [hf] <;> simp
  | @close t hf =>
      exact .of_set (Hub.setHandle_handle h _ _)
        ⟨fun _ => .inl (by simp [hf]), fun p hp => (by cases hp), fun p hp => (by cases hp)⟩ s
  | @reply c res ht =>
      have hc : c ∈ h.pending := by simp [Hub.pending, ht, HubTask.command, Next.command]
      refine .of_set (Hub.setHandle_handle h _ _) ⟨fun _ => .inl (not_fresh_of_pending hs hc),
        fun p hp => absurd hp (answered_subscribed (hs.awaited c hc) p).1, fun p hp => .inr ?_⟩ s
      obtain ⟨hcommand, rfl⟩ := (answered_subscribed (hs.awaited c hc) p).2 hp
      rw [ht, ← hcommand]
  | @refuse park c queue ht hq =>
      have hc : c ∈ h.pending := by simp [Hub.pending, hq]
      refine .of_set (Hub.setHandle_handle h _ _) ⟨fun _ => .inl (not_fresh_of_pending hs hc),
        fun p hp => absurd hp (answered_subscribed (hs.awaited c hc) p).1, fun p hp => ?_⟩ s
      cases ((answered_subscribed (hs.awaited c hc) p).2 hp).2
  | _ => exact .refl s _

/-! ### Routes -/

/-- The pair is routed to the session and in the set. -/
def HasRoute (h : Hub) (p : Pair) (t : SessionId) : Prop :=
  h.routes.lookup p = some t ∧ Subscribes h.subs p

/-- The established sessions have their routes, and so has one whose `Subscribe` the hub is at;
while it is at an `Unsubscribe`, nobody is established for the pair. -/
structure Kept (w : Turnover) : Prop where
  routed : w.Routed
  asked : ∀ s p, w.hub.task = .asking (.subscribe s p) → HasRoute w.hub p s
  replying : ∀ s p ds, w.hub.task = .sending ds (.reply (.subscribe s p) (.ok ())) →
    HasRoute w.hub p s
  removing : ∀ s p, w.hub.task = .asking (.unsubscribe s p) → w.Spare p

/-- What connects the two parts: a handle is of a session of the registry, one that subscribes
of a call that has claimed the slot, and such a session is the newest of its pair. -/
structure Joint (m : Market) (w : Turnover) : Prop where
  wf : WF w.registry
  held : Held w.registry
  owned : Owned w.registry
  traced : ∃ past, Traced m past w.hub
  synced : w.hub.Synced
  known : ∀ s, w.hub.handle s ≠ .fresh → w.registry.session s ≠ none
  starting : ∀ s p, w.hub.handle s = .subscribing p → ∃ k, w.registry.call k = .starting p s
  newest : ∀ k p s, w.registry.call k = .starting p s → w.newest p = some s

variable {w w' : Turnover}

theorem joint_init : Joint m init where
  wf := WF.init
  held := LiveWorld.Inv.init.held
  owned := LiveWorld.Inv.init.owned
  traced := ⟨[], traced_init m⟩
  synced := Hub.synced_init
  known := fun s hs => absurd rfl hs
  starting := fun s p hs => by cases hs
  newest := fun k p s hk => by cases hk

theorem kept_init : Kept init where
  routed := fun p t ht => by cases ht.1
  asked := fun s p ht => by cases ht
  replying := fun s p ds ht => by cases ht
  removing := fun s p ht => by cases ht

/-- A claim opens the newest session of its pair; nothing else changes which that is. -/
theorem newestAfter_cases (act : RegistryAction) :
    w.newestAfter act = w.newest
      ∨ ∃ k s p, act = .claim k s ∧ w.registry.call k = .claiming p
        ∧ w.registry.upgrade p = none
        ∧ w.newestAfter act = Function.update w.newest p (some s) := by
  cases act with
  | claim k s =>
      rw [newestAfter]
      split
      · rename_i p hk
        split
        · rename_i hup
          exact .inr ⟨k, s, p, rfl, hk, hup, rfl⟩
        · exact .inl rfl
      · exact .inl rfl
  | _ => exact .inl rfl

/-- The newest session stays so while its call has not returned. -/
theorem Joint.newestAfter_starting (hj : Joint m w) {act : RegistryAction} {k : CallId} {p : Pair}
    {s : SessionId} (hk : w.registry.call k = .starting p s) : w.newestAfter act p = some s := by
  have hold := hj.newest k p s hk
  rcases newestAfter_cases (w := w) act with heq | ⟨j, t, q, -, -, hup, heq⟩
  · rw [heq]
    exact hold
  · have hpq : p ≠ q := by
      rintro rfl
      obtain ⟨b, hb⟩ := upgrade_of_starting hj.wf hj.held hj.owned hk
      rw [hup] at hb
      cases hb
    rw [heq, Function.update_of_ne hpq]
    exact hold

theorem Joint.registry (hj : Joint m w) {act : RegistryAction} {r : Registry}
    (hready : w.registryReady act = true) (hstep : w.registry.step act = some r) :
    Joint m { w with registry := r, newest := w.newestAfter act } := by
  refine ⟨hj.wf.step hstep, hj.held.step hj.wf hstep, hj.owned.step hj.held hstep, hj.traced,
    hj.synced, fun s hs => session_kept hstep (hj.known s hs), fun s p hs => ?_,
    fun k p s hk => ?_⟩
  · obtain ⟨k, hk⟩ := hj.starting s p hs
    have hs' : w.hub.handle s = .subscribing p := hs
    rcases starting_kept hstep hk with hk' | ⟨b, rfl⟩ | ⟨e, rfl⟩
    · exact ⟨k, hk'⟩
    -- the call goes on only once its handle is answered
    · rw [registryReady, hk] at hready
      simp [hs'] at hready
    · rw [registryReady, hk] at hready
      simp [hs'] at hready
  · rcases starting_step hstep hk with hk' | ⟨rfl, hclaiming, hup, -⟩
    · exact hj.newestAfter_starting hk'
    · show w.newestAfter (.claim k s) p = some s
      rw [newestAfter]
      simp only [hclaiming, hup, Function.update_self]

/-- A hub action that subscribes nothing, or the subscription of a call that has claimed its
slot. -/
theorem Joint.hub (hj : Joint m w) {a : HubAction} {hub : Hub}
    (hsub : ∀ s p, a = .subscribe s p → ∃ k, w.registry.call k = .starting p s)
    (hstep : w.hub.step m cap a = some hub) : Joint m { w with hub } := by
  obtain ⟨past, htraced⟩ := hj.traced
  refine ⟨hj.wf, hj.held, hj.owned, ⟨_, htraced.step hstep⟩, hj.synced.step hstep, fun s hs => ?_,
    fun s p hs => ?_, hj.newest⟩
  · rcases (handle_step hj.synced hstep s).left hs with hold | ⟨p, rfl⟩
    · exact hj.known s hold
    · obtain ⟨k, hk⟩ := hsub s p rfl
      obtain ⟨b, hb, -⟩ := hj.held k s (by rw [hk]; rfl)
      show w.registry.session s ≠ none
      rw [hb]
      simp
  · rcases (handle_step hj.synced hstep s).subscribing p hs with hold | rfl
    · exact hj.starting s p hold
    · exact hsub s p rfl

/-- What the registry does leaves the established sessions as they are, but for a pair that gets
a successor. -/
theorem established_registry (hj : Joint m w) {act : RegistryAction} {r : Registry} {p : Pair}
    {t : SessionId} (hstep : w.registry.step act = some r)
    (he : Established { w with registry := r, newest := w.newestAfter act } p t) :
    w.Established p t := by
  obtain ⟨hnewest, hsub⟩ := he
  have hnewest' : w.newestAfter act p = some t := hnewest
  refine ⟨?_, hsub⟩
  rcases newestAfter_cases (w := w) act with heq | ⟨k, s, q, rfl, hk, hup, heq⟩
  · rwa [heq] at hnewest'
  · by_cases hpq : p = q
    · -- the session just opened has no handle yet
      subst hpq
      rw [heq, Function.update_self, Option.some.injEq] at hnewest'
      subst hnewest'
      have hnone : w.registry.session s = none := by
        cases Registry.step_cases hstep with
        | claimJoin _ hs => exact hs
        | claimOpen _ hs => exact hs
      exact absurd hnone (hj.known s (by rw [hsub]; simp))
    · rwa [heq, Function.update_of_ne hpq] at hnewest'

theorem Kept.registry (hw : Kept w) (hj : Joint m w) {act : RegistryAction} {r : Registry}
    (hstep : w.registry.step act = some r) :
    Kept { w with registry := r, newest := w.newestAfter act } where
  routed := fun p t he => hw.routed p t (established_registry hj hstep he)
  asked := hw.asked
  replying := hw.replying
  removing := fun s p ht q t hsame he =>
    hw.removing s p ht q t hsame (established_registry hj hstep he)

/-- A session established after a step of the hub was before, or the hub replies to it. -/
theorem established_hub (hj : Joint m w) {a : HubAction} {hub : Hub} {p : Pair} {t : SessionId}
    (hstep : w.hub.step m cap a = some hub) (he : Established { w with hub } p t) :
    w.Established p t ∨ w.hub.task = .sending [] (.reply (.subscribe t p) (.ok ())) :=
  ((handle_step hj.synced hstep t).subscribed p he.2).imp_left fun hold => ⟨he.1, hold⟩

/-- Either way it has its route before the step. -/
theorem Kept.hasRoute (hw : Kept w) (hj : Joint m w) {a : HubAction} {hub : Hub} {p : Pair}
    {t : SessionId} (hstep : w.hub.step m cap a = some hub)
    (he : Established { w with hub } p t) : HasRoute w.hub p t := by
  rcases established_hub hj hstep he with hold | hreply
  · exact hw.routed p t hold
  · exact hw.replying t p [] hreply

/-- A step of the hub that leaves routes and set as they are. -/
theorem Kept.quiet (hw : Kept w) (hj : Joint m w) {a : HubAction} {hub : Hub}
    (hstep : w.hub.step m cap a = some hub) (hroutes : hub.routes = w.hub.routes)
    (hsubs : hub.subs = w.hub.subs)
    (hasked : ∀ s p, hub.task = .asking (.subscribe s p) →
      w.hub.task = .asking (.subscribe s p))
    (hreplying : ∀ s p ds, hub.task = .sending ds (.reply (.subscribe s p) (.ok ())) →
      w.hub.task = .asking (.subscribe s p)
        ∨ ∃ ds', w.hub.task = .sending ds' (.reply (.subscribe s p) (.ok ())))
    (hremoving : ∀ s p, hub.task = .asking (.unsubscribe s p) →
      w.hub.task = .asking (.unsubscribe s p)) : Kept { w with hub } := by
  have hroute : ∀ {p t}, HasRoute w.hub p t → HasRoute hub p t := by
    intro p t hpt
    rw [HasRoute, hroutes, hsubs]
    exact hpt
  refine ⟨fun p t he => hroute (hw.hasRoute hj hstep he),
    fun s p ht => hroute (hw.asked s p (hasked s p ht)), fun s p ds ht => hroute ?_,
    fun s p ht q t hsame he => ?_⟩
  · rcases hreplying s p ds ht with ht | ⟨ds', ht⟩
    · exact hw.asked s p ht
    · exact hw.replying s p ds' ht
  · have ht' := hremoving s p ht
    rcases established_hub hj hstep he with hold | hreply
    · exact hw.removing s p ht' q t hsame hold
    · rw [ht'] at hreply
      cases hreply

theorem Joint.streamed (hj : Joint m w) {c : HubCommand}
    (hc : c ∈ w.hub.queue ∨ w.hub.task = .asking c) : Streamed c.pair.2 := by
  obtain ⟨past, ht⟩ := hj.traced
  refine streamed_of_supports (ht.supported c.session c.pair ?_)
  rcases hc with hc | hc
  · exact ht.queued c hc
  · exact ht.asked c hc

/-- A session with a `Subscribe` under way is the newest of its pair, and not established. -/
theorem Joint.not_established (hj : Joint m w) {s : SessionId} {p : Pair}
    (hc : .subscribe s p ∈ w.hub.pending) (t : SessionId) : ¬ w.Established p t := by
  rintro ⟨hnewest, hsub⟩
  have hcommand := hj.synced.awaited (.subscribe s p) hc
  have hhandle : w.hub.handle s = .subscribing p := by
    cases hh : w.hub.handle s with
    | subscribing q =>
        rw [HubCommand.session, hh] at hcommand
        cases hcommand
        rfl
    | _ =>
        rw [HubCommand.session, hh] at hcommand
        cases hcommand
  obtain ⟨k, hk⟩ := hj.starting s p hhandle
  rw [hj.newest k p s hk, Option.some.injEq] at hnewest
  rw [← hnewest, hhandle] at hsub
  cases hsub

theorem Kept.hub (hw : Kept w) (hj : Joint m w) {a : HubAction} {hub : Hub}
    (hok : w.Undisturbed (.hub a)) (hstep : w.hub.step m cap a = some hub) :
    Kept { w with hub } := by
  cases Hub.step_cases hstep with
  | @takeSubscribe s p queue ht hq =>
      -- the route of `p` is overwritten: with a `Subscribe` queued, no session of it is established
      have hstr : Streamed p.2 := hj.streamed (c := .subscribe s p) (.inl (by simp [hq]))
      have hold : ∀ {q t}, HasRoute w.hub q t → q ≠ p →
          HasRoute { w.hub with
            queue, routes := w.hub.routes.insert p s, subs := applyPairToList w.hub.subs p true
            task := .asking (.subscribe s p) } q t := fun hqt hqp =>
        ⟨(AList.lookup_insert_ne hqp).trans hqt.1, (subscribes_add hstr).mpr (.inl hqt.2)⟩
      refine ⟨fun q t he => hold (hw.hasRoute hj hstep he) ?_, fun t q htask => ?_,
        fun _ _ _ htask => (by cases htask), fun _ _ htask => (by cases htask)⟩
      · rintro rfl
        have hpending : .subscribe s q ∈ w.hub.pending := by simp [Hub.pending, hq]
        exact hj.not_established hpending t he
      · cases htask
        exact ⟨AList.lookup_insert _, (subscribes_add hstr).mpr (.inr ⟨rfl, rfl⟩)⟩
  -- the topic leaves the set; undisturbed, no established session shares it
  | @takeUnsubscribe s p queue ht hq =>
      have hstr : Streamed p.2 := hj.streamed (c := .unsubscribe s p) (.inl (by simp [hq]))
      have hspare : w.Spare p := hok s p queue hq
      refine ⟨fun q t he => ?_, fun _ _ htask => (by cases htask),
        fun _ _ _ htask => (by cases htask), fun s' p' htask q t hsame he => ?_⟩
      · obtain ⟨hlookup, hsub⟩ := hw.routed q t he
        exact ⟨hlookup, (subscribes_remove hstr).mpr ⟨hsub, fun hsame => hspare q t hsame he⟩⟩
      · cases htask
        exact hspare q t hsame he
  -- a rejected subscribe is rolled back, for the whole topic
  | @rejected s p e ht =>
      have hstr : Streamed p.2 := hj.streamed (c := .subscribe s p) (.inr ht)
      have hspare : w.Spare p := hok s p ht
      refine ⟨fun q t he => ?_, fun _ _ htask => (by cases htask),
        fun _ _ _ htask => (by cases htask), fun _ _ htask => (by cases htask)⟩
      obtain ⟨hlookup, hsub⟩ := hw.routed q t he
      have hsame : ¬ SameTopic q p := fun hsame => hspare q t hsame he
      have hqp : q ≠ p := fun hqp => hsame (hqp ▸ ⟨rfl, rfl⟩)
      exact ⟨(AList.lookup_erase_ne hqp).trans hlookup, (subscribes_remove hstr).mpr ⟨hsub, hsame⟩⟩
  | @removed s p ht =>
      refine ⟨fun q t he => ?_, fun _ _ htask => (by cases htask),
        fun _ _ _ htask => (by cases htask), fun _ _ htask => (by cases htask)⟩
      obtain ⟨hlookup, hsub⟩ := hw.routed q t he
      have hqp : q ≠ p := by
        rintro rfl
        exact hw.removing s q ht q t ⟨rfl, rfl⟩ he
      exact ⟨(AList.lookup_erase_ne hqp).trans hlookup, hsub⟩
  -- a failed unsubscribe puts the topic back, which takes nothing from anybody
  | @kept s p e ht =>
      have hstr : Streamed p.2 := hj.streamed (c := .unsubscribe s p) (.inr ht)
      refine ⟨fun q t he => ?_, fun _ _ htask => (by cases htask),
        fun _ _ _ htask => (by cases htask), fun _ _ htask => (by cases htask)⟩
      obtain ⟨hlookup, hsub⟩ := hw.routed q t he
      exact ⟨hlookup, (subscribes_add hstr).mpr (.inl hsub)⟩
  | subscribe | unsubscribe | closeHeld | close | recv | hangUp | refuse =>
      exact hw.quiet hj hstep rfl rfl (fun _ _ => id) (fun _ _ ds ht => .inr ⟨ds, ht⟩)
        fun _ _ => id
  | accepted ht =>
      exact hw.quiet hj hstep rfl rfl (fun _ _ h => by cases h)
        (fun _ _ _ h => by cases h; exact .inl ht) fun _ _ h => by cases h
  | send ht | sendNobody ht =>
      exact hw.quiet hj hstep rfl rfl (fun _ _ h => by cases h)
        (fun _ _ _ h => by cases h; exact .inr ⟨_, ht⟩) fun _ _ h => by cases h
  | message | lost | connected | connectFailed | reply | sent | disconnect =>
      exact hw.quiet hj hstep rfl rfl (fun _ _ h => by cases h) (fun _ _ _ h => by cases h)
        fun _ _ h => by cases h

/-! ### Every run -/

theorem Joint.step (hj : Joint m w) {act : TurnoverAction} (hstep : w.step m cap act = some w') :
    Joint m w' := by
  cases act with
  | registry act =>
      obtain ⟨hready, hstep⟩ := Option.ite_none_right_eq_some.mp hstep
      obtain ⟨r, hr, rfl⟩ := Option.map_eq_some_iff.mp hstep
      exact hj.registry hready hr
  | subscribe k =>
      rw [Turnover.step] at hstep
      split at hstep
      · rename_i p s hk
        obtain ⟨hub, hhub, rfl⟩ := Option.map_eq_some_iff.mp hstep
        refine hj.hub (fun t q heq => ?_) hhub
        cases heq
        exact ⟨k, hk⟩
      · cases hstep
  | hub a =>
      obtain ⟨hready, hstep⟩ := Option.ite_none_right_eq_some.mp hstep
      obtain ⟨hub, hhub, rfl⟩ := Option.map_eq_some_iff.mp hstep
      refine hj.hub (fun t q heq => ?_) hhub
      rw [heq] at hready
      cases hready

theorem Kept.step (hw : Kept w) (hj : Joint m w) {act : TurnoverAction} (hok : w.Undisturbed act)
    (hstep : w.step m cap act = some w') : Kept w' := by
  cases act with
  | registry act =>
      obtain ⟨-, hstep⟩ := Option.ite_none_right_eq_some.mp hstep
      obtain ⟨r, hr, rfl⟩ := Option.map_eq_some_iff.mp hstep
      exact hw.registry hj hr
  | subscribe k =>
      rw [Turnover.step] at hstep
      split at hstep
      · obtain ⟨hub, hhub, rfl⟩ := Option.map_eq_some_iff.mp hstep
        exact hw.hub (a := .subscribe _ _) hj trivial hhub
      · cases hstep
  | hub a =>
      obtain ⟨-, hstep⟩ := Option.ite_none_right_eq_some.mp hstep
      obtain ⟨hub, hhub, rfl⟩ := Option.map_eq_some_iff.mp hstep
      exact hw.hub hj hok hhub

/-- A pair taken out of the set takes its part of the established sessions with it. -/
theorem not_routed_of_remove {hub : Hub} {p : Pair} (hstr : Streamed p.2) (hspare : ¬ w.Spare p)
    (hhandle : hub.handle = w.hub.handle)
    (hsubs : hub.subs = applyPairToList w.hub.subs p false) : ¬ Routed { w with hub } := by
  intro hrouted
  refine hspare fun q t hsame he => ?_
  have hsub := (hrouted q t ⟨he.1, (congrFun hhandle t).trans he.2⟩).2
  have hsub' : Subscribes hub.subs q := hsub
  rw [hsubs, subscribes_remove hstr] at hsub'
  exact hsub'.2 hsame

/-- A step that disturbs an established session leaves it without its place in the set. -/
theorem not_routed_step (hj : Joint m w) {act : TurnoverAction} (hok : ¬ w.Undisturbed act)
    (hstep : w.step m cap act = some w') : ¬ w'.Routed := by
  cases act with
  | registry act => exact absurd trivial hok
  | subscribe k => exact absurd trivial hok
  | hub a =>
      obtain ⟨-, hstep⟩ := Option.ite_none_right_eq_some.mp hstep
      obtain ⟨hub, hhub, rfl⟩ := Option.map_eq_some_iff.mp hstep
      cases Hub.step_cases hhub with
      | @takeSubscribe s p queue ht hq =>
          refine absurd (fun s' p' queue' hq' => ?_) hok
          rw [hq] at hq'
          cases hq'
      | @takeUnsubscribe s p queue ht hq =>
          -- an established session of the same topic loses its place in the set
          refine not_routed_of_remove (hj.streamed (c := .unsubscribe s p) (.inl (by simp [hq])))
            (fun hspare => hok fun s' p' queue' hq' => ?_) rfl rfl
          rw [hq] at hq'
          cases hq'
          exact hspare
      | @rejected s p e ht =>
          refine not_routed_of_remove (hj.streamed (c := .subscribe s p) (.inr ht))
            (fun hspare => hok fun s' p' ht' => ?_) rfl rfl
          rw [ht] at ht'
          cases ht'
          exact hspare
      | @kept s p e ht =>
          refine absurd (fun s' p' ht' => ?_) hok
          rw [ht] at ht'
          cases ht'
      | _ => exact absurd trivial hok

/-- The established sessions have their routes in every state of a run exactly if the hub takes
no pair out of its set while a session is established for it. -/
theorem routed_iff {acts : List TurnoverAction} (hj : Joint m w) (hw : Kept w)
    (hrun : run (step m cap) w acts = some w') :
    Meets (step m cap) (fun w act => ∀ next, w.step m cap act = some next → next.Routed) w acts
      ↔ Meets (step m cap) Undisturbed w acts := by
  induction acts generalizing w with
  | nil => exact Iff.rfl
  | cons act acts ih =>
      obtain ⟨next, hstep, hrest⟩ := Option.bind_eq_some_iff.mp hrun
      rw [meets_cons hstep, meets_cons hstep]
      have hrouted : (∀ t, w.step m cap act = some t → t.Routed) ↔ w.Undisturbed act := by
        constructor
        · intro hnext
          by_contra hok
          exact not_routed_step hj hok hstep (hnext next hstep)
        · intro hok t ht
          exact (hw.step hj hok ht).routed
      rw [hrouted]
      exact and_congr_right fun hok => ih (hj.step hstep) (hw.step hj hok hstep) hrest

end Turnover

/-- Routing over the turnover of sessions, in every run of registry and hub. -/
theorem turnover {m : Market} {cap : Nat} {acts : List TurnoverAction} {w : Turnover}
    (hrun : run (Turnover.step m cap) .init acts = some w) :
    Meets (Turnover.step m cap)
        (fun w act => ∀ next, w.step m cap act = some next → next.Routed) .init acts
      ↔ Meets (Turnover.step m cap) Turnover.Undisturbed .init acts :=
  Turnover.routed_iff Turnover.joint_init Turnover.kept_init hrun

section Spy

/-- A call opens a session for SPY trades: the slot, the subscription, the return. -/
def spyOpens (k : CallId) (s : SessionId) : List TurnoverAction :=
  [.registry (.invoke k spyTrades), .registry (.probe k), .registry (.claim k s), .subscribe k,
    .hub .take, .hub (.answer (.ok ())), .hub .send, .hub .send, .hub .proceed,
    .registry (.started k false), .registry (.resume k)]

/-- It lets go of the session, whose controller leaves its loop, and the slot is cleared. -/
def spyDrops (k : CallId) (s : SessionId) : List TurnoverAction :=
  [.registry (.dropGuard s k), .registry (.dropHandle s k), .registry (.remove s),
    .registry (.drop s)]

def spyRemoved (s : SessionId) : List TurnoverAction :=
  [.hub (.unsubscribe s), .hub .take, .hub (.answer (.ok ()))]

def spyConnects : List TurnoverAction := [.hub (.connected [] (.ok ())), .hub .proceed]

/-- A session that is let go stays routed until its controller unsubscribes it. -/
theorem turnover_single : ∃ w,
    run (Turnover.step .stock 4) .init (spyConnects ++ spyOpens 0 0 ++ spyDrops 0 0) = some w
    ∧ w.registry.slot spyTrades = none
    ∧ Meets (Turnover.step .stock 4)
      (fun w act => ∀ next, w.step .stock 4 act = some next → next.Routed) .init
      (spyConnects ++ spyOpens 0 0 ++ spyDrops 0 0) := by
  obtain ⟨w, hrun, hslot⟩ : ∃ w, run (Turnover.step .stock 4) .init
      (spyConnects ++ spyOpens 0 0 ++ spyDrops 0 0) = some w
      ∧ w.registry.slot spyTrades = none := ⟨_, rfl, rfl⟩
  refine ⟨w, hrun, hslot, (turnover hrun).mpr ?_⟩
  iterate 6 refine (meets_cons rfl).mpr ⟨trivial, ?_⟩
  refine (meets_cons rfl).mpr ⟨fun s p queue hq => (by cases hq), ?_⟩
  iterate 10 refine (meets_cons rfl).mpr ⟨trivial, ?_⟩
  trivial

/-- The `Unsubscribe` of a session that was let go comes after the `Subscribe` of its successor,
whose open has returned: the successor has neither route nor subscription. -/
theorem unsubscribed_successor : ∃ w, run (Turnover.step .stock 4) .init
      (spyConnects ++ spyOpens 0 0 ++ spyDrops 0 0 ++ spyOpens 1 1 ++ spyRemoved 0) = some w
    ∧ w.registry.call 1 = .returned spyTrades (.ok 1) ∧ w.Established spyTrades 1
    ∧ w.hub.routes.lookup spyTrades = none ∧ ¬ Subscribes w.hub.subs spyTrades := by
  refine ⟨_, rfl, rfl, ⟨rfl, rfl⟩, rfl, ?_⟩
  decide

end Spy

end Alpaca

end Datamancer
