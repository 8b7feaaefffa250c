import Datamancer.Providers.AlpacaStream
import Datamancer.Providers.HubSets

/-!
# Datamancer.Providers.HubWaits

The hub waits for room in the provider channel of a session, and the controller of a session
that tears down waits, its receiver alive and unread, for the hub to answer its `Unsubscribe`.
The two waits close a cycle as soon as the hub has more to send to such a session than its
channel has room for, and it never opens again (`overfull_step`); while everything the hub
starts to send to a session that leaves fits, no cycle forms (`no_jam`).
-/

namespace Datamancer

open ActionSystem

namespace Alpaca

/-- The controller is in `teardown_upstream`, waiting for the answer to an `Unsubscribe`. -/
def HandleState.awaitsRemoval : HandleState → Bool
  | unsubscribing _ | closing _ => true
  | _ => false

/-- How many deliveries are for a session. -/
def owed (ds : List (SessionId × Delivery)) (s : SessionId) : Nat := ds.countP (·.1 = s)

namespace Hub

/-- What the hub has still to send. -/
def toSend (h : Hub) : List (SessionId × Delivery) :=
  match h.task with
  | .sending ds _ => ds
  | _ => []

/-- The channel of the session has room for its part of the deliveries, or nobody receives. -/
def Fits (cap : Nat) (h : Hub) (s : SessionId) (ds : List (SessionId × Delivery)) : Prop :=
  ∀ l, h.channel s = some l → l.length + owed ds s ≤ cap

/-- The hub waits to send into the full channel of a session that waits for the hub. -/
def Jammed (cap : Nat) (h : Hub) : Prop :=
  ∃ s d ds next l, h.task = .sending ((s, d) :: ds) next ∧ h.channel s = some l
    ∧ cap ≤ l.length ∧ (h.handle s).awaitsRemoval = true

/-- What an action has the hub start to send. -/
def started (m : Market) (h : Hub) : HubAction → List (SessionId × Delivery)
  | .answer (.ok ()) =>
      match h.task with
      | .asking (.subscribe _ p) =>
          broadcastControlTo (h.routes.lookup p) (.providerConnected m.providerId) ++
            broadcastControlTo (h.routes.lookup p)
              (.subscriptionChanged m.providerId p.1 p.2 true)
      | .asking (.unsubscribe _ p) =>
          broadcastControlTo (h.routes.lookup p)
            (.subscriptionChanged m.providerId p.1 p.2 false)
      | _ => []
  | .message order evs => evs.flatMap (h.dispatchEvent order)
  | .lost order reason cause =>
      broadcastControl order (.providerDisconnected m.providerId reason cause)
  | .connected order resubscribe => h.onConnected m order resubscribe
  | .connectFailed order reason cause =>
      broadcastControl order
        (.providerDisconnected m.providerId ("connect failed: " ++ reason) cause)
  | _ => []

/-- A controller leaves its loop only with room for what the hub is still sending to it, and
what the hub starts to send fits the channels of those that have left. -/
def Roomy (m : Market) (cap : Nat) (h : Hub) (act : HubAction) : Prop :=
  match act with
  | .unsubscribe s => h.Fits cap s h.toSend
  | .close s => h.handle s ≠ .unsubscribed none → h.Fits cap s h.toSend
  | act => ∀ s, (h.handle s).awaitsRemoval = true → 0 < owed (h.started m act) s →
      h.Fits cap s (h.started m act)

/-- The channels keep to their capacity, and whatever the hub has still to send to a session that
waits for it fits. -/
structure Clear (cap : Nat) (h : Hub) : Prop where
  bounded : ∀ s l, h.channel s = some l → l.length ≤ cap
  fits : ∀ s, (h.handle s).awaitsRemoval = true → h.Fits cap s h.toSend

variable {m : Market} {cap : Nat} {h h' : Hub}

theorem owed_nil (s : SessionId) : owed [] s = 0 := rfl

theorem owed_cons_self (s : SessionId) (d : Delivery) (ds : List (SessionId × Delivery)) :
    owed ((s, d) :: ds) s = owed ds s + 1 :=
  List.countP_cons_of_pos (by simp)

theorem owed_cons_of_ne {s t : SessionId} (hst : t ≠ s) (d : Delivery)
    (ds : List (SessionId × Delivery)) : owed ((t, d) :: ds) s = owed ds s :=
  List.countP_cons_of_neg (by simpa using hst)

/-- With nothing to send there is room. -/
theorem Clear.fits_none (hc : h.Clear cap) {s : SessionId} {ds : List (SessionId × Delivery)}
    (hds : owed ds s = 0) : h.Fits cap s ds := by
  intro l hl
  rw [hds]
  exact hc.bounded s l hl

theorem clear_init : Clear cap .init where
  bounded := fun s l hl => by
    cases hl
    exact Nat.zero_le _
  fits := fun s hs => by cases hs

theorem Clear.not_jammed (hc : h.Clear cap) : ¬ h.Jammed cap := by
  rintro ⟨s, d, ds, next, l, htask, hl, hfull, hwaits⟩
  have hfits := hc.fits s hwaits l hl
  rw [toSend, htask] at hfits
  show False
  rw [show owed ((s, d) :: ds) s = owed ds s + 1 from owed_cons_self s d ds] at hfits
  omega

/-! ### A step -/

/-- The hub goes to its next task, with room for what that sends. -/
theorem Clear.start (hc : h.Clear cap) (hchannel : h'.channel = h.channel)
    (hhandle : h'.handle = h.handle)
    (hroom : ∀ s, (h.handle s).awaitsRemoval = true → 0 < owed h'.toSend s →
      h.Fits cap s h'.toSend) : h'.Clear cap := by
  refine ⟨fun s l hl => hc.bounded s l (hchannel ▸ hl), fun s hs l hl => ?_⟩
  rw [hhandle] at hs
  rw [hchannel] at hl
  rcases Nat.eq_zero_or_pos (owed h'.toSend s) with hzero | hpos
  · exact hc.fits_none hzero l hl
  · exact hroom s hs hpos l hl

/-- A handle moves on. -/
theorem Clear.setHandle (hc : h.Clear cap) (hchannel : h'.channel = h.channel)
    (htoSend : h'.toSend = h.toSend) {s : SessionId} {st : HandleState}
    (hhandle : ∀ t, h'.handle t = if t = s then st else h.handle t)
    (hroom : st.awaitsRemoval = true → h.Fits cap s h.toSend) : h'.Clear cap := by
  refine ⟨fun t l hl => hc.bounded t l (hchannel ▸ hl), fun t ht => ?_⟩
  rw [Fits, hchannel, htoSend]
  rw [hhandle] at ht
  split_ifs at ht with hts
  · rw [hts]
    exact hroom ht
  · exact hc.fits t ht

/-- A channel changes, of a session that waits for nothing, or towards more room. -/
theorem Clear.setChannel (hc : h.Clear cap) {s : SessionId} {l : Option (List Delivery)}
    (hless : ∀ l', l = some l' → ∃ l₀, h.channel s = some l₀ ∧ l'.length ≤ l₀.length) :
    (h.setChannel s l).Clear cap := by
  have hchannel : ∀ t l', (h.setChannel s l).channel t = some l' →
      ∃ l₀, h.channel t = some l₀ ∧ l'.length ≤ l₀.length := by
    intro t l' hl'
    by_cases hts : t = s
    · subst hts
      exact hless l' (by simpa [Hub.setChannel] using hl')
    · exact ⟨l', by simpa [Hub.setChannel, hts] using hl', Nat.le_refl _⟩
  refine ⟨fun t l' hl' => ?_, fun t ht l' hl' => ?_⟩
  · obtain ⟨l₀, hl₀, hle⟩ := hchannel t l' hl'
    exact hle.trans (hc.bounded t l₀ hl₀)
  · obtain ⟨l₀, hl₀, hle⟩ := hchannel t l' hl'
    exact (Nat.add_le_add_right hle _).trans (hc.fits t ht l₀ hl₀)

/-- One delivery goes from what is to send into the channel. -/
theorem Clear.send (hc : h.Clear cap) {s : SessionId} {d : Delivery}
    {ds : List (SessionId × Delivery)} {next : Next} {l : List Delivery}
    (htask : h.task = .sending ((s, d) :: ds) next) (hl : h.channel s = some l)
    (hroom : l.length < cap) :
    Clear cap { h.setChannel s (some (l ++ [d])) with task := .sending ds next } := by
  have hchannel : ∀ t, ({ h.setChannel s (some (l ++ [d])) with task := .sending ds next } :
      Hub).channel t = if t = s then some (l ++ [d]) else h.channel t := fun t => by
    simp [Hub.setChannel, Function.update_apply]
  have htoSend : h.toSend = (s, d) :: ds := by rw [toSend, htask]
  refine ⟨fun t l' hl' => ?_, fun t ht l' hl' => ?_⟩
  · rw [hchannel] at hl'
    split_ifs at hl' with hts
    · cases hl'
      rw [List.length_append]
      exact hroom
    · exact hc.bounded t l' hl'
  · rw [hchannel] at hl'
    have hfits := hc.fits t ht
    rw [htoSend] at hfits
    show l'.length + owed ds t ≤ cap
    split_ifs at hl' with hts
    · subst hts
      cases hl'
      have hbefore := hfits l hl
      rw [owed_cons_self] at hbefore
      rw [List.length_append, List.length_singleton]
      omega
    · have hbefore := hfits l' hl'
      rwa [owed_cons_of_ne (Ne.symm hts)] at hbefore

theorem Clear.step {act : HubAction} (hc : h.Clear cap) (hok : h.Roomy m cap act)
    (hstep : h.step m cap act = some h') : h'.Clear cap := by
  cases step_cases hstep with
  | subscribe hs hp =>
      exact hc.setHandle rfl rfl (enqueue_handle h _ _) fun hwaits => by cases hwaits
  | unsubscribe hs => exact hc.setHandle rfl rfl (enqueue_handle h _ _) fun _ => hok
  | closeHeld hs =>
      refine hc.setHandle rfl rfl (enqueue_handle h _ _) fun _ => hok fun hnone => ?_
      rcases hs with hs | hs <;> rw [hs] at hnone <;> cases hnone
  | close hs =>
      exact hc.setHandle rfl rfl (setHandle_handle h _ _) fun hwaits => by cases hwaits
  | recv hs hl => exact hc.setChannel fun l' hl' => ⟨_, hl, by cases hl'; simp⟩
  | hangUp hs => exact hc.setChannel fun l' hl' => by cases hl'
  | takeSubscribe ht hq | takeUnsubscribe ht hq =>
      exact hc.start rfl rfl fun s _ hpos => absurd hpos (by simp [toSend, owed_nil])
  -- the controls of the answer go to the session that has the route of the pair
  | accepted ht | removed ht =>
      have hroom : ∀ s, (h.handle s).awaitsRemoval = true →
          0 < owed (h.started m (.answer (.ok ()))) s →
          h.Fits cap s (h.started m (.answer (.ok ()))) := hok
      simp only [started, ht] at hroom
      exact hc.start rfl rfl hroom
  | rejected ht | kept ht =>
      exact hc.start rfl rfl fun s _ hpos => absurd hpos (by simp [toSend, owed_nil])
  | message ht horder | lost ht horder | connected ht horder | connectFailed ht horder =>
      exact hc.start rfl rfl hok
  | send ht hl hroom => exact hc.send ht hl hroom
  | @sendNobody s d ds next ht hl =>
      refine hc.start rfl rfl fun t hwaits _ l hl' => ?_
      have hts : s ≠ t := fun hts => by
        rw [← hts, hl] at hl'
        cases hl'
      have hbefore := hc.fits t hwaits l hl'
      rwa [toSend, ht, owed_cons_of_ne hts] at hbefore
  | reply ht =>
      refine hc.setHandle rfl (by simp [toSend, ht]) (setHandle_handle h _ _) fun _ => ?_
      exact hc.fits_none (by simp [toSend, ht, owed_nil])
  | sent ht | disconnect ht =>
      exact hc.start rfl rfl fun s _ hpos => absurd hpos (by simp [toSend, owed_nil])
  | refuse ht hq =>
      refine hc.setHandle rfl rfl (setHandle_handle h _ _) fun _ => ?_
      exact hc.fits_none (by simp [toSend, ht, owed_nil])

/-! ### A session that has more to come than its channel has room for -/

/-- A session waits for the hub, and the hub has more to send to it than fits. -/
structure Overfull (cap : Nat) (h : Hub) (s : SessionId) : Prop where
  waits : (h.handle s).awaitsRemoval = true
  more : ∃ l, h.channel s = some l ∧ cap < l.length + owed h.toSend s

def Bounded (cap : Nat) (h : Hub) : Prop := ∀ s l, h.channel s = some l → l.length ≤ cap

theorem Bounded.step {act : HubAction} (hb : h.Bounded cap) (hstep : h.step m cap act = some h') :
    h'.Bounded cap := by
  cases step_cases hstep with
  | @recv s p d l hs hl =>
      intro t l' hl'
      by_cases hts : t = s
      · subst hts
        have hle := hb t _ hl
        simp only [Hub.setChannel, Function.update_self, Option.some.injEq] at hl'
        subst hl'
        exact (Nat.le_succ _).trans hle
      · exact hb t l' (by simpa [Hub.setChannel, hts] using hl')
  | @hangUp s hs =>
      intro t l' hl'
      by_cases hts : t = s
      · subst hts
        simp [Hub.setChannel] at hl'
      · exact hb t l' (by simpa [Hub.setChannel, hts] using hl')
  | @send s d ds next l ht hl hroom =>
      intro t l' hl'
      by_cases hts : t = s
      · subst hts
        simp only [Hub.setChannel, Function.update_self, Option.some.injEq] at hl'
        subst hl'
        rw [List.length_append]
        exact hroom
      · exact hb t l' (by simpa [Hub.setChannel, hts] using hl')
  | _ => exact hb

/-- What is more than the room is still to be sent. -/
theorem Overfull.sending {s : SessionId} (ho : h.Overfull cap s) (hb : h.Bounded cap) :
    ∃ ds next, h.task = .sending ds next ∧ 0 < owed ds s := by
  obtain ⟨l, hl, hmore⟩ := ho.more
  have hle := hb s l hl
  cases htask : h.task with
  | sending ds next =>
      refine ⟨ds, next, rfl, ?_⟩
      rw [toSend, htask] at hmore
      show 0 < owed ds s
      have hmore' : cap < l.length + owed ds s := hmore
      omega
  | _ =>
      rw [toSend, htask] at hmore
      exact absurd hmore (Nat.not_lt.mpr hle)

/-- The handle of another session moves on, or another channel changes. -/
theorem Overfull.of_eq {s : SessionId} (ho : h.Overfull cap s) (hhandle : h'.handle s = h.handle s)
    (hchannel : h'.channel s = h.channel s) (howed : owed h'.toSend s = owed h.toSend s) :
    h'.Overfull cap s := by
  refine ⟨hhandle ▸ ho.waits, ?_⟩
  rw [hchannel, howed]
  exact ho.more

/-- No step lets the session go: the hub does not get past it, and it does not receive. -/
theorem Overfull.step {act : HubAction} {s : SessionId} (ho : h.Overfull cap s)
    (hb : h.Bounded cap) (hstep : h.step m cap act = some h') : h'.Overfull cap s := by
  obtain ⟨ds, next, htask, hpos⟩ := ho.sending hb
  have hne : ∀ {t}, (h.handle t).awaitsRemoval = false → s ≠ t := by
    rintro t ht rfl
    rw [ho.waits] at ht
    cases ht
  cases step_cases hstep with
  | @subscribe t p hs hp =>
      have hst := hne (t := t) (by rw [hs]; rfl)
      exact ho.of_eq (by rw [enqueue_handle, if_neg hst]) rfl rfl
  | @unsubscribe t p hs =>
      have hst := hne (t := t) (by rw [hs]; rfl)
      exact ho.of_eq (by rw [enqueue_handle, if_neg hst]) rfl rfl
  | @closeHeld t p hs =>
      have hst := hne (t := t) (by rcases hs with hs | hs <;> rw [hs] <;> rfl)
      exact ho.of_eq (by rw [enqueue_handle, if_neg hst]) rfl rfl
  | @close t hs =>
      have hst := hne (t := t) (by rw [hs]; rfl)
      exact ho.of_eq (by rw [setHandle_handle, if_neg hst]) rfl rfl
  | @recv t p d l hs hl =>
      have hst := hne (t := t) (by rw [hs]; rfl)
      exact ho.of_eq rfl (by simp [Hub.setChannel, hst]) rfl
  | @hangUp t hs =>
      have hst : s ≠ t := by
        refine hne ?_
        rcases hs with ⟨e, hs⟩ | hs <;> rw [hs] <;> rfl
      exact ho.of_eq rfl (by simp [Hub.setChannel, hst]) rfl
  | @send t d ds' next' l ht hl hroom =>
      have htoSend : h.toSend = (t, d) :: ds' := by rw [toSend, ht]
      by_cases hst : s = t
      -- a send to the session moves one delivery from what is owed to what waits: the sum stays
      · subst hst
        refine ⟨ho.waits, l ++ [d], by simp [Hub.setChannel], ?_⟩
        obtain ⟨l₀, hl₀, hmore⟩ := ho.more
        cases hl.symm.trans hl₀
        rw [htoSend, owed_cons_self] at hmore
        show cap < (l ++ [d]).length + owed ds' s
        rw [List.length_append, List.length_singleton]
        omega
      · refine ho.of_eq rfl (by simp [Hub.setChannel, hst]) ?_
        rw [htoSend, owed_cons_of_ne (Ne.symm hst)]
        rfl
  | @sendNobody t d ds' next' ht hl =>
      have hst : t ≠ s := by
        rintro rfl
        obtain ⟨l, hl', -⟩ := ho.more
        rw [hl] at hl'
        cases hl'
      refine ho.of_eq rfl rfl ?_
      rw [show h.toSend = (t, d) :: ds' by rw [toSend, ht], owed_cons_of_ne hst]
      rfl
  -- the hub is not past its sends, as one to the session is still owed
  | reply ht | sent ht | disconnect ht =>
      rw [htask] at ht
      cases ht
      exact absurd hpos (Nat.lt_irrefl 0)
  | takeSubscribe ht | takeUnsubscribe ht | accepted ht | rejected ht | removed ht | kept ht
  | message ht | lost ht | connected ht | connectFailed ht | refuse ht =>
      rw [htask] at ht
      cases ht

theorem not_fits {s : SessionId} {ds : List (SessionId × Delivery)} (hf : ¬ h.Fits cap s ds) :
    ∃ l, h.channel s = some l ∧ cap < l.length + owed ds s := by
  by_contra hnone
  refine hf fun l hl => Nat.le_of_not_lt fun hlt => hnone ⟨l, hl, hlt⟩

/-- A step that finds too little room leaves a session overfull. -/
theorem overfull_of_not_roomy {act : HubAction} (hok : ¬ h.Roomy m cap act)
    (hstep : h.step m cap act = some h') : ∃ s, h'.Overfull cap s := by
  cases step_cases hstep with
  | @unsubscribe s p hs =>
      exact ⟨s, by rw [enqueue_handle, if_pos rfl]; rfl, not_fits hok⟩
  | @closeHeld s p hs =>
      refine ⟨s, by rw [enqueue_handle, if_pos rfl]; rfl, not_fits fun hf => hok fun _ => hf⟩
  | close hs => exact absurd (fun hne => absurd hs hne) hok
  | accepted ht | removed ht =>
      have hroom : ¬ ∀ s, (h.handle s).awaitsRemoval = true →
          0 < owed (h.started m (.answer (.ok ()))) s →
          h.Fits cap s (h.started m (.answer (.ok ()))) := hok
      simp only [started, ht, not_forall] at hroom
      obtain ⟨s, hwaits, -, hf⟩ := hroom
      exact ⟨s, hwaits, not_fits hf⟩
  | message ht horder | lost ht horder | connected ht horder | connectFailed ht horder =>
      simp only [Roomy, not_forall] at hok
      obtain ⟨s, hwaits, -, hf⟩ := hok
      exact ⟨s, hwaits, not_fits hf⟩
  | _ => exact absurd (fun s _ hpos => absurd hpos (Nat.lt_irrefl 0)) hok

/-! ### Every run -/

theorem clear_run {acts : List HubAction} (hrun : run (Hub.step m cap) .init acts = some h)
    (hok : Meets (Hub.step m cap) (Roomy m cap) .init acts) : h.Clear cap :=
  invariant_of_meets (fun hc hok hstep => hc.step hok hstep) clear_init hok hrun

/-- A session that is overfull waits in every state that follows. -/
theorem Overfull.run {acts : List HubAction} {s : SessionId} (ho : h.Overfull cap s)
    (hb : h.Bounded cap) (hrun : run (Hub.step m cap) h acts = some h') : h'.Overfull cap s :=
  (invariant (P := fun h => Bounded cap h ∧ h.Overfull cap s)
    (fun hP hstep => ⟨hP.1.step hstep, hP.2.step hP.1 hstep⟩) ⟨hb, ho⟩ hrun).2

/-- A run with a step that finds too little room ends with a session overfull. -/
theorem overfull_run {acts : List HubAction} (hb : h.Bounded cap)
    (hrun : run (Hub.step m cap) h acts = some h')
    (hok : ¬ Meets (Hub.step m cap) (Roomy m cap) h acts) : ∃ s, h'.Overfull cap s := by
  induction acts generalizing h with
  | nil => exact absurd trivial hok
  | cons act acts ih =>
      obtain ⟨next, hstep, hrest⟩ := Option.bind_eq_some_iff.mp hrun
      rw [meets_cons hstep] at hok
      by_cases hroomy : h.Roomy m cap act
      · exact ih (hb.step hstep) hrest fun hmeets => hok ⟨hroomy, hmeets⟩
      · obtain ⟨s, ho⟩ := overfull_of_not_roomy hroomy hstep
        exact ⟨s, ho.run (hb.step hstep) hrest⟩

end Hub

/-- Hub and sessions wait for each other in no state of a run whose steps all find room; and a
run with one that does not leaves a session that waits for ever. -/
theorem hub_waits {m : Market} {cap : Nat} {acts : List HubAction} {h : Hub}
    (hrun : run (Hub.step m cap) .init acts = some h) :
    (Meets (Hub.step m cap) (Hub.Roomy m cap) .init acts → ¬ h.Jammed cap)
    ∧ (¬ Meets (Hub.step m cap) (Hub.Roomy m cap) .init acts →
      ∃ s, ∀ acts' h', run (Hub.step m cap) h acts' = some h' →
        (h'.handle s).awaitsRemoval = true) := by
  refine ⟨fun hok => (Hub.clear_run hrun hok).not_jammed, fun hok => ?_⟩
  have hinit : Hub.Bounded cap .init := Hub.clear_init.bounded
  obtain ⟨s, ho⟩ := Hub.overfull_run hinit hrun hok
  have hb : h.Bounded cap := invariant (P := Hub.Bounded cap) (fun hb hs => hb.step hs) hinit hrun
  exact ⟨s, fun acts' h' hrun' => (ho.run hb hrun').waits⟩

section Spy

/-- The session leaves, and its removal is answered. -/
def spyLeft : List HubAction :=
  spySubscribed ++ [.unsubscribe 0, .take, .answer (.ok ()), .send, .proceed]

theorem hub_waits_left : ∃ h, run (Hub.step .stock 4) .init spyLeft = some h
    ∧ h.handle 0 = .unsubscribed none ∧ ¬ h.Jammed 4 := by
  obtain ⟨h, hrun, hleft⟩ : ∃ h, run (Hub.step .stock 4) .init spyLeft = some h
      ∧ h.handle 0 = .unsubscribed none := ⟨_, rfl, rfl⟩
  refine ⟨h, hrun, hleft, (hub_waits hrun).1 ?_⟩
  -- the one session is not left waiting, so every step found room
  by_contra hno
  obtain ⟨s, ho⟩ := Hub.overfull_run Hub.clear_init.bounded hrun hno
  have hwaits := ho.waits
  cases hs : h.handle s with
  | unsubscribing p | closing p =>
      have hmem : s = 0 ∧ p = spyTrades := by
        simpa [spyLeft, spySubscribed] using (Traced.run hrun).held s p (by rw [hs]; rfl)
      rw [hmem.1, hleft] at hs
      cases hs
  | _ =>
      rw [hs] at hwaits
      cases hwaits

/-- Two controls fill the channel, a trade is on its way, and the session leaves. -/
theorem hub_jams : ∃ h, run (Hub.step .stock 2) .init (spySubscribed ++
      [.message [0] (translateStockMessage (.trade ⟨"SPY", ⟨0⟩, 0, 0⟩) 0), .unsubscribe 0]) = some h
    ∧ h.Jammed 2 := by
  refine ⟨_, rfl, 0, _, _, _, _, rfl, rfl, by decide, rfl⟩

end Spy

end Alpaca

end Datamancer
