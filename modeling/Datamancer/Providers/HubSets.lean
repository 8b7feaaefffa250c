import Datamancer.Providers.HubTrace

/-!
# Datamancer.Providers.HubSets

The routes of a hub and its aggregate subscription set. Both are changed together by the
commands of a connected hub, but the set is by symbol while the routes are by pair: a pair
taken out takes the set's entry of every other pair of its symbol and kind with it. And a
removal that is refused or rejected is the last that is heard of a handle that closes. Where
neither happens (`Orderly`) the two agree and nothing stays of a handle that has closed,
unsubscribed or failed.
-/

namespace Datamancer

open ActionSystem

namespace Alpaca

theorem SameTopic.symm {p q : Pair} (h : SameTopic p q) : SameTopic q p := ⟨h.1.symm, h.2.symm⟩

theorem SameTopic.trans {p q r : Pair} (h : SameTopic p q) (h' : SameTopic q r) : SameTopic p r :=
  ⟨h.1.trans h'.1, h.2.trans h'.2⟩

/-- The answer the hub gives once everything is sent. -/
def Next.answer : Next → Option (HubCommand × Except Error Unit)
  | .reply c res => some (c, res)
  | .serve | .disconnect => none

/-- The handle has closed, has unsubscribed, or its `Subscribe` failed. -/
def HandleState.Done : HandleState → Prop
  | closed | unsubscribed none | failed _ => True
  | fresh | subscribing _ | subscribed _ | unsubscribing _ | unsubscribed (some _) | closing _ =>
      False

theorem HandleState.Done.cases {st : HandleState} (h : st.Done) :
    st = .closed ∨ st = .unsubscribed none ∨ ∃ e, st = .failed e := by
  cases st with
  | unsubscribed slot =>
      cases slot with
      | none => exact .inr (.inl rfl)
      | some p => exact h.elim
  | failed e => exact .inr (.inr ⟨e, rfl⟩)
  | closed => exact .inl rfl
  | _ => exact h.elim

namespace Hub

/-- Some route is of the pair's symbol and kind. -/
def RoutesTopic (h : Hub) (p : Pair) : Prop := ∃ r ∈ h.routes, SameTopic r p

/-- No route but the pair's own is of its symbol and kind. -/
def Alone (h : Hub) (p : Pair) : Prop := ∀ r ∈ h.routes, SameTopic r p → r = p

/-- The set is the projection of the routes' keys, and the pair of a handle that has closed
is in neither unless a handle that is not done has subscribed its symbol and kind. While the
upstream is asked to remove a pair, the pair is out of the set and has its route still. -/
structure Consistent (past : List HubAction) (h : Hub) : Prop where
  projected : (∀ s p, h.task ≠ .asking (.unsubscribe s p)) →
    ∀ p, Subscribes h.subs p ↔ h.RoutesTopic p
  left : ∀ s p, HubAction.subscribe s p ∈ past → h.handle s = .closed →
    (∀ t q, HubAction.subscribe t q ∈ past → SameTopic q p → (h.handle t).Done) →
      p ∉ h.routes ∧ ¬ Subscribes h.subs p
  gone : ∀ p s, (h.handle s).Done → h.routes.lookup p ≠ some s

/-- What is taken out of the set is of one pair only; a removal that fails is of a pair that
has a route; and the removal a closing handle asks for does not fail while it has one. -/
def Orderly (h : Hub) : HubAction → Prop
  | .answer res =>
      (∀ s p, h.task = .asking (.subscribe s p) → (∃ e, res = .error e) → h.Alone p)
      ∧ (∀ s p, h.task = .asking (.unsubscribe s p) → res = .ok () → h.Alone p)
      ∧ ∀ s p, h.task = .asking (.unsubscribe s p) → (∃ e, res = .error e) →
        h.RoutesTopic p ∧ (h.handle s = .closing p → h.routes.lookup p ≠ some s)
  | .refuse _ => ∀ s p queue, h.queue = .unsubscribe s p :: queue → h.handle s = .closing p →
      h.routes.lookup p ≠ some s
  | _ => True

/-- Routes and set are as before. -/
def SameSets (h h' : Hub) : Prop :=
  (∀ p, h'.routes.lookup p = h.routes.lookup p) ∧ ∀ p, Subscribes h'.subs p ↔ Subscribes h.subs p

/-- The connected hub takes a `Subscribe`, the upstream rejects it, and whatever the handles
do meanwhile the hub ends up in `h'`. -/
def Rejects (m : Market) (cap : Nat) (h : Hub) (p : Pair) (h' : Hub) : Prop :=
  ∃ s queue h₁ acts h₂ e, h.queue = .subscribe s p :: queue ∧ h.step m cap .take = some h₁
    ∧ run (Hub.step m cap) h₁ acts = some h₂ ∧ (∀ res, HubAction.answer res ∉ acts)
    ∧ h₂.step m cap (.answer (.error e)) = some h'

/-! ### The set and the routes -/

variable {m : Market} {cap : Nat} {past : List HubAction} {h h' : Hub}

/-- The set against the routes: all of them, less the pair the upstream is asked to remove. -/
def Projected (h : Hub) : Prop :=
  match h.task with
  | .asking (.unsubscribe _ p) => ∀ q, Subscribes h.subs q ↔ h.RoutesTopic q ∧ ¬ SameTopic q p
  | _ => ∀ q, Subscribes h.subs q ↔ h.RoutesTopic q

theorem Projected.le (hp : h.Projected) {q : Pair} (hq : Subscribes h.subs q) :
    h.RoutesTopic q := by
  rw [Projected] at hp
  split at hp
  · exact ((hp q).mp hq).1
  · exact (hp q).mp hq

theorem projected_iff (hne : ∀ s p, h.task ≠ .asking (.unsubscribe s p)) :
    h.Projected ↔ ∀ q, Subscribes h.subs q ↔ h.RoutesTopic q := by
  rw [Projected]
  split
  · exact absurd ‹_› (hne _ _)
  · exact Iff.rfl

theorem projected_unsubscribe {s : SessionId} {p : Pair}
    (ht : h.task = .asking (.unsubscribe s p)) :
    h.Projected ↔ ∀ q, Subscribes h.subs q ↔ h.RoutesTopic q ∧ ¬ SameTopic q p := by
  rw [Projected, ht]

/-- Without the one route of a symbol and kind the others are left. -/
theorem routesTopic_erase {p q : Pair} (hal : h.Alone p) :
    (∃ r ∈ h.routes.erase p, SameTopic r q) ↔ h.RoutesTopic q ∧ ¬ SameTopic q p := by
  constructor
  · rintro ⟨r, hr, hrq⟩
    obtain ⟨hne, hr⟩ := AList.mem_erase.mp hr
    exact ⟨⟨r, hr, hrq⟩, fun hqp => hne (hal r hr (hrq.trans hqp))⟩
  · rintro ⟨⟨r, hr, hrq⟩, hqp⟩
    refine ⟨r, AList.mem_erase.mpr ⟨?_, hr⟩, hrq⟩
    rintro rfl
    exact hqp hrq.symm

theorem routesTopic_insert {p q : Pair} {s : SessionId} :
    (∃ r ∈ h.routes.insert p s, SameTopic r q) ↔ h.RoutesTopic q ∨ SameTopic q p := by
  constructor
  · rintro ⟨r, hr, hrq⟩
    rcases (AList.mem_insert _).mp hr with rfl | hr
    · exact .inr hrq.symm
    · exact .inl ⟨r, hr, hrq⟩
  · rintro (⟨r, hr, hrq⟩ | hqp)
    · exact ⟨r, (AList.mem_insert _).mpr (.inr hr), hrq⟩
    · exact ⟨p, (AList.mem_insert _).mpr (.inl rfl), hqp.symm⟩

theorem Projected.step (hp : h.Projected) (ht : Traced m past h) {act : HubAction}
    (hok : Orderly h act) (hstep : h.step m cap act = some h') : h'.Projected := by
  have hstreamed : ∀ s p, HubAction.subscribe s p ∈ past → Streamed p.2 :=
    fun s p hs => streamed_of_supports (ht.supported s p hs)
  cases step_cases hstep with
  | @takeSubscribe s p queue htask hq =>
      have hstr := hstreamed s p (ht.queued (.subscribe s p) (by simp [hq]))
      rw [projected_iff (by simp [htask])] at hp
      refine (projected_iff (by simp)).mpr fun q => ?_
      show Subscribes (applyPairToList h.subs p true) q ↔ ∃ r ∈ h.routes.insert p s, SameTopic r q
      rw [subscribes_add hstr, hp, routesTopic_insert]
  | @takeUnsubscribe s p queue htask hq =>
      have hstr := hstreamed s p (ht.queued (.unsubscribe s p) (by simp [hq]))
      rw [projected_iff (by simp [htask])] at hp
      refine (projected_unsubscribe rfl).mpr fun q => ?_
      show Subscribes (applyPairToList h.subs p false) q ↔ h.RoutesTopic q ∧ ¬ SameTopic q p
      -- the topic leaves the set at once, and the route only with the answer
      rw [subscribes_remove hstr, hp]
  -- the rollback takes the topic out, so no other route of it may remain
  | @rejected s p e htask =>
      have hstr := hstreamed s p (ht.asked _ htask)
      rw [projected_iff (by simp [htask])] at hp
      refine (projected_iff (by simp)).mpr fun q => ?_
      show Subscribes (applyPairToList h.subs p false) q ↔ ∃ r ∈ h.routes.erase p, SameTopic r q
      rw [subscribes_remove hstr, hp, routesTopic_erase (hok.1 s p htask ⟨e, rfl⟩)]
  | @removed s p htask =>
      rw [projected_unsubscribe htask] at hp
      refine (projected_iff (by simp)).mpr fun q => ?_
      show Subscribes h.subs q ↔ ∃ r ∈ h.routes.erase p, SameTopic r q
      rw [hp, routesTopic_erase (hok.2.1 s p htask rfl)]
  -- the topic is put back, so some route of it has to be there still
  | @kept s p e htask =>
      have hstr := hstreamed s p (ht.asked _ htask)
      obtain ⟨r, hr, hrp⟩ := (hok.2.2 s p htask ⟨e, rfl⟩).1
      rw [projected_unsubscribe htask] at hp
      refine (projected_iff (by simp)).mpr fun q => ?_
      show Subscribes (applyPairToList h.subs p true) q ↔ h.RoutesTopic q
      rw [subscribes_add hstr, hp]
      constructor
      · rintro (hq | hq)
        · exact hq.1
        · exact ⟨r, hr, hrp.trans hq.symm⟩
      · intro hq
        by_cases hqp : SameTopic q p
        · exact .inr hqp
        · exact .inl ⟨hq, hqp⟩
  | subscribe | unsubscribe | closeHeld | close | recv | hangUp | refuse => exact hp
  | accepted htask | message htask | lost htask | connected htask | connectFailed htask
  | send htask | sendNobody htask | reply htask | sent htask | disconnect htask =>
      rw [projected_iff (by simp [htask])] at hp
      exact (projected_iff (by simp)).mpr hp

/-! ### Handles that are done -/

/-- The command the hub has an answer for, and that answer. -/
def replying (h : Hub) : Option (HubCommand × Except Error Unit) :=
  match h.task with
  | .sending _ next => next.answer
  | _ => none

/-- The handle has closed or will without another word to the hub. -/
def Off (h : Hub) (s : SessionId) : Prop :=
  h.handle s = .closed ∨ h.handle s = .unsubscribed none
    ∨ ∃ p res, h.replying = some (.unsubscribe s p, res)
      ∧ (res = .ok () ∨ h.handle s = .closing p)

/-- No route is left of a handle that is done. -/
def Gone (h : Hub) : Prop := ∀ p s, h.routes.lookup p = some s → ¬ h.Off s

theorem gone_init : Gone .init := fun p s hp => by simp [init] at hp

theorem Gone.of_le (hg : h.Gone) (hoff : ∀ s, h'.Off s → h.Off s)
    (hroutes : ∀ p s, h'.routes.lookup p = some s → h.routes.lookup p = some s) : h'.Gone :=
  fun p s hp ho => hg p s (hroutes p s hp) (hoff s ho)

theorem mem_pending_of_replying {c : HubCommand} {res : Except Error Unit}
    (hr : h.replying = some (c, res)) : c ∈ h.pending := by
  rw [replying] at hr
  split at hr
  · rename_i ds next htask
    cases next with
    | reply d r =>
        cases hr
        simp [pending, htask, HubTask.command, Next.command]
    | serve => cases hr
    | disconnect => cases hr
  · cases hr

/-- A handle that awaits nothing is done only by closing. -/
theorem Off.of_setHandle (hs : Synced h) {s t : SessionId} {st : HandleState}
    (hnone : (h.handle s).command s = none)
    (hst : st = .closed ∨ st = .unsubscribed none → h.Off s) (ho : (h.setHandle s st).Off t) :
    h.Off t := by
  by_cases hts : t = s
  · subst hts
    rcases ho with ho | ho | ⟨p, res, hr, -⟩
    · exact hst (.inl (by simpa using ho))
    · exact hst (.inr (by simpa using ho))
    · exact absurd rfl (hs.session_ne hnone (mem_pending_of_replying hr))
  · simpa [Off, hts, replying] using ho

/-- What is done without an answer being under way has a handle that says so. -/
theorem Off.of_handle {s : SessionId} (ho : h'.Off s) (hhandle : h'.handle s = h.handle s)
    (hreply : ∀ p res, h'.replying ≠ some (.unsubscribe s p, res)) : h.Off s := by
  rcases ho with ho | ho | ⟨p, res, hr, -⟩
  · exact .inl (hhandle ▸ ho)
  · exact .inr (.inl (hhandle ▸ ho))
  · exact absurd hr (hreply p res)

/-- Sending goes on. -/
theorem Off.of_eq {s : SessionId} (ho : h'.Off s) (hhandle : h'.handle = h.handle)
    (hreply : h'.replying = h.replying) : h.Off s := by
  rwa [Off, hhandle, hreply] at ho

/-- The handle whose command is answered is done by a removal that went well, or because it
is closing. -/
theorem off_answered {s : SessionId} {c : HubCommand} {res : Except Error Unit}
    (hc : (h.handle s).command s = some c)
    (ho : (h.handle s).answered res = .closed ∨ (h.handle s).answered res = .unsubscribed none) :
    ∃ p, c = .unsubscribe s p ∧ (res = .ok () ∨ h.handle s = .closing p) := by
  cases hh : h.handle s with
  | unsubscribing p =>
      rw [hh] at hc ho
      cases hc
      rcases res with e | ⟨⟩
      · simp [HandleState.answered] at ho
      · exact ⟨p, rfl, .inl rfl⟩
  | closing p =>
      rw [hh] at hc
      cases hc
      exact ⟨p, rfl, .inr rfl⟩
  | subscribing p => rcases res with e | ⟨⟩ <;> simp [hh, HandleState.answered] at ho
  | _ =>
      rw [hh] at hc
      cases hc

theorem Gone.step (hg : h.Gone) (ht : Traced m past h) (hs : Synced h) {act : HubAction}
    (hok : Orderly h act) (hstep : h.step m cap act = some h') : h'.Gone := by
  cases step_cases hstep with
  | subscribe hf hp =>
      exact hg.of_le (fun t => Off.of_setHandle hs (by rw [hf]; rfl) (by simp)) fun _ _ => id
  | unsubscribe hf =>
      exact hg.of_le (fun t => Off.of_setHandle hs (by rw [hf]; rfl) (by simp)) fun _ _ => id
  | closeHeld hf =>
      exact hg.of_le (fun t => Off.of_setHandle hs (by rcases hf with hf | hf <;> rw [hf] <;> rfl)
        (by simp)) fun _ _ => id
  | close hf =>
      exact hg.of_le (fun t => Off.of_setHandle hs (by rw [hf]; rfl)
        fun _ => .inr (.inl hf)) fun _ _ => id
  | @takeSubscribe s p queue htask hq =>
      have hhandle := hs.awaited (.subscribe s p) (by simp [pending, hq])
      intro r t hr ho
      have ho' : h.Off t := ho.of_handle rfl (by simp [replying])
      by_cases hrp : r = p
      · subst hrp
        rw [AList.lookup_insert] at hr
        cases hr
        rcases ho with ho | ho | ⟨q, res, hreply, -⟩
        · rw [HubCommand.session, show h.handle s = _ from ho] at hhandle
          cases hhandle
        · rw [HubCommand.session, show h.handle s = _ from ho] at hhandle
          cases hhandle
        · cases hreply
      · exact hg r t (by rwa [AList.lookup_insert_ne hrp] at hr) ho'
  | @removed s p htask =>
      intro r t hr ho
      have hr' := lookup_of_erase hr
      by_cases hts : t = s
      · -- the session's only pair is the one that has just been taken out
        obtain rfl := ht.once t r p (ht.routed r t hr') (hts ▸ ht.asked _ htask)
        simp at hr
      · refine hg r t hr' (ho.of_handle rfl fun q res hreply => hts ?_)
        cases hreply
        rfl
  | @kept s p e htask =>
      intro r t hr ho
      by_cases hts : t = s
      · subst hts
        obtain rfl := ht.once t r p (ht.routed r t hr) (ht.asked _ htask)
        rcases ho with ho | ho | ⟨q, res, hreply, hres | hclosing⟩
        · exact hg r t hr (.inl ho)
        · exact hg r t hr (.inr (.inl ho))
        · cases hreply
          cases hres
        · cases hreply
          exact ((hok.2.2 t r htask ⟨e, rfl⟩).2 hclosing) hr
      · refine hg r t hr (ho.of_handle rfl fun q res hreply => hts ?_)
        cases hreply
        rfl
  | @reply c res htask =>
      have hreply : h.replying = some (c, res) := by simp [replying, htask, Next.answer]
      refine hg.of_le (fun t ho => ?_) fun _ _ => id
      by_cases hts : t = c.session
      · subst hts
        have ho' := ho
        simp only [Off, setHandle_handle, if_true, replying, reduceCtorEq, false_and,
          exists_const, exists_false, or_false] at ho'
        obtain ⟨p, hcp, hp⟩ := off_answered (hs.awaited c (mem_pending_of_replying hreply)) ho'
        exact .inr (.inr ⟨p, res, by rw [hreply, ← hcp], hp⟩)
      · exact ho.of_handle (by simp [hts]) (by simp [replying])
  | @refuse park c queue htask hq =>
      have hc := hs.awaited c (by simp [pending, hq])
      intro r t hr ho
      by_cases hts : t = c.session
      · subst hts
        simp only [Off, setHandle_handle, if_true, replying, htask, setHandle_task, reduceCtorEq,
          false_and, exists_const, exists_false, or_false] at ho
        obtain ⟨p, hcp, hres | hclosing⟩ := off_answered hc ho
        · cases hres
        · have hsub := ht.queued c (by simp [hq])
          rw [hcp] at hsub hq hclosing hr
          obtain rfl := ht.once _ r p (ht.routed r _ hr) hsub
          exact hok _ r queue hq hclosing hr
      · exact hg r t hr (ho.of_handle (by simp [hts]) (by simp [replying, htask]))
  | rejected htask =>
      exact hg.of_le (fun t ho => ho.of_handle rfl (by simp [replying, Next.answer]))
        fun _ _ => lookup_of_erase
  | send htask hl =>
      exact hg.of_le (fun t ho => ho.of_eq rfl (by simp [replying, htask, Next.answer]))
        fun _ _ => id
  | sendNobody htask =>
      exact hg.of_le (fun t ho => ho.of_eq rfl (by simp [replying, htask, Next.answer]))
        fun _ _ => id
  | recv | hangUp => exact hg
  | accepted | takeUnsubscribe | message | lost | connected | connectFailed | sent | disconnect =>
      exact hg.of_le (fun t ho => ho.of_handle rfl (by simp [replying, Next.answer])) fun _ _ => id

/-! ### Handles that were never served -/

/-- The hub has not taken the handle's `Subscribe`, or has turned it down. -/
def Barred (h : Hub) (s : SessionId) : Prop :=
  h.handle s = .fresh ∨ (∃ e, h.handle s = .failed e) ∨ (∃ p, .subscribe s p ∈ h.queue)
    ∨ ∃ p e, h.replying = some (.subscribe s p, .error e)

/-- Such a handle has no route. -/
def NoneBarred (h : Hub) : Prop := ∀ p s, h.routes.lookup p = some s → ¬ h.Barred s

theorem noneBarred_init : NoneBarred .init := fun p s hp => by simp [init] at hp

theorem NoneBarred.of_le (hb : h.NoneBarred) (hbar : ∀ s, h'.Barred s → h.Barred s)
    (hroutes : ∀ p s, h'.routes.lookup p = some s → h.routes.lookup p = some s) :
    h'.NoneBarred := fun p s hp ho => hb p s (hroutes p s hp) (hbar s ho)

/-- A handle that has subscribed goes on, or one subscribes. -/
theorem Barred.of_enqueue {s t : SessionId} {st : HandleState}
    (hfresh : st ≠ .fresh) (hfailed : ∀ e, st ≠ .failed e)
    (hst : ∀ c, st.command s = some c → c.session = s ∧ (h.handle s = .fresh ∨ c = .unsubscribe s c.pair))
    (ho : (h.enqueue s st).Barred t) : h.Barred t := by
  have hreply : (h.enqueue s st).replying = h.replying := rfl
  rw [Barred, enqueue_handle, hreply] at ho
  rcases ho with ho | ⟨e, ho⟩ | ⟨p, ho⟩ | ho
  · split_ifs at ho
    · exact absurd ho hfresh
    · exact .inl ho
  · split_ifs at ho
    · exact absurd ho (hfailed e)
    · exact .inr (.inl ⟨e, ho⟩)
  · rcases List.mem_append.mp ho with ho | ho
    · exact .inr (.inr (.inl ⟨p, ho⟩))
    · obtain ⟨hsession, hs | hc⟩ := hst _ (Option.mem_toList.mp ho)
      · obtain rfl : t = s := hsession
        exact .inl hs
      · cases hc
  · exact .inr (.inr (.inr ho))

/-- The hub goes on without turning down a `Subscribe`. -/
theorem Barred.of_handle {s : SessionId} (ho : h'.Barred s) (hhandle : h'.handle s = h.handle s)
    (hqueue : ∀ c ∈ h'.queue, c ∈ h.queue)
    (hreply : ∀ p e, h'.replying ≠ some (.subscribe s p, .error e)) : h.Barred s := by
  rcases ho with ho | ⟨e, ho⟩ | ⟨p, ho⟩ | ⟨p, e, ho⟩
  · exact .inl (hhandle ▸ ho)
  · exact .inr (.inl ⟨e, hhandle ▸ ho⟩)
  · exact .inr (.inr (.inl ⟨p, hqueue _ ho⟩))
  · exact absurd ho (hreply p e)

/-- Sending goes on. -/
theorem Barred.of_eq {s : SessionId} (ho : h'.Barred s) (hhandle : h'.handle = h.handle)
    (hqueue : h'.queue = h.queue) (hreply : h'.replying = h.replying) : h.Barred s := by
  rwa [Barred, hhandle, hqueue, hreply] at ho

/-- A handle fails by the answer to its `Subscribe`. -/
theorem failed_answered {s : SessionId} {c : HubCommand} {res : Except Error Unit}
    (hc : (h.handle s).command s = some c)
    (ho : (h.handle s).answered res = .fresh ∨ ∃ e, (h.handle s).answered res = .failed e) :
    ∃ p e, c = .subscribe s p ∧ res = .error e := by
  cases hh : h.handle s with
  | subscribing p =>
      rw [hh] at hc
      cases hc
      rcases res with e | ⟨⟩
      · exact ⟨p, e, rfl, rfl⟩
      · simp [hh, HandleState.answered] at ho
  | unsubscribing p | closing p =>
      rcases res with e | ⟨⟩ <;> simp [hh, HandleState.answered] at ho
  | _ =>
      rw [hh] at hc
      cases hc

/-- Turning down a `Subscribe` is all that can bar the handle whose command is answered. -/
theorem Barred.of_answered {c : HubCommand} {res : Except Error Unit} {queue : List HubCommand}
    {task : HubTask} (hc : (h.handle c.session).command c.session = some c)
    (hqueue : ∀ d ∈ queue, d ∈ h.queue) (htask : ∀ ds next, task ≠ .sending ds next)
    (hturned : ∀ p e, c = .subscribe c.session p → res = .error e → h.Barred c.session)
    (ho : Barred { h.setHandle c.session ((h.handle c.session).answered res) with queue, task }
      c.session) : h.Barred c.session := by
  have hreply : replying
      { h.setHandle c.session ((h.handle c.session).answered res) with queue, task } = none := by
    cases task with
    | sending ds next => exact absurd rfl (htask ds next)
    | down | serving | asking => rfl
  have hanswered : ∀ st, (h.handle c.session).answered res = st →
      (st = .fresh ∨ ∃ e, st = .failed e) → h.Barred c.session := by
    rintro _ rfl hst
    obtain ⟨p, e, hcp, hres⟩ := failed_answered hc hst
    exact hturned p e hcp hres
  rcases ho with ho | ⟨e, ho⟩ | ⟨p, ho⟩ | ⟨p, e, ho⟩
  · exact hanswered _ (by simpa using ho) (.inl rfl)
  · exact hanswered _ (by simpa using ho) (.inr ⟨e, rfl⟩)
  · exact .inr (.inr (.inl ⟨p, hqueue _ ho⟩))
  · rw [hreply] at ho
    cases ho

/-- The handle whose `Subscribe` the hub takes has sent that one only, so nothing bars it any
more. -/
theorem not_barred_of_taken {s : SessionId} {p : Pair} {queue : List HubCommand}
    {routes : AList fun _ : Pair => SessionId} {subs : StockSubscriptionList} (hs : Synced h)
    (htask : h.task = .serving) (hq : h.queue = .subscribe s p :: queue) :
    ¬ Barred { h with queue, routes, subs, task := .asking (.subscribe s p) } s := by
  have hpending : h.pending = .subscribe s p :: queue := by
    simp [pending, htask, hq, HubTask.command]
  have hhandle := hs.awaited (.subscribe s p) (by simp [hpending])
  have honce := List.pairwise_cons.mp (hpending ▸ hs.once)
  rintro (ho | ⟨e, ho⟩ | ⟨q, ho⟩ | ⟨q, e, ho⟩)
  · rw [HubCommand.session, show h.handle s = _ from ho] at hhandle
    cases hhandle
  · rw [HubCommand.session, show h.handle s = _ from ho] at hhandle
    cases hhandle
  · exact honce.1 _ ho rfl
  · cases ho

theorem NoneBarred.step (hb : h.NoneBarred) (ht : Traced m past h) (hs : Synced h)
    {act : HubAction} (hstep : h.step m cap act = some h') : h'.NoneBarred := by
  cases step_cases hstep with
  | @subscribe s p hf hp =>
      refine hb.of_le (fun t => Barred.of_enqueue (by simp) (by simp) fun c hc => ?_) fun _ _ => id
      cases hc
      exact ⟨rfl, .inl hf⟩
  | unsubscribe hf =>
      refine hb.of_le (fun t => Barred.of_enqueue (by simp) (by simp) fun c hc => ?_) fun _ _ => id
      cases hc
      exact ⟨rfl, .inr rfl⟩
  | closeHeld hf =>
      refine hb.of_le (fun t => Barred.of_enqueue (by simp) (by simp) fun c hc => ?_) fun _ _ => id
      cases hc
      exact ⟨rfl, .inr rfl⟩
  | @close s hf =>
      refine hb.of_le (fun t ho => ?_) fun _ _ => id
      rcases ho with ho | ⟨e, ho⟩ | ho
      · rw [setHandle_handle] at ho
        split_ifs at ho
        exact .inl ho
      · rw [setHandle_handle] at ho
        split_ifs at ho
        exact .inr (.inl ⟨e, ho⟩)
      · exact .inr (.inr ho)
  | @takeSubscribe s p queue htask hq =>
      have hqueue : ∀ c ∈ queue, c ∈ h.queue := fun c hc => by simp [hq, hc]
      intro r t hr ho
      by_cases hrp : r = p
      · subst hrp
        rw [AList.lookup_insert] at hr
        cases hr
        exact not_barred_of_taken hs htask hq ho
      · exact hb r t (by rwa [AList.lookup_insert_ne hrp] at hr)
          (ho.of_handle rfl hqueue (by simp [replying]))
  | @rejected s p e htask =>
      intro r t hr ho
      have hr' := lookup_of_erase hr
      by_cases hts : t = s
      · -- the session's only pair is the one that has just been rolled back
        obtain rfl := ht.once t r p (ht.routed r t hr') (hts ▸ ht.asked _ htask)
        simp at hr
      · refine hb r t hr' (ho.of_handle rfl (fun _ => id) fun q res hreply => hts ?_)
        cases hreply
        rfl
  | @reply c res htask =>
      have hreply : h.replying = some (c, res) := by simp [replying, htask, Next.answer]
      have hc := hs.awaited c (mem_pending_of_replying hreply)
      refine hb.of_le (fun t ho => ?_) fun _ _ => id
      by_cases hts : t = c.session
      · subst hts
        refine .of_answered hc (fun _ => id) (by simp) (fun p e hcp hres => ?_) ho
        exact .inr (.inr (.inr ⟨p, e, by rw [hreply, ← hcp, hres]⟩))
      · exact ho.of_handle (by simp [hts]) (fun _ => id) (by simp [replying])
  | @refuse park c queue htask hq =>
      have hc := hs.awaited c (by simp [pending, hq])
      have hqueue : ∀ d ∈ queue, d ∈ h.queue := fun d hd => by simp [hq, hd]
      refine hb.of_le (fun t ho => ?_) fun _ _ => id
      by_cases hts : t = c.session
      · subst hts
        refine .of_answered hc hqueue (by simp [htask]) (fun p e hcp _ => ?_) ho
        exact .inr (.inr (.inl ⟨p, by rw [hq, ← hcp]; exact List.mem_cons_self⟩))
      · exact ho.of_handle (by simp [hts]) hqueue (by simp [replying, htask])
  | removed htask =>
      exact hb.of_le (fun t ho => ho.of_handle rfl (fun _ => id) (by simp [replying, Next.answer]))
        fun _ _ => lookup_of_erase
  | takeUnsubscribe htask hq =>
      exact hb.of_le (fun t ho => ho.of_handle rfl (fun c hc => by simp [hq, hc])
        (by simp [replying])) fun _ _ => id
  | send htask hl =>
      exact hb.of_le (fun t ho => ho.of_eq rfl rfl (by simp [replying, htask, Next.answer]))
        fun _ _ => id
  | sendNobody htask =>
      exact hb.of_le (fun t ho => ho.of_eq rfl rfl (by simp [replying, htask, Next.answer]))
        fun _ _ => id
  | recv | hangUp => exact hb
  | accepted | kept | message | lost | connected | connectFailed | sent | disconnect =>
      exact hb.of_le (fun t ho => ho.of_handle rfl (fun _ => id) (by simp [replying, Next.answer]))
        fun _ _ => id

/-! ### Every run -/

theorem projected_init : Projected .init := by
  refine (projected_iff (by simp [init])).mpr fun q => iff_of_false (fun hq => ?_) ?_
  · obtain ⟨i, kind⟩ := q
    rcases kind with _ | _ | (_ | _ | _ | _ | _ | _) <;> exact absurd hq List.not_mem_nil
  · rintro ⟨r, hr, -⟩
    exact absurd hr (AList.notMem_empty r)

theorem consistent_of_orderly {acts : List HubAction}
    (hrun : run (Hub.step m cap) .init acts = some h)
    (hok : Meets (Hub.step m cap) Orderly .init acts) : h.Consistent acts := by
  obtain ⟨_, -, -, hp, hg, hb⟩ := invariant_of_meets
    (P := fun h => ∃ past, Traced m past h ∧ Synced h ∧ Projected h ∧ Gone h ∧ NoneBarred h)
    (fun hinv hok hstep => by
      obtain ⟨past, ht, hs, hp, hg, hb⟩ := hinv
      exact ⟨_, ht.step hstep, hs.step hstep, hp.step ht hok hstep, hg.step ht hs hok hstep,
        hb.step ht hs hstep⟩)
    ⟨[], traced_init m, synced_init, projected_init, gone_init, noneBarred_init⟩ hok hrun
  have hgone : ∀ p s, (h.handle s).Done → h.routes.lookup p ≠ some s := by
    intro p s hs hlookup
    rcases hs.cases with hs | hs | hs
    · exact hg p s hlookup (.inl hs)
    · exact hg p s hlookup (.inr (.inl hs))
    · exact hb p s hlookup (.inr (.inl hs))
  refine ⟨fun hne => (projected_iff hne).mp hp, fun s p _ _ hothers => ?_, hgone⟩
  have hnone : ¬ h.RoutesTopic p := by
    rintro ⟨r, hr, hrp⟩
    obtain ⟨t, ht⟩ := Option.isSome_iff_exists.mp (AList.lookup_isSome.mpr hr)
    exact hgone r t (hothers t r ((Traced.run hrun).routed r t ht) hrp) ht
  exact ⟨fun hp' => hnone ⟨p, hp', rfl, rfl⟩, fun hsub => hnone (hp.le hsub)⟩

/-! ### A failed subscription -/

/-- While the upstream is asked, nothing is done to routes and set. -/
theorem step_of_asking {c : HubCommand} {act : HubAction} (htask : h.task = .asking c)
    (hact : ∀ res, act ≠ .answer res) (hstep : h.step m cap act = some h') :
    h'.task = .asking c ∧ h'.routes = h.routes ∧ h'.subs = h.subs := by
  cases step_cases hstep with
  | subscribe | unsubscribe | closeHeld | close | recv | hangUp => exact ⟨htask, rfl, rfl⟩
  | accepted | rejected | removed | kept => exact absurd rfl (hact _)
  | takeSubscribe ht | takeUnsubscribe ht | message ht | lost ht | connected ht | connectFailed ht
  | send ht | sendNobody ht | reply ht | sent ht | disconnect ht | refuse ht =>
      rw [htask] at ht
      cases ht

/-- What a rejected subscription leaves. -/
theorem Rejects.spec {p : Pair} (hr : Rejects m cap h p h') :
    ∃ s, .subscribe s p ∈ h.queue ∧ h'.routes = (h.routes.insert p s).erase p
      ∧ h'.subs = applyPairToList (applyPairToList h.subs p true) p false := by
  obtain ⟨s, queue, h₁, acts, h₂, e, hq, htake, hacts, hne, hanswer⟩ := hr
  have htaken : h₁.task = .asking (.subscribe s p) ∧ h₁.routes = h.routes.insert p s
      ∧ h₁.subs = applyPairToList h.subs p true := by
    cases step_cases htake with
    | takeSubscribe htask hq' =>
        cases hq.symm.trans hq'
        exact ⟨rfl, rfl, rfl⟩
    | takeUnsubscribe htask hq' => cases hq.symm.trans hq'
  have hmeets :
      Meets (Hub.step m cap) (fun _ act => ∀ res, act ≠ HubAction.answer res) h₁ acts := by
    refine meets_of_mem (fun act hact _ res hres => ?_) h₁
    subst hres
    exact hne res hact
  have hasking := invariant_of_meets
    (P := fun k => k.task = .asking (.subscribe s p) ∧ k.routes = h.routes.insert p s
      ∧ k.subs = applyPairToList h.subs p true)
    (fun hinv hact hstep => by
      obtain ⟨htask, hroutes, hsubs⟩ := step_of_asking hinv.1 hact hstep
      exact ⟨htask, hroutes.trans hinv.2.1, hsubs.trans hinv.2.2⟩) htaken hmeets hacts
  obtain ⟨htask, hroutes, hsubs⟩ := hasking
  simp only [Hub.step, Hub.answer, htask, Option.some.injEq] at hanswer
  subst hanswer
  exact ⟨s, by simp [hq], by rw [hroutes], by rw [hsubs]⟩

theorem rejects_iff (ht : Traced m past h) {p : Pair} (hr : Rejects m cap h p h') :
    h.SameSets h' ↔ p ∉ h.routes ∧ ¬ Subscribes h.subs p := by
  obtain ⟨s, hmem, hroutes, hsubs⟩ := hr.spec
  have hstr : Streamed p.2 := streamed_of_supports (ht.supported s p (ht.queued _ hmem))
  have hself : h'.routes.lookup p = none := by rw [hroutes, AList.lookup_erase]
  have hother : ∀ q, q ≠ p → h'.routes.lookup q = h.routes.lookup q := fun q hq => by
    rw [hroutes, AList.lookup_erase_ne hq, AList.lookup_insert_ne hq]
  have hset : ∀ q, Subscribes h'.subs q ↔ Subscribes h.subs q ∧ ¬ SameTopic q p := fun q => by
    rw [hsubs, subscribes_remove hstr, subscribes_add hstr, or_and_right, and_not_self_iff,
      or_false]
  constructor
  · intro hsame
    refine ⟨fun hp => ?_, fun hp => ((hset p).mp ((hsame.2 p).mpr hp)).2 ⟨rfl, rfl⟩⟩
    rw [← AList.lookup_isSome, ← hsame.1, hself] at hp
    cases hp
  · rintro ⟨hp, hnot⟩
    refine ⟨fun q => ?_, fun q => ?_⟩
    · by_cases hq : q = p
      · rw [hq, hself, (AList.lookup_eq_none).mpr hp]
      · exact hother q hq
    · rw [hset, and_iff_left_iff_imp]
      rintro hq ⟨hsym, hkind⟩
      exact hnot (by rwa [Subscribes, ← hsym, ← hkind])

theorem sameSets_of_refused {park : Option Park} (hstep : h.step m cap (.refuse park) = some h') :
    h.SameSets h' := by
  cases step_cases hstep with
  | refuse htask hq => exact ⟨fun _ => rfl, fun _ => Iff.rfl⟩

end Hub

/-- The sets of a hub, over every run: they are consistent as long as its steps are orderly; a
rejected subscription leaves them as they were exactly if its pair had no route and its symbol
and kind were not in the set; and one that is refused always does. -/
theorem hub_sets {m : Market} {cap : Nat} {acts : List HubAction} {h : Hub}
    (hrun : run (Hub.step m cap) .init acts = some h) :
    (Meets (Hub.step m cap) Hub.Orderly .init acts → h.Consistent acts)
    ∧ (∀ p h', Hub.Rejects m cap h p h' →
      (h.SameSets h' ↔ p ∉ h.routes ∧ ¬ Subscribes h.subs p))
    ∧ ∀ park h', h.step m cap (.refuse park) = some h' → h.SameSets h' :=
  ⟨Hub.consistent_of_orderly hrun, fun _ _ => Hub.rejects_iff (Traced.run hrun),
    fun _ _ => Hub.sameSets_of_refused⟩

section Spy

def spyTrades : Pair := (⟨"alpaca", .equity, "SPY"⟩, .trade)

def spySubscribed : List HubAction :=
  [.connected [] (.ok ()), .proceed, .subscribe 0 spyTrades, .take, .answer (.ok ()), .send, .send,
    .proceed]

theorem hub_sets_spy : ∃ h,
    run (Hub.step .stock 4) .init (spySubscribed ++ [.unsubscribe 0, .take, .answer (.ok ()),
      .send, .proceed, .close 0]) = some h
    ∧ h.handle 0 = .closed ∧ spyTrades ∉ h.routes ∧ ¬ Subscribes h.subs spyTrades := by
  obtain ⟨h, hrun, hclosed⟩ : ∃ h,
      run (Hub.step .stock 4) .init (spySubscribed ++ [.unsubscribe 0, .take, .answer (.ok ()),
        .send, .proceed, .close 0]) = some h ∧ h.handle 0 = .closed := ⟨_, rfl, rfl⟩
  have hok : Meets (Hub.step .stock 4) Hub.Orderly .init (spySubscribed ++
      [.unsubscribe 0, .take, .answer (.ok ()), .send, .proceed, .close 0]) := by
    iterate 4 refine (meets_cons rfl).mpr ⟨trivial, ?_⟩
    refine (meets_cons rfl).mpr ⟨⟨fun _ _ _ he => ?_, fun _ _ ht _ => ?_, fun _ _ _ he => ?_⟩, ?_⟩
    · obtain ⟨e, he⟩ := he
      cases he
    · cases ht
    · obtain ⟨e, he⟩ := he
      cases he
    iterate 5 refine (meets_cons rfl).mpr ⟨trivial, ?_⟩
    refine (meets_cons rfl).mpr ⟨⟨fun _ _ _ he => ?_, fun _ _ ht _ => ?_, fun _ _ _ he => ?_⟩, ?_⟩
    · obtain ⟨e, he⟩ := he
      cases he
    · cases ht
      exact fun r hr _ => List.mem_singleton.mp hr
    · obtain ⟨e, he⟩ := he
      cases he
    iterate 3 refine (meets_cons rfl).mpr ⟨trivial, ?_⟩
    trivial
  refine ⟨h, hrun, hclosed, ((hub_sets hrun).1 hok).left 0 spyTrades (by decide) hclosed ?_⟩
  intro t q hq _
  simp only [spySubscribed, List.cons_append, List.nil_append, List.mem_cons,
    HubAction.subscribe.injEq, reduceCtorEq, List.not_mem_nil, or_false, false_or] at hq
  rw [hq.1, hclosed]
  trivial

/-- A removal that finds the hub parked is refused, and so is the one of the closing handle. -/
theorem refused_removal_stays : ∃ h,
    run (Hub.step .stock 4) .init (spySubscribed ++ [.lost [0] "provider disabled" .disabled, .send,
      .proceed, .unsubscribe 0, .refuse (some .disabled), .close 0, .refuse (some .disabled)])
      = some h
    ∧ h.handle 0 = .closed ∧ ¬ h.Consistent (spySubscribed ++
      [.lost [0] "provider disabled" .disabled, .send, .proceed, .unsubscribe 0,
        .refuse (some .disabled), .close 0, .refuse (some .disabled)]) := by
  refine ⟨_, rfl, rfl, fun hcon => hcon.gone spyTrades 0 trivial rfl⟩

end Spy

end Alpaca

end Datamancer
