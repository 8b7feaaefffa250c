import Datamancer.Lib.ActionSystem
import Datamancer.Providers.AlpacaHub

/-!
# Datamancer.Providers.HubTrace

What the hub's commands, handles and routes have to do with the subscriptions a run has
made. A session makes one, so all that is about a session is about its pair (`Traced`).
-/

namespace Datamancer

open ActionSystem

namespace Alpaca

/-- The pair a handle has to do with. -/
def HandleState.pair : HandleState → Option Pair
  | subscribing p | subscribed p | unsubscribing p | closing p => some p
  | unsubscribed slot => slot
  | fresh | failed _ | closed => none

/-- A handle only goes on from where it is. -/
def HandleState.Follows (st st' : HandleState) : Prop :=
  (st ≠ .fresh → st' ≠ .fresh) ∧ ∀ p, st'.pair = some p → st.pair = some p

theorem HandleState.follows_answered (st : HandleState) (res : Except Error Unit) :
    st.Follows (st.answered res) := by
  rcases res with e | ⟨⟩ <;> cases st <;> simp [Follows, answered, pair]

/-- What a run leaves of the subscriptions it made: a session makes one, and all it does,
asks for and has routed is about that. -/
structure Traced (m : Market) (past : List HubAction) (h : Hub) : Prop where
  started : ∀ s p, HubAction.subscribe s p ∈ past → h.handle s ≠ .fresh
  once : ∀ s p q, HubAction.subscribe s p ∈ past → HubAction.subscribe s q ∈ past → p = q
  supported : ∀ s p, HubAction.subscribe s p ∈ past → m.supports p.1 p.2 .live
  held : ∀ s p, (h.handle s).pair = some p → HubAction.subscribe s p ∈ past
  queued : ∀ c ∈ h.queue, HubAction.subscribe c.session c.pair ∈ past
  asked : ∀ c, h.task = .asking c → HubAction.subscribe c.session c.pair ∈ past
  routed : ∀ p s, h.routes.lookup p = some s → HubAction.subscribe s p ∈ past

theorem traced_init (m : Market) : Traced m [] .init where
  started := fun _ _ h => absurd h List.not_mem_nil
  once := fun _ _ _ h => absurd h List.not_mem_nil
  supported := fun _ _ h => absurd h List.not_mem_nil
  held := fun _ _ h => by cases h
  queued := fun _ h => absurd h List.not_mem_nil
  asked := fun _ h => by cases h
  routed := fun _ _ h => by simp [Hub.init] at h

/-- A step that subscribes nothing lets handles go on, queues and takes commands about what
they hold, and adds routes of queued subscriptions only. -/
theorem Traced.of_other {m : Market} {past : List HubAction} {h : Hub} (ht : Traced m past h)
    (act : HubAction) (h' : Hub) (hact : ∀ s p, act ≠ .subscribe s p)
    (hhandle : ∀ s, (h.handle s).Follows (h'.handle s))
    (hqueue : ∀ c ∈ h'.queue, c ∈ h.queue ∨ (h.handle c.session).pair = some c.pair)
    (htask : ∀ c, h'.task = .asking c → h.task = .asking c ∨ c ∈ h.queue)
    (hroutes : ∀ p s, h'.routes.lookup p = some s →
      h.routes.lookup p = some s ∨ .subscribe s p ∈ h.queue) : Traced m (past ++ [act]) h' := by
  have hmem : ∀ {s p}, HubAction.subscribe s p ∈ past ++ [act] →
      HubAction.subscribe s p ∈ past := by
    intro s p hp
    rcases List.mem_append.mp hp with hp | hp
    · exact hp
    · exact absurd (List.mem_singleton.mp hp).symm (hact s p)
  refine ⟨fun s p hp => (hhandle s).1 (ht.started s p (hmem hp)),
    fun s p q hp hq => ht.once s p q (hmem hp) (hmem hq),
    fun s p hp => ht.supported s p (hmem hp),
    fun s p hp => List.mem_append_left _ (ht.held s p ((hhandle s).2 p hp)),
    fun c hc => List.mem_append_left _ ?_,
    fun c hc => List.mem_append_left _ ?_, fun p s hp => List.mem_append_left _ ?_⟩
  · rcases hqueue c hc with hc | hc
    · exact ht.queued c hc
    · exact ht.held _ _ hc
  · rcases htask c hc with hc | hc
    · exact ht.asked c hc
    · exact ht.queued c hc
  · rcases hroutes p s hp with hp | hp
    · exact ht.routed p s hp
    · exact ht.queued _ hp

theorem follows_setHandle {h : Hub} {s : SessionId} {st : HandleState}
    (hst : (h.handle s).Follows st) (t : SessionId) :
    (h.handle t).Follows ((h.setHandle s st).handle t) := by
  rw [Hub.setHandle_handle]
  split_ifs with hts
  · rwa [hts]
  · exact ⟨id, fun _ => id⟩

theorem lookup_of_erase {routes : AList fun _ : Pair => SessionId} {p q : Pair} {s : SessionId}
    (h : (routes.erase q).lookup p = some s) : routes.lookup p = some s := by
  by_cases hpq : p = q
  · subst hpq
    simp at h
  · rwa [AList.lookup_erase_ne hpq] at h

/-- A handle's first command is of the one pair it will ever be about. -/
theorem Traced.subscribe {m : Market} {past : List HubAction} {h : Hub} (ht : Traced m past h)
    {s : SessionId} {p : Pair} (hs : h.handle s = .fresh) (hp : m.supports p.1 p.2 .live) :
    Traced m (past ++ [.subscribe s p]) (h.enqueue s (.subscribing p)) := by
  have hnew : ∀ q, HubAction.subscribe s q ∉ past := fun q hq => ht.started s q hq hs
  refine ⟨fun t q hq => ?_, fun t q r hq hr => ?_, fun t q hq => ?_, fun t q hq => ?_,
    fun c hc => ?_, fun c hc => List.mem_append_left _ (ht.asked c hc),
    fun q t hq => List.mem_append_left _ (ht.routed q t hq)⟩
  · rw [Hub.enqueue_handle]
    split_ifs with hts
    · simp
    · refine ht.started t q ((List.mem_append.mp hq).resolve_right fun hq => hts ?_)
      cases List.mem_singleton.mp hq
      rfl
  -- a second `subscribe` of the handle would have found it no longer fresh
  · rcases List.mem_append.mp hq with hq | hq <;> rcases List.mem_append.mp hr with hr | hr
    · exact ht.once t q r hq hr
    · cases List.mem_singleton.mp hr
      exact absurd hq (hnew q)
    · cases List.mem_singleton.mp hq
      exact absurd hr (hnew r)
    · cases List.mem_singleton.mp hq
      cases List.mem_singleton.mp hr
      rfl
  · rcases List.mem_append.mp hq with hq | hq
    · exact ht.supported t q hq
    · cases List.mem_singleton.mp hq
      exact hp
  · rw [Hub.enqueue_handle] at hq
    split_ifs at hq with hts
    · cases hq
      simp [hts]
    · exact List.mem_append_left _ (ht.held t q hq)
  · rcases List.mem_append.mp hc with hc | hc
    · exact List.mem_append_left _ (ht.queued c hc)
    · cases List.mem_singleton.mp hc
      simp [HubCommand.session, HubCommand.pair]

theorem Traced.step {m : Market} {cap : Nat} {past : List HubAction} {h h' : Hub} {act : HubAction}
    (ht : Traced m past h) (hstep : h.step m cap act = some h') : Traced m (past ++ [act]) h' := by
  have hother := ht.of_other act h'
  have hstay : ∀ s, (h.handle s).Follows (h.handle s) := fun s => ⟨id, fun _ => id⟩
  cases Hub.step_cases hstep with
  | subscribe hs hp => exact ht.subscribe hs hp
  | unsubscribe hs =>
      refine hother (by simp) (follows_setHandle ?_) (fun c hc => ?_) (fun _ => .inl)
        fun _ _ => .inl
      · simp [hs, HandleState.Follows, HandleState.pair]
      · refine (List.mem_append.mp hc).imp_right fun hc => ?_
        cases List.mem_singleton.mp hc
        simp [HubCommand.session, HubCommand.pair, HandleState.pair, hs]
  | @closeHeld s p hs =>
      have hpair : (h.handle s).pair = some p := by rcases hs with hs | hs <;> rw [hs] <;> rfl
      refine hother (by simp) (follows_setHandle ⟨fun _ => by simp, fun q hq => ?_⟩)
        (fun c hc => ?_) (fun _ => .inl) fun _ _ => .inl
      · cases hq
        exact hpair
      · refine (List.mem_append.mp hc).imp_right fun hc => ?_
        cases List.mem_singleton.mp hc
        exact hpair
  | close hs =>
      refine hother (by simp) (follows_setHandle ?_) (fun _ => .inl) (fun _ => .inl)
        fun _ _ => .inl
      simp [hs, HandleState.Follows, HandleState.pair]
  | @takeSubscribe s p queue _ hq =>
      refine hother (by simp) hstay (fun c hc => .inl (by simp [hq, hc]))
        (fun c hc => by cases hc; simp [hq]) fun r t hr => ?_
      by_cases hrp : r = p
      · subst hrp
        rw [AList.lookup_insert] at hr
        cases hr
        exact .inr (by simp [hq])
      · exact .inl (by rwa [AList.lookup_insert_ne hrp] at hr)
  | takeUnsubscribe _ hq =>
      exact hother (by simp) hstay (fun c hc => .inl (by simp [hq, hc]))
        (fun c hc => by cases hc; simp [hq]) fun _ _ => .inl
  | rejected _ | removed _ =>
      exact hother (by simp) hstay (fun _ => .inl) (fun _ hc => by cases hc)
        fun _ _ hr => .inl (lookup_of_erase hr)
  | reply _ =>
      exact hother (by simp) (follows_setHandle (HandleState.follows_answered _ _))
        (fun _ => .inl) (fun _ hc => by cases hc) fun _ _ => .inl
  | refuse _ hq =>
      exact hother (by simp) (follows_setHandle (HandleState.follows_answered _ _))
        (fun c hc => .inl (by simp [hq, hc])) (fun _ => .inl) fun _ _ => .inl
  | recv | hangUp =>
      exact hother (by simp) hstay (fun _ => .inl) (fun _ => .inl) fun _ _ => .inl
  | _ =>
      -- the hub goes on without taking a command
      exact hother (by simp) hstay (fun _ => .inl) (fun _ hc => by cases hc) fun _ _ => .inl

theorem Traced.run {m : Market} {cap : Nat} {acts : List HubAction} {h : Hub}
    (hrun : run (Hub.step m cap) .init acts = some h) : Traced m acts h :=
  history_invariant [] (fun ht hstep => Traced.step ht hstep) (traced_init m) hrun

/-! ### Commands under way -/

def Next.command : Next → Option HubCommand
  | reply c _ => some c
  | serve | disconnect => none

/-- The command the hub is at, up to its reply. -/
def HubTask.command : HubTask → Option HubCommand
  | asking c => some c
  | sending _ next => next.command
  | down | serving => none

namespace Hub

/-- The commands not yet replied to, in order. -/
def pending (h : Hub) : List HubCommand := h.task.command.toList ++ h.queue

/-- A command is under way exactly once, and its handle awaits the answer. -/
structure Synced (h : Hub) : Prop where
  awaited : ∀ c ∈ h.pending, (h.handle c.session).command c.session = some c
  once : h.pending.Pairwise fun c d => c.session ≠ d.session

theorem synced_init : Synced .init := ⟨by simp [init, pending, HubTask.command], .nil⟩

namespace Synced

variable {h h' : Hub}

/-- A handle that awaits nothing has nothing under way. -/
theorem session_ne (hs : Synced h) {s : SessionId} (hnone : (h.handle s).command s = none)
    {c : HubCommand} (hc : c ∈ h.pending) : c.session ≠ s := by
  rintro rfl
  rw [hs.awaited c hc] at hnone
  cases hnone

theorem of_eq (hs : Synced h) (hpending : h'.pending = h.pending) (hhandle : h'.handle = h.handle) :
    Synced h' := by
  refine ⟨fun c hc => ?_, by rw [hpending]; exact hs.once⟩
  rw [hhandle]
  exact hs.awaited c (hpending ▸ hc)

theorem enqueue (hs : Synced h) {s : SessionId} {st : HandleState} {c : HubCommand}
    (hnone : (h.handle s).command s = none) (hst : st.command s = some c) (hc : c.session = s) :
    Synced (h.enqueue s st) := by
  have hpending : (h.enqueue s st).pending = h.pending ++ [c] := by
    show h.task.command.toList ++ (h.queue ++ (st.command s).toList) = _
    rw [hst, pending, List.append_assoc]
    rfl
  refine ⟨fun d hd => ?_, ?_⟩
  · rw [enqueue_handle]
    rcases List.mem_append.mp (hpending ▸ hd) with hd | hd
    · rw [if_neg (hs.session_ne hnone hd)]
      exact hs.awaited d hd
    · cases List.mem_singleton.mp hd
      rw [if_pos hc, hc, hst]
  · rw [hpending, List.pairwise_append]
    refine ⟨hs.once, List.pairwise_singleton _ _, fun d hd e he => ?_⟩
    cases List.mem_singleton.mp he
    rw [hc]
    exact hs.session_ne hnone hd

/-- The command at the head is answered. -/
theorem answer (hs : Synced h) {c : HubCommand} {queue : List HubCommand} {st : HandleState}
    (hpending : h.pending = c :: queue) (hpending' : h'.pending = queue)
    (hhandle : ∀ t, h'.handle t = if t = c.session then st else h.handle t) : Synced h' := by
  have honce := List.pairwise_cons.mp (hpending ▸ hs.once)
  refine ⟨fun d hd => ?_, hpending' ▸ honce.2⟩
  rw [hhandle, if_neg (honce.1 d (hpending' ▸ hd)).symm]
  exact hs.awaited d (hpending ▸ List.mem_cons_of_mem _ (hpending' ▸ hd))

/-- A handle that awaits nothing moves on. -/
theorem setHandle (hs : Synced h) {s : SessionId} {st : HandleState}
    (hnone : (h.handle s).command s = none) : Synced (h.setHandle s st) := by
  refine ⟨fun c hc => ?_, hs.once⟩
  rw [setHandle_handle, if_neg (hs.session_ne hnone hc)]
  exact hs.awaited c hc

theorem step {m : Market} {cap : Nat} {act : HubAction} (hs : Synced h)
    (hstep : h.step m cap act = some h') : Synced h' := by
  cases step_cases hstep with
  | subscribe hf hp => exact hs.enqueue (by rw [hf]; rfl) rfl rfl
  | unsubscribe hf => exact hs.enqueue (by rw [hf]; rfl) rfl rfl
  | closeHeld hf => exact hs.enqueue (by rcases hf with hf | hf <;> rw [hf] <;> rfl) rfl rfl
  | close hf => exact hs.setHandle (by rw [hf]; rfl)
  | takeSubscribe ht hq | takeUnsubscribe ht hq =>
      exact hs.of_eq (by simp [pending, ht, hq, HubTask.command]) rfl
  | @reply c res ht =>
      exact hs.answer (c := c) (by simp [pending, ht, HubTask.command, Next.command]) rfl
        (setHandle_handle h _ _)
  | @refuse park c queue ht hq =>
      exact hs.answer (c := c) (by simp [pending, ht, hq, HubTask.command]; rfl)
        (by simp [pending, HubTask.command, ht]) (setHandle_handle h _ _)
  | recv | hangUp => exact hs.of_eq rfl rfl
  | accepted ht | rejected ht | removed ht | kept ht | message ht | lost ht | connected ht
  | connectFailed ht | send ht | sendNobody ht | sent ht | disconnect ht =>
      exact hs.of_eq (by simp [pending, ht, HubTask.command, Next.command]) rfl

end Synced

end Hub

end Alpaca

end Datamancer
