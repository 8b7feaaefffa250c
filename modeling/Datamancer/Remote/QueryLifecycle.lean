import Datamancer.Lib.ActionSystem
import Datamancer.Remote.Iceoryx2Client

/-!
# Datamancer.Remote.QueryLifecycle

Every query the daemon has opened is on somebody's hands: a call that has its reply, a stream,
or a cancellation on its way. The hands change only where the old owner is there to see it; a
call that is dropped while the daemon has its request, or while it attaches, hands over to
nobody (`query_lifecycle`).
-/

namespace Datamancer

open ActionSystem

namespace Iceoryx2Client

variable {parses : String → Bool} {w w' : World} {id : QueryId} {c : CallId}

/-! ### One stream a query -/

/-- The call is pending. -/
def ClientState.Pending (c : CallId) : ClientState → Prop
  | awaiting c' _ | attaching c' _ => c' = c
  | idle | gone => False

/-- A query the daemon has opened, with neither a pending call nor a stream for it, has been
cancelled, or its stream was seen to finish. -/
def World.Tidy (w : World) : Prop :=
  ∀ id c, (id, c) ∈ w.opened → ¬ w.client.Pending c →
    (∀ s ∈ w.streams, s.id = id → s.dropped = true) → w.task ≠ .ended →
    .cancelQuery id ∈ w.enqueued ∨ ∃ s ∈ w.streams, s.id = id ∧ s.finished = true

/-- No call is dropped that the daemon has opened a query for, and none is opened for a call
that is gone; and the reply names what is opened. -/
def World.Kept (w : World) : Action → Prop
  | .dropCall => ∀ id c, w.client.Pending c → (id, c) ∈ w.opened → w.task = .ended
  | .serve opened res => ∀ id reply, opened = some id → res = .ok reply →
      (∃ c, w.task = .serving (.request .openQuery c) ∧ w.client = .awaiting c .query)
        ∧ reply.ok = true ∧ reply.query = some id
  | _ => True

/-! ### The invariant -/

namespace World

/-- A cancellation is queued, or there is a stream, dropped only after it has finished. -/
def Covered (w : World) (id : QueryId) : Prop :=
  .cancelQuery id ∈ w.enqueued
    ∨ ∃ s ∈ w.streams, s.id = id ∧ (s.dropped = true → s.finished = true)

/-- Somebody has the query on hands. -/
def Owned (w : World) (id : QueryId) (c : CallId) : Prop :=
  (w.client = .awaiting c .query
    ∧ ∃ reply, w.reply c = .sent (.ok reply) ∧ reply.ok = true ∧ reply.query = some id)
  ∨ w.client = .attaching c id
  ∨ w.Covered id

/-- The calls whose commands are queued or served. -/
def calls (w : World) : List CallId := (w.task.cmds ++ w.queue).filterMap ControlCmd.call

structure Sound (w : World) : Prop where
  nodup : w.calls.Nodup
  waiting : ∀ c ∈ w.calls, w.reply c = .waiting ∧ c < w.nextCall
  owned : w.task ≠ .ended → ∀ id c, (id, c) ∈ w.opened → w.Owned id c

theorem Covered.mono (h : w.Covered id) (henqueued : w.enqueued ⊆ w'.enqueued)
    (hstreams : w.streams ⊆ w'.streams) : w'.Covered id := by
  rcases h with h | ⟨s, hs, hid, hdropped⟩
  · exact .inl (henqueued h)
  · exact .inr ⟨s, hstreams hs, hid, hdropped⟩

theorem Owned.covered (h : w.Owned id c) (hclient : ¬ w.client.Pending c) : w.Covered id := by
  rcases h with ⟨hc, -⟩ | hc | h
  · exact absurd (by rw [hc]; rfl) hclient
  · exact absurd (by rw [hc]; rfl) hclient
  · exact h

/-! ### Firing -/

@[simp] theorem fire_client (w : World) (req : Request) : (w.fire req).client = w.client := by
  rw [fire]
  split_ifs <;> rfl

@[simp] theorem fire_reply (w : World) (req : Request) : (w.fire req).reply = w.reply := by
  rw [fire]
  split_ifs <;> rfl

@[simp] theorem fire_opened (w : World) (req : Request) : (w.fire req).opened = w.opened := by
  rw [fire]
  split_ifs <;> rfl

@[simp] theorem fire_task (w : World) (req : Request) : (w.fire req).task = w.task := by
  rw [fire]
  split_ifs <;> rfl

@[simp] theorem fire_streams (w : World) (req : Request) : (w.fire req).streams = w.streams := by
  rw [fire]
  split_ifs <;> rfl

@[simp] theorem fire_nextCall (w : World) (req : Request) :
    (w.fire req).nextCall = w.nextCall := by
  rw [fire]
  split_ifs <;> rfl

@[simp] theorem fire_calls (w : World) (req : Request) : (w.fire req).calls = w.calls := by
  rw [calls, calls, fire_task, fire]
  split_ifs
  · rfl
  · simp [ControlCmd.call]

theorem enqueued_fire (w : World) (req : Request) : w.enqueued ⊆ (w.fire req).enqueued := by
  rw [fire]
  split_ifs
  · exact List.Subset.refl _
  · exact List.subset_append_left _ _

/-- As long as the task lives, what is fired is queued. -/
theorem mem_fire (h : w.task ≠ .ended) (req : Request) : req ∈ (w.fire req).enqueued := by
  rw [fire, if_neg h]
  exact List.mem_append_right _ (List.mem_singleton_self _)

/-! ### Steps -/

/-- The client moves, and what its call had on hands is covered or still with it. -/
theorem Sound.move (h : w.Sound) (hcalls : w'.calls = w.calls) (hreply : w'.reply = w.reply)
    (hnext : w'.nextCall = w.nextCall) (hopened : w'.opened = w.opened)
    (htask : w'.task ≠ .ended → w.task ≠ .ended)
    (hcovered : w.task ≠ .ended → ∀ id, w.Covered id → w'.Covered id)
    (hclient : w.task ≠ .ended → ∀ id c, (id, c) ∈ w.opened → w.client.Pending c →
      w.Owned id c → w'.Owned id c) : w'.Sound := by
  refine ⟨hcalls ▸ h.nodup, fun c hc => ?_, fun hlive id c hmem => ?_⟩
  · rw [hreply, hnext]
    exact h.waiting c (hcalls ▸ hc)
  · have hlive := htask hlive
    rw [hopened] at hmem
    have howned := h.owned hlive id c hmem
    by_cases hpending : w.client.Pending c
    · exact hclient hlive id c hmem hpending howned
    · exact .inr (.inr (hcovered hlive id (howned.covered hpending)))

theorem Owned.mono (h : w.Owned id c) (hclient : w'.client = w.client)
    (hreply : w'.reply = w.reply) (hcovered : w.Covered id → w'.Covered id) : w'.Owned id c := by
  rcases h with ⟨hc, reply, hr, hok⟩ | hc | h
  · exact .inl ⟨hclient.trans hc, reply, hreply ▸ hr, hok⟩
  · exact .inr (.inl (hclient.trans hc))
  · exact .inr (.inr (hcovered h))

theorem Covered.fire (h : w.Covered id) (req : Request) : (w.fire req).Covered id :=
  h.mono (enqueued_fire w req) (by rw [fire_streams]; exact List.Subset.refl _)

theorem Sound.fire (h : w.Sound) (req : Request) : (w.fire req).Sound :=
  h.move (fire_calls w req) (fire_reply w req) (fire_nextCall w req) (fire_opened w req)
    (fun hlive => by rwa [fire_task] at hlive) (fun _ _ hcov => hcov.fire req)
    fun _ _ _ _ _ howned => howned.mono (fire_client w req) (fire_reply w req)
      fun hcov => hcov.fire req

/-- A call that is over leaves nothing behind if what it had on hands is covered. -/
theorem Sound.finish (h : w.Sound) (op : Op) (res : Except ClientError (Option QueryId))
    (hcovered : w.task ≠ .ended → ∀ id c, (id, c) ∈ w.opened → w.client.Pending c →
      w.Owned id c → w.Covered id) : (w.finish op res).Sound :=
  h.move rfl rfl rfl rfl id (fun _ _ hcov => hcov) fun hlive id c hmem hpending howned =>
    .inr (.inr (hcovered hlive id c hmem hpending howned))

/-- An error after the reply: the query is cancelled before the call returns. -/
theorem Sound.cancel (h : w.Sound) {q : QueryId} (res : Except ClientError (Option QueryId))
    (hmine : ∀ id c, w.client.Pending c → w.Owned id c → id = q ∨ w.Covered id) :
    ((w.fire (.cancelQuery q)).finish .query res).Sound := by
  refine (h.fire _).finish .query res fun hlive id c hmem hpending howned => ?_
  rw [fire_task] at hlive
  rw [fire_client] at hpending
  rw [fire_opened] at hmem
  rcases hmine id c hpending (h.owned hlive id c hmem) with rfl | hcov
  · exact .inl (mem_fire hlive _)
  · exact hcov.fire _

theorem Sound.replied (h : w.Sound) {op : Op} {reply : Reply}
    (hclient : w.client = .awaiting c op) (hreply : w.reply c = .sent (.ok reply)) :
    (w.replied parses c op reply).Sound := by
  -- what is on the call's hands is the query its reply names
  have hmine : ∀ id c', w.client.Pending c' → w.Owned id c' →
      op = .query ∧ reply.ok = true ∧ reply.query = some id ∨ w.Covered id := by
    intro id c' hpending howned
    rw [hclient] at hpending
    obtain rfl : c = c' := hpending
    rcases howned with ⟨hc, reply', hr, hok, hid⟩ | hc | hcov
    · cases hclient.symm.trans hc
      cases hreply.symm.trans hr
      exact .inl ⟨rfl, hok, hid⟩
    · cases hclient.symm.trans hc
    · exact .inr hcov
  rw [World.replied, check]
  by_cases hok : reply.ok = true
  · rw [if_pos hok]
    cases op with
    | query =>
        show (w.openReplied parses c reply).Sound
        rw [openReplied]
        split
        · rename_i hid
          refine h.finish .query _ fun _ id c' _ hpending howned => ?_
          rcases hmine id c' hpending howned with ⟨-, -, hid'⟩ | hcov
          · cases hid.symm.trans hid'
          · exact hcov
        · rename_i q hid
          have hcancel : ∀ id c', w.client.Pending c' → w.Owned id c' → id = q ∨ w.Covered id :=
            fun id c' hpending howned => (hmine id c' hpending howned).imp_left fun hq => by
              cases hid.symm.trans hq.2.2
              rfl
          split
          · exact h.cancel _ hcancel
          · split_ifs
            · refine h.move rfl rfl rfl rfl id (fun _ _ hcov => hcov)
                fun _ id c' _ hpending howned => ?_
              have hc : c = c' := by
                rw [hclient] at hpending
                exact hpending
              rcases hcancel id c' hpending howned with rfl | hcov
              · exact .inr (.inl (by rw [← hc]))
              · exact .inr (.inr hcov)
            · exact h.cancel _ hcancel
    | cancelQuery q | close | other =>
        refine h.finish _ _ fun _ id c' _ hpending howned => ?_
        rcases hmine id c' hpending howned with ⟨hop, -⟩ | hcov
        · cases hop
        · exact hcov
  · rw [if_neg hok]
    refine h.finish op _ fun _ id c' _ hpending howned => ?_
    rcases hmine id c' hpending howned with ⟨-, hok', -⟩ | hcov
    · exact absurd hok' hok
    · exact hcov

theorem Covered.setStream (h : w.Covered id) {i : Nat} {s s' : QueryStream}
    (hs : w.streams[i]? = some s) (hid : s'.id = s.id)
    (hfinished : s'.id = id → (s.dropped = true → s.finished = true) → s'.dropped = true →
      s'.finished = true) : (w.setStream i s').Covered id := by
  rcases h with h | ⟨s₀, hmem, hid₀, hs₀⟩
  · exact .inl h
  · obtain ⟨j, hj⟩ := List.mem_iff_getElem?.mp hmem
    by_cases hji : i = j
    · subst hji
      cases hs.symm.trans hj
      obtain ⟨hlt, -⟩ := List.getElem?_eq_some_iff.mp hs
      exact .inr ⟨s', List.mem_iff_getElem?.mpr ⟨i, List.getElem?_set_self hlt⟩,
        hid.trans hid₀, hfinished (hid.trans hid₀) hs₀⟩
    · exact .inr ⟨s₀, List.mem_iff_getElem?.mpr ⟨j, (List.getElem?_set_ne hji).trans hj⟩,
        hid₀, hs₀⟩

/-- A stream that goes unfinished is the only one that cancels. -/
theorem Covered.streamDropped (h : w.Covered id) (hlive : w.task ≠ .ended) {i : Nat}
    {q : QueryId} {finished : Bool} (hs : w.streams[i]? = some ⟨q, finished, false⟩) :
    ((w.setStream i ⟨q, finished, true⟩).streamDropped q finished).Covered id := by
  cases finished with
  | true => exact h.setStream hs rfl fun _ _ _ => rfl
  | false =>
      show ((w.setStream i ⟨q, false, true⟩).fire (.cancelQuery q)).Covered id
      by_cases hq : q = id
      · subst hq
        have hlive' : (w.setStream i ⟨q, false, true⟩).task ≠ .ended := hlive
        exact .inl (mem_fire hlive' _)
      · have hcov : (w.setStream i ⟨q, false, true⟩).Covered id :=
          h.setStream hs rfl fun hid => absurd hid hq
        exact hcov.fire _

theorem calls_send (w : World) (op : Op) : (w.send op).calls = w.calls ++ [w.nextCall] := by
  simp [calls, World.send, ControlCmd.call]

theorem Sound.send (h : w.Sound) (hclient : w.client = .idle) (op : Op) : (w.send op).Sound := by
  have hfresh : w.nextCall ∉ w.calls := fun hmem => Nat.lt_irrefl _ (h.waiting _ hmem).2
  refine ⟨?_, fun c hc => ?_, fun hlive id c hmem => ?_⟩
  · rw [calls_send]
    exact List.nodup_append.mpr ⟨h.nodup, by simp, fun c hc d hd hcd =>
      hfresh (List.mem_singleton.mp hd ▸ hcd ▸ hc)⟩
  · rw [calls_send] at hc
    rcases List.mem_append.mp hc with hc | hc
    · obtain ⟨hwaiting, hlt⟩ := h.waiting c hc
      exact ⟨(Function.update_of_ne (Nat.ne_of_lt hlt) _ _).trans hwaiting,
        Nat.lt_succ_of_lt hlt⟩
    · obtain rfl := List.mem_singleton.mp hc
      exact ⟨Function.update_self _ _ _, Nat.lt_succ_self _⟩
  · have hcov := (h.owned hlive id c hmem).covered (by rw [hclient]; exact fun hp => hp)
    exact .inr (.inr (hcov.mono (List.subset_append_left _ _) (List.Subset.refl _)))

theorem sound_endTask (w : World) : w.endTask.Sound :=
  ⟨List.nodup_nil, fun _ hc => absurd hc List.not_mem_nil, fun hlive => absurd rfl hlive⟩

theorem answer_fields (w : World) (cmd : ControlCmd) (res) :
    (w.answer cmd res).queue = w.queue ∧ (w.answer cmd res).client = w.client
      ∧ (w.answer cmd res).nextCall = w.nextCall ∧ (w.answer cmd res).enqueued = w.enqueued
      ∧ (w.answer cmd res).streams = w.streams ∧ (w.answer cmd res).opened = w.opened := by
  cases cmd <;> exact ⟨rfl, rfl, rfl, rfl, rfl, rfl⟩

theorem answer_reply_of_ne {cmd : ControlCmd} {res} (h : cmd.call ≠ some c) :
    (w.answer cmd res).reply c = w.reply c := by
  cases cmd with
  | fire req => rfl
  | request req d =>
      exact Function.update_of_ne (fun hcd => h (congrArg some hcd.symm)) _ _

theorem answer_reply_self (req : Request) {res} (h : w.reply c = .waiting) :
    (w.answer (.request req c) res).reply c = .sent res := by
  simp [answer, h, Oneshot.send]

/-- The end of a round trip; the number of its call is nobody else's. -/
theorem Sound.answer (h : w.Sound) {cmd : ControlCmd} (htask : w.task = .serving cmd)
    (reply : Reply) : Sound { w.answer cmd (.ok reply) with task := .receiving } := by
  obtain ⟨hqueue, hclient, hnext, henqueued, hstreams, hopened⟩ := answer_fields w cmd (.ok reply)
  have hcalls : w.calls = cmd.call.toList ++ w.queue.filterMap ControlCmd.call := by
    rw [calls, htask]
    cases cmd <;> rfl
  have hafter : World.calls { w.answer cmd (.ok reply) with task := .receiving }
      = w.queue.filterMap ControlCmd.call := by
    rw [calls, ← hqueue]
    rfl
  have hnodup := List.nodup_append.mp (hcalls ▸ h.nodup)
  refine ⟨hafter ▸ hnodup.2.1, fun c hc => ?_, fun _ id c hmem => ?_⟩
  · rw [hafter] at hc
    have hne : cmd.call ≠ some c := fun hcmd =>
      hnodup.2.2 c (by rw [hcmd]; exact List.mem_singleton_self c) c hc rfl
    obtain ⟨hwaiting, hlt⟩ := h.waiting c (hcalls ▸ List.mem_append_right _ hc)
    exact ⟨(answer_reply_of_ne hne).trans hwaiting, hnext.symm ▸ hlt⟩
  · have howned := h.owned (by rw [htask]; exact fun he => by cases he) id c (hopened ▸ hmem)
    rcases howned with ⟨hc, reply', hr, hok⟩ | hc | hcov
    · have hne : cmd.call ≠ some c := fun hcmd => by
        have hwaiting := (h.waiting c (by rw [hcalls, hcmd]; exact List.mem_cons_self)).1
        cases hwaiting.symm.trans hr
      exact .inl ⟨hclient.trans hc, reply', (answer_reply_of_ne hne).trans hr, hok⟩
    · exact .inr (.inl (hclient.trans hc))
    · exact .inr (.inr (hcov.mono (henqueued ▸ List.Subset.refl _)
        (hstreams ▸ List.Subset.refl _)))

/-- What is opened is on somebody's hands. -/
theorem Sound.opened (h : w.Sound) (howned : w.Owned id c) :
    Sound { w with opened := w.opened ++ [(id, c)] } := by
  refine ⟨h.nodup, h.waiting, fun hlive id' c' hmem => ?_⟩
  rcases List.mem_append.mp hmem with hmem | hmem
  · exact h.owned hlive id' c' hmem
  · obtain ⟨rfl, rfl⟩ := Prod.mk.inj (List.mem_singleton.mp hmem)
    exact howned

/-- What the daemon may open, and for whom. -/
theorem openFor_cases {cmd : ControlCmd} {opened : Option QueryId} {w₁ : World}
    (h : w.openFor cmd opened = some w₁) :
    w₁ = w ∨ ∃ id c, opened = some id ∧ cmd = .request .openQuery c
      ∧ w₁ = { w with opened := w.opened ++ [(id, c)] } := by
  cases opened with
  | none =>
      cases h
      exact .inl rfl
  | some id =>
      simp only [openFor] at h
      split at h
      · obtain ⟨-, h⟩ := Option.ite_none_left_eq_some.mp h
        cases h
        exact .inr ⟨id, _, rfl, rfl, rfl⟩
      · cases h

theorem Sound.serve (h : w.Sound) {cmd : ControlCmd} {opened : Option QueryId} {reply : Reply}
    {w₁ : World} (htask : w.task = .serving cmd) (hopen : w.openFor cmd opened = some w₁)
    (hkept : w.Kept (.serve opened (.ok reply))) :
    Sound { w₁.answer cmd (.ok reply) with task := .receiving } := by
  have hanswer := h.answer htask reply
  obtain rfl | ⟨id, c, rfl, rfl, rfl⟩ := openFor_cases hopen
  · exact hanswer
  · obtain ⟨⟨d, hserving, hclient⟩, hok, hid⟩ := hkept id reply rfl rfl
    cases htask.symm.trans hserving
    have hwaiting : w.reply c = .waiting := by
      refine (h.waiting c ?_).1
      rw [calls, htask]
      exact List.mem_cons_self
    exact hanswer.opened (.inl ⟨hclient, reply, answer_reply_self .openQuery hwaiting, hok, hid⟩)

theorem Sound.step {a : Action} (h : w.Sound) (hkept : w.Kept a)
    (hstep : w.step parses a = some w') : w'.Sound := by
  cases a with
  | call op =>
      simp only [World.step] at hstep
      split at hstep
      · rename_i hclient
        split_ifs at hstep
        · cases hstep
          refine h.finish op _ fun _ id c _ hpending _ => ?_
          rw [hclient] at hpending
          exact hpending.elim
        · cases hstep
          exact h.send hclient op
      · cases hstep
  | resume =>
      simp only [World.step] at hstep
      split at hstep
      · rename_i c op hclient
        -- a call whose reply is no ok reply has nothing on hands
        have hbare : (∀ reply, w.reply c ≠ .sent (.ok reply)) → ∀ res, (w.finish op res).Sound :=
          fun hno res => h.finish op res fun _ id c' _ hpending howned => by
            rw [hclient] at hpending
            obtain rfl : c = c' := hpending
            rcases howned with ⟨-, reply, hr, -⟩ | hc | hcov
            · exact absurd hr (hno reply)
            · cases hclient.symm.trans hc
            · exact hcov
        split at hstep
        · cases hstep
        · rename_i hr
          cases hstep
          exact hbare (by simp [hr]) _
        · rename_i hr
          cases hstep
          exact hbare (by simp [hr]) _
        · rename_i hr
          cases hstep
          exact h.replied hclient hr
      · cases hstep
  | attach res =>
      simp only [World.step] at hstep
      split at hstep
      · rename_i c q hclient
        have hmine : ∀ id c', w.client.Pending c' → w.Owned id c' → id = q ∨ w.Covered id := by
          intro id c' _ howned
          rcases howned with ⟨hc, -⟩ | hc | hcov
          · cases hclient.symm.trans hc
          · cases hclient.symm.trans hc
            exact .inl rfl
          · exact .inr hcov
        split at hstep
        · cases hstep
          refine h.move rfl rfl rfl rfl id (fun _ id hcov => ?_) fun _ id c' _ hpending howned => ?_
          · exact hcov.mono (List.Subset.refl _) (List.subset_append_left _ _)
          · refine .inr (.inr ?_)
            rcases hmine id c' hpending howned with rfl | hcov
            · exact .inr ⟨_, List.mem_append_right _ (List.mem_singleton_self _), rfl,
                fun hd => by cases hd⟩
            · exact hcov.mono (List.Subset.refl _) (List.subset_append_left _ _)
        · cases hstep
          exact h.cancel _ hmine
      · cases hstep
  | dropCall =>
      simp only [World.step] at hstep
      have hdrop : ∀ st, Sound { w with client := st } := fun st =>
        h.move rfl rfl rfl rfl id (fun _ _ hcov => hcov) fun hlive id c hmem hpending _ =>
          absurd (hkept id c hpending hmem) hlive
      split at hstep
      · cases hstep
        exact hdrop _
      · cases hstep
        exact hdrop _
      · cases hstep
  | dropClient =>
      simp only [World.step] at hstep
      split at hstep
      · rename_i hclient
        cases hstep
        refine (h.fire .closeClient).move rfl rfl rfl rfl id (fun _ _ hcov => hcov)
          fun _ id c _ hpending _ => ?_
        rw [fire_client, hclient] at hpending
        exact hpending.elim
      · cases hstep
  | poll i item =>
      simp only [World.step] at hstep
      split at hstep
      · rename_i q finished hs
        cases hstep
        have hcov : ∀ s', s'.id = q → s'.dropped = false →
            ∀ id, w.Covered id → (w.setStream i s').Covered id := fun s' hid hdropped id hcov =>
          hcov.setStream hs hid fun _ _ hd => by cases hdropped.symm.trans hd
        exact h.move rfl rfl rfl rfl id (fun _ => hcov _ rfl rfl) fun _ id c _ _ howned =>
          howned.mono rfl rfl (hcov _ rfl rfl id)
      · cases hstep
  | dropStream i =>
      simp only [World.step] at hstep
      split at hstep
      · rename_i q finished hs
        cases hstep
        have hcov : w.task ≠ .ended → ∀ id, w.Covered id →
            ((w.setStream i ⟨q, finished, true⟩).streamDropped q finished).Covered id :=
          fun hlive id hcov => hcov.streamDropped hlive hs
        cases finished with
        | true =>
            exact h.move rfl rfl rfl rfl id hcov fun hlive id c _ _ howned =>
              howned.mono rfl rfl (hcov hlive id)
        | false =>
            exact h.move (fire_calls _ _) (fire_reply _ _) (fire_nextCall _ _) (fire_opened _ _)
              (fun hlive => fire_task (w.setStream i _) _ ▸ hlive) hcov
              fun hlive id c _ _ howned =>
                howned.mono (fire_client _ _) (fire_reply _ _) (hcov hlive id)
      · cases hstep
  | recv =>
      simp only [World.step] at hstep
      split at hstep
      · rename_i cmd queue htask hqueue
        cases hstep
        refine h.move ?_ rfl rfl rfl (fun _ => ?_) (fun _ _ hcov => hcov)
          fun _ _ _ _ _ howned => howned.mono rfl rfl fun hcov => hcov
        · rw [calls, calls, htask, hqueue]
          rfl
        · rw [htask]
          exact fun he => by cases he
      · cases hstep
  | serve opened res =>
      simp only [World.step] at hstep
      split at hstep
      · rename_i cmd htask
        obtain ⟨w₁, hopen, rfl⟩ := Option.map_eq_some_iff.mp hstep
        cases res with
        | ok reply => exact h.serve htask hopen hkept
        | error e => exact sound_endTask _
      · cases hstep
  | shutdown =>
      simp only [World.step] at hstep
      split_ifs at hstep
      cases hstep
      exact sound_endTask w

theorem sound_init : init.Sound :=
  ⟨List.nodup_nil, fun _ hc => absurd hc List.not_mem_nil,
    fun _ _ _ hmem => absurd hmem List.not_mem_nil⟩

theorem Sound.tidy (h : w.Sound) : w.Tidy := by
  intro id c hmem hpending hstreams hlive
  rcases (h.owned hlive id c hmem).covered hpending with hcancel | ⟨s, hs, hid, hfinished⟩
  · exact .inl hcancel
  · exact .inr ⟨s, hs, hid, hfinished (hstreams s hs hid)⟩

end World

/-! ### Every run -/

/-- Every query of every run is looked after, as long as no call is dropped that the daemon has
opened a query for, or is about to. -/
theorem query_lifecycle {acts : List Action} (hrun : run (World.step parses) .init acts = some w)
    (hkept : Meets (World.step parses) World.Kept .init acts) : w.Tidy :=
  (invariant_of_meets (P := World.Sound) (fun hs hok hstep => hs.step hok hstep)
    World.sound_init hkept hrun).tidy

/-! ### Two runs -/

def openedReply (id : QueryId) : Reply :=
  ⟨true, some id, some "datamancerd/v3/data/7", none, none⟩

/-- A backtest that is given up: the stream is dropped with events to come. -/
def abandonedStream : List Action :=
  [.call .query, .recv, .serve (some 7) (.ok (openedReply 7)), .resume, .attach (.ok ()),
    .poll 0 .event, .dropStream 0]

theorem query_lifecycle_abandoned :
    ∃ w, run (World.step fun _ => true) .init abandonedStream = some w
      ∧ w.opened = [(7, 0)] ∧ w.client = .idle ∧ w.Tidy := by
  obtain ⟨w, hrun, hopened, hclient⟩ :
      ∃ w, run (World.step fun _ => true) .init abandonedStream = some w
        ∧ w.opened = [(7, 0)] ∧ w.client = .idle := ⟨_, rfl, rfl, rfl⟩
  refine ⟨w, hrun, hopened, hclient, query_lifecycle hrun ?_⟩
  iterate 2 refine (meets_cons rfl).mpr ⟨trivial, ?_⟩
  refine (meets_cons rfl).mpr ⟨fun id reply hid hreply => ?_, ?_⟩
  · cases hid
    cases hreply
    exact ⟨⟨0, rfl, rfl⟩, rfl, rfl⟩
  iterate 4 refine (meets_cons rfl).mpr ⟨trivial, ?_⟩
  trivial

/-- A timeout around `query`, while it attaches. -/
def timedOutQuery : List Action :=
  [.call .query, .recv, .serve (some 7) (.ok (openedReply 7)), .resume, .dropCall]

/-- The daemon has a query that nobody will cancel. -/
theorem timedOutQuery_not_tidy :
    ∃ w, run (World.step fun _ => true) .init timedOutQuery = some w
      ∧ w.opened = [(7, 0)] ∧ w.client = .idle ∧ w.streams = [] ∧ w.task = .receiving
      ∧ ¬ w.Tidy := by
  obtain ⟨w, hrun, hopened, hclient, hstreams, htask, henqueued⟩ :
      ∃ w, run (World.step fun _ => true) .init timedOutQuery = some w
        ∧ w.opened = [(7, 0)] ∧ w.client = .idle ∧ w.streams = [] ∧ w.task = .receiving
        ∧ w.enqueued = [.openQuery] := ⟨_, rfl, rfl, rfl, rfl, rfl, rfl⟩
  refine ⟨w, hrun, hopened, hclient, hstreams, htask, fun htidy => ?_⟩
  have hleft := htidy 7 0 (by rw [hopened]; exact List.mem_singleton_self _)
    (by rw [hclient]; exact id) (by simp [hstreams]) (by simp [htask])
  simp [henqueued, hstreams] at hleft

end Iceoryx2Client

end Datamancer
