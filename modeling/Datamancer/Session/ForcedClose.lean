import Datamancer.Live.FanOut
import Datamancer.Session.Closing

/-!
# Datamancer.Session.ForcedClose

Whether a `Close` of a historical session is answered without the consumer
(`Session::close`, `InProcessSink::publish`).

A controller that awaits room in the consumer's channel polls no commands. The receiver
of a stream that is never taken is held by the session itself, so such a channel fills
and stays full; nobody can take it any more once `close` has consumed the handle. Nor does
a controller poll commands that waits for the fetch slot, and the session that holds the
slot keeps it while it waits for a consumer of its own. A session is held up exactly if an
event is begun with a `Close` sent, or a `Close` is sent with an event begun, while the
channel is full and not dropped, or if a `Close` and the wait for the slot come together
(`moves_along_iff`).

`plan` stands for what the cache and the provider answer. That a fetch runs ahead into a
channel of its own is not a step here: with its reader waiting it comes to an end when that
channel is full.
-/

namespace Datamancer

open ActionSystem (Meets run_append)

variable {σ : Type}

/-- The steps of the controller, the provider's fetch and the cache. The fetch slot is
another session's to give. -/
def HistoricalAction.isOwn : HistoricalAction → Bool
  | .plan _ | .acquire _ | .proceed | .item | .command | .push => true
  | .grant | .take | .recv | .dropStream | .send _ | .dropHandle => false

namespace HistoricalSession

/-! ### A `Close` under way -/

/-- A `Close` has been sent and is not answered: it is queued, or handled up to the end of
`shutdown`. A controller that has ended drops its commands, which answers them too. -/
def CloseSent (s : HistoricalSession σ) : Prop :=
  (.close ∈ s.commands ∧ s.stage ≠ .closed) ∨ s.stage = .leaving true

instance (s : HistoricalSession σ) : Decidable s.CloseSent :=
  inferInstanceAs (Decidable (_ ∨ _))

/-- The controller, the fetch or the cache has a step, or the next stamp panics, which ends
the controller. -/
def Moves (s : HistoricalSession σ) : Prop :=
  (∃ a s', a.isOwn = true ∧ s.step a = some s') ∨
    (s.publishing = none ∧ s.stage ≠ .queued ∧ ∀ ev, s.ctl.stamp ev = none)

/-- The consumer's side takes an event at once: there is room, or nobody to wait for. -/
def Takes (s : HistoricalSession σ) : Prop := s.isAttached = true → s.stream.hasRoom = true

instance (s : HistoricalSession σ) : Decidable s.Takes :=
  inferInstanceAs (Decidable (_ → _))

/-- A `Close` waits for an event that waits for the consumer. -/
structure Starved (s : HistoricalSession σ) : Prop where
  sent : s.CloseSent
  publishing : s.publishing.isSome = true
  takes : ¬ s.Takes

/-- A `Close` waits for the fetch slot. -/
structure Queued (s : HistoricalSession σ) : Prop where
  sent : s.CloseSent
  stage : s.stage = .queued
  publishing : s.publishing = none

/-- A `Close` waits for another party. -/
def HeldUp (s : HistoricalSession σ) : Prop := s.Starved ∨ s.Queued

/-- The step begins to publish an event, without having seen that the stream is gone. -/
def begins (s : HistoricalSession σ) : HistoricalAction → Bool
  | .proceed =>
      match s.stage with
      | .running (.send _ :: _) | .running [] => true
      | _ => false
  | .item =>
      match s.stage with
      | .running (.loop _ (_ :: _) :: _) => true
      | _ => false
  | .command => s.commands.head? = some .close
  | _ => false

/-- The condition: an event that is begun with a `Close` sent, or is under way when it is
sent, finds the consumer's side ready for it, and no `Close` is sent ahead of or in the
wait for the fetch slot. -/
def Roomy (s : HistoricalSession σ) : HistoricalAction → Prop
  | .send .close => (s.publishing.isSome = true → s.Takes) ∧ s.stage ≠ .queued
  | .acquire free => free = false → ¬ s.CloseSent
  | a => s.begins a = true → s.CloseSent → s.Takes

instance (s : HistoricalSession σ) (a : HistoricalAction) : Decidable (s.Roomy a) := by
  unfold Roomy
  split <;> infer_instance

/-! ### What waits for the consumer -/

theorem Takes.congr {s s' : HistoricalSession σ} (hstream : s'.stream = s.stream)
    (hsink : s'.sink = s.sink) : s'.Takes ↔ s.Takes := by
  rw [Takes, Takes, isAttached_congr hstream hsink, hstream]

theorem takes_of_not_attached {s : HistoricalSession σ} (h : s.isAttached = false) : s.Takes := by
  intro hattached
  cases h.symm.trans hattached

theorem deliver_of_takes {s : HistoricalSession σ} (h : s.Takes) (ev : MarketEvent) :
    ∃ s', s.deliver ev = some s' := by
  unfold deliver
  cases hsink : s.sink with
  | detached ring => exact ⟨_, rfl⟩
  | attached =>
      rcases s.stream.trySend_cases ev with ⟨-, -, hs⟩ | ⟨hopen, hfull, -⟩ | ⟨-, hs⟩
      · rw [hs]
        exact ⟨_, rfl⟩
      · have hroom := h (by simp [isAttached, hsink, hopen])
        cases hfull.symm.trans hroom
      · rw [hs]
        exact ⟨_, rfl⟩

theorem deliver_of_not_takes {s : HistoricalSession σ} (h : ¬ s.Takes) (ev : MarketEvent) :
    s.deliver ev = none := by
  obtain ⟨hattached, hfull⟩ := Classical.not_imp.mp h
  unfold isAttached at hattached
  unfold deliver
  cases hsink : s.sink with
  | detached ring =>
      rw [hsink] at hattached
      cases hattached
  | attached =>
      rw [hsink] at hattached
      rcases s.stream.trySend_cases ev with ⟨-, hroom, -⟩ | ⟨-, -, hs⟩ | ⟨hclosed, -⟩
      · exact absurd hroom hfull
      · simp only [hs]
      · cases hclosed.symm.trans hattached

/-- Stamping depends on the counter only. -/
theorem stamp_or_none (c : Controller σ) :
    (∀ ev, ∃ r, c.stamp ev = some r) ∨ ∀ ev, c.stamp ev = none := by
  by_cases h : c.nextSeq.toNat + 1 < 2 ^ 64 - 1
  · exact .inl fun ev => ⟨_, if_pos h⟩
  · exact .inr fun ev => if_neg h

theorem publish_or_none (s : HistoricalSession σ) (way : Way) (ev : MarketEvent)
    (stage : HistoricalStage) :
    (∃ s', s.publish way ev stage = some s') ∨ ∀ ev, s.ctl.stamp ev = none := by
  rcases stamp_or_none s.ctl with h | h
  · left
    obtain ⟨r, hr⟩ := h ev
    cases way with
    | emit => exact ⟨_, by simp [publish, Way.send, Controller.emit, hr]; rfl⟩
    | forward => exact ⟨_, by simp [publish, Way.send, Controller.forward, hr]; rfl⟩
  · exact .inr h

theorem announce_or_none (s : HistoricalSession σ) (stage : HistoricalStage) :
    (∃ s', s.announce stage = some s') ∨ ∀ ev, s.ctl.stamp ev = none := by
  rcases stamp_or_none s.ctl with h | h
  · left
    have hstamp : ∃ r, { s.ctl with clockReads := s.ctl.clockReads + 1 }.stamp
        s.ctl.closingControl = some r := by
      obtain ⟨r, hr⟩ := h s.ctl.closingControl
      unfold Controller.stamp at hr ⊢
      split_ifs at hr with hseq
      exact ⟨_, if_pos hseq⟩
    obtain ⟨r, hr⟩ := hstamp
    exact ⟨_, by simp [announce, Controller.emitClosing, Controller.emit, hr]; rfl⟩
  · exact .inr h

/-! ### The two ways to be held up -/

theorem Starved.step_own {s : HistoricalSession σ} {a : HistoricalAction} (h : s.Starved)
    (hown : a.isOwn = true) : s.step a = none := by
  obtain ⟨ev, hpub⟩ := Option.isSome_iff_exists.mp h.publishing
  cases a with
  | push => simp [step, hpub, deliver_of_not_takes h.takes ev]
  | plan plan | acquire free => simp [step, hpub]
  | proceed | item | command => simp [step, hpub]
  | grant | take | recv | dropStream | send cmd | dropHandle => cases hown

theorem Queued.step_own {s : HistoricalSession σ} {a : HistoricalAction} (h : s.Queued)
    (hown : a.isOwn = true) : s.step a = none := by
  cases a with
  | push => simp [step, h.publishing]
  | plan plan | acquire free => simp [step, h.stage, HistoricalStage.plans]
  | proceed => simp [step, proceed, h.stage]
  | item | command => simp [step, select, h.stage]
  | grant | take | recv | dropStream | send cmd | dropHandle => cases hown

theorem HeldUp.step_own {s : HistoricalSession σ} {a : HistoricalAction} (h : s.HeldUp)
    (hown : a.isOwn = true) : s.step a = none := by
  rcases h with h | h
  · exact h.step_own hown
  · exact h.step_own hown

theorem HeldUp.sent {s : HistoricalSession σ} (h : s.HeldUp) : s.CloseSent := by
  rcases h with h | h
  · exact h.sent
  · exact h.sent

theorem moves_of_step {s : HistoricalSession σ} {a : HistoricalAction} (hown : a.isOwn = true)
    (hpub : s.publishing = none) (hstage : s.stage ≠ .queued)
    (h : (∃ s', s.step a = some s') ∨ ∀ ev, s.ctl.stamp ev = none) : s.Moves := by
  rcases h with ⟨s', hs⟩ | hnone
  · exact .inl ⟨a, s', hown, hs⟩
  · exact .inr ⟨hpub, hstage, hnone⟩

theorem handleNext_or_none {s : HistoricalSession σ} (h : s.commands ≠ []) :
    (∃ s', s.handleNext = some s') ∨ ∀ ev, s.ctl.stamp ev = none := by
  unfold handleNext
  split
  · exact absurd ‹_› h
  · exact announce_or_none _ _
  · rename_i cmd commands hclose hcommands
    cases cmd with
    | close => exact absurd rfl hclose
    | setPersistence options => exact .inl ⟨_, rfl⟩
    | addSubscriber id => exact .inl ⟨_, rfl⟩

/-- A controller that awaits nothing and has a `Close` to answer goes on. -/
theorem moves_of_idle {s : HistoricalSession σ} (hpub : s.publishing = none)
    (hqueued : s.stage ≠ .queued) (hsent : s.CloseSent) : s.Moves := by
  cases hstage : s.stage with
  | planning | replanning =>
      exact moves_of_step (a := .plan (.cached [])) rfl hpub hqueued
        (.inl (by simp [step, hpub, hstage, HistoricalStage.plans]))
  | queued => exact absurd hstage hqueued
  | running jobs =>
      cases jobs with
      | nil =>
          refine moves_of_step (a := .proceed) rfl hpub hqueued ?_
          simpa [step, proceed, hpub, hstage] using s.announce_or_none _
      | cons job jobs =>
          cases job with
          | send ev =>
              refine moves_of_step (a := .proceed) rfl hpub hqueued ?_
              simpa [step, proceed, hpub, hstage] using s.publish_or_none _ _ _
          | loop way evs =>
              refine moves_of_step (a := .item) rfl hpub hqueued ?_
              cases evs with
              | nil => exact .inl (by simp [step, select, hpub, hstage])
              | cons ev evs =>
                  simpa [step, select, hpub, hstage] using s.publish_or_none _ _ _
  | announced =>
      refine moves_of_step (a := .proceed) rfl hpub hqueued ?_
      cases hattached : s.isAttached with
      | true => exact .inl (by simp [step, proceed, hpub, hstage, hattached])
      | false => simpa [step, proceed, hpub, hstage, hattached] using s.announce_or_none _
  | draining =>
      -- the stream is waited for, and the commands are polled the while
      have hcommands : s.commands ≠ [] := by
        rcases hsent with ⟨hmem, -⟩ | hleaving
        · exact List.ne_nil_of_mem hmem
        · cases hstage.symm.trans hleaving
      refine moves_of_step (a := .command) rfl hpub hqueued ?_
      simpa [step, select, hpub, hstage] using handleNext_or_none hcommands
  | leaving ack =>
      exact moves_of_step (a := .proceed) rfl hpub hqueued
        (.inl (by simp [step, proceed, hpub, hstage]))
  | closed =>
      rcases hsent with ⟨-, hopen⟩ | hleaving
      · exact absurd hstage hopen
      · cases hstage.symm.trans hleaving

/-- With a `Close` sent there is always a step, unless the session is held up. -/
theorem moves_iff {s : HistoricalSession σ} : (s.CloseSent → s.Moves) ↔ ¬ s.HeldUp := by
  constructor
  · intro hmoves hheld
    rcases hmoves hheld.sent with ⟨a, s', hown, hstep⟩ | ⟨hpub, hqueued, -⟩
    · cases (hheld.step_own hown).symm.trans hstep
    · rcases hheld with hstarved | hslot
      · have hsome := hstarved.publishing
        rw [hpub] at hsome
        cases hsome
      · exact hqueued hslot.stage
  · intro hfree hsent
    cases hpub : s.publishing with
    | none => exact moves_of_idle hpub (fun hstage => hfree (.inr ⟨hsent, hstage, hpub⟩)) hsent
    | some ev =>
        have htakes : s.Takes := by
          by_contra htakes
          exact hfree (.inl ⟨hsent, by rw [hpub]; rfl, htakes⟩)
        obtain ⟨s', hs⟩ := deliver_of_takes htakes ev
        exact .inl ⟨.push, s', rfl, by rw [step, hpub]; exact hs⟩

/-! ### One step -/

/-- Nothing is being published in the wait for the fetch slot. -/
def QueuedIdle (s : HistoricalSession σ) : Prop := s.stage = .queued → s.publishing = none

theorem QueuedIdle.step {s s' : HistoricalSession σ} {a : HistoricalAction} (h : s.QueuedIdle)
    (hstep : s.step a = some s') : s'.QueuedIdle := by
  have hannounce : ∀ {t : HistoricalSession σ} {stage : HistoricalStage},
      t.announce stage = some s' → stage ≠ .queued → s'.QueuedIdle := fun hs hto hqueued =>
    absurd ((announce_spec hs).1.symm.trans hqueued) hto
  cases step_cases hstep with
  | plan hpub _ hs | acquire hpub _ hs | grant hpub _ hs | loopEnd hpub _ hs | wait hpub _ _ hs
  | leave hpub _ hs =>
      subst hs
      exact fun _ => hpub
  | sendJob _ _ hs | item _ _ hs =>
      intro hqueued
      cases (publish_spec hs).1.symm.trans hqueued
  | finish _ _ hs => exact hannounce hs (by split_ifs <;> simp)
  | depart _ _ _ hs | close _ _ _ hs => exact hannounce hs (by simp)
  | configure _ _ hs =>
      subst hs
      exact h
  | push _ hs => exact fun _ => (deliver_spec hs).2.1
  | outside hs => exact fun hqueued => hs.publishing.trans (h (hs.stage.symm.trans hqueued))

theorem queuedIdle_spawn {ctl : Controller σ} {ringCapacity buffer commandCap : Nat} :
    (spawn ctl ringCapacity buffer commandCap).QueuedIdle := fun _ => rfl

/-- What a step of the session's own does to the event it publishes. The look at the fetch slot
is apart (`heldUp_acquire`). -/
inductive Own (s s' : HistoricalSession σ) (a : HistoricalAction) : Prop
  | begun (hbegins : s.begins a = true ∨ s.isAttached = false)
      (hpub : s'.publishing.isSome = true) (hstream : s'.stream = s.stream)
      (hsink : s'.sink = s.sink) (hsent : s'.CloseSent ↔ s.CloseSent) (hheld : s'.held = s.held)
  | idle (hbegins : s.begins a = false) (hpub : s'.publishing = none) (hstage : s'.stage ≠ .queued)
      (hsent : s'.CloseSent → s.CloseSent) (hheld : s'.held = s.held)

/-- While it runs and while it waits, a session has a `Close` to answer if one is queued. -/
theorem closeSent_iff {s : HistoricalSession σ} (hopen : s.stage ≠ .closed)
    (hack : s.stage ≠ .leaving true) : s.CloseSent ↔ .close ∈ s.commands := by
  simp [CloseSent, hopen, hack]

theorem Own.of_publish {s s' : HistoricalSession σ} {a : HistoricalAction} {way : Way}
    {ev : MarketEvent} {jobs jobs' : List Job} (hstage : s.stage = .running jobs)
    (hbegins : s.begins a = true) (h : s.publish way ev (.running jobs') = some s') :
    s.Own s' a := by
  obtain ⟨ctl, -, hrest⟩ := Option.bind_eq_some_iff.mp h
  obtain rfl := Option.some.inj hrest
  refine .begun (.inl hbegins) rfl rfl rfl ?_ rfl
  rw [closeSent_iff (by simp) (by simp), closeSent_iff (by simp [hstage]) (by simp [hstage])]

theorem Own.of_announce {s s' : HistoricalSession σ} {a : HistoricalAction}
    {stage : HistoricalStage} (hopen : s.stage ≠ .closed) (hack : s.stage ≠ .leaving true)
    (hto : stage = .announced ∨ stage = .leaving false)
    (hbegins : s.begins a = true ∨ s.isAttached = false) (h : s.announce stage = some s') :
    s.Own s' a := by
  obtain ⟨ctl, -, hrest⟩ := Option.bind_eq_some_iff.mp h
  obtain rfl := Option.some.inj hrest
  refine .begun hbegins rfl rfl rfl ?_ rfl
  rcases hto with rfl | rfl <;>
    rw [closeSent_iff (by simp) (by simp), closeSent_iff hopen hack]

/-- The command taken is the `Close`, or the controller stays where it is. -/
theorem Own.of_handleNext {s s' : HistoricalSession σ} (hpub : s.publishing = none)
    (hpolls : s.Polls) (h : s.handleNext = some s') : s.Own s' .command := by
  have hopen : s.stage ≠ .closed := by
    rcases hpolls with ⟨way, evs, jobs, hstage⟩ | hstage <;> simp [hstage]
  unfold handleNext at h
  split at h
  · cases h
  · rename_i commands hcommands
    obtain ⟨ctl, -, hrest⟩ := Option.bind_eq_some_iff.mp h
    obtain rfl := Option.some.inj hrest
    refine .begun (.inl (by simp [begins, hcommands])) rfl rfl rfl ?_ rfl
    simp [CloseSent, hcommands, hopen]
  · rename_i cmd commands hclose hcommands
    obtain ⟨⟨go, ctl⟩, -, hrest⟩ := Option.bind_eq_some_iff.mp h
    obtain rfl := Option.some.inj hrest
    have hne : cmd ≠ .close := hclose
    refine .idle (by simp [begins, hcommands, hne]) hpub ?_ ?_ rfl
    · rcases hpolls with ⟨way, evs, jobs, hstage⟩ | hstage <;> simp [hstage]
    · simp [CloseSent, hcommands, hne.symm]

theorem own_of_proceed {s s' : HistoricalSession σ} (hpub : s.publishing = none)
    (h : s.proceed = some s') : s.Own s' .proceed := by
  unfold proceed at h
  split at h
  · rename_i ev jobs hstage
    exact .of_publish hstage (by simp [begins, hstage]) h
  · rename_i hstage
    refine .of_announce (by simp [hstage]) (by simp [hstage]) ?_ (.inl (by simp [begins, hstage])) h
    split_ifs
    · exact .inl rfl
    · exact .inr rfl
  · rename_i hstage
    split_ifs at h with hattached
    · obtain rfl := Option.some.inj h
      exact .idle (by simp [begins, hstage]) hpub (by simp) (by simp [CloseSent, hstage]) rfl
    · exact .of_announce (by simp [hstage]) (by simp [hstage]) (.inr rfl)
        (.inr (by simpa using hattached)) h
  · rename_i hstage
    split_ifs at h with hopen
    exact .of_announce (by simp [hstage]) (by simp [hstage]) (.inr rfl)
      (.inr (isAttached_of_stream_closed (by simpa using hopen))) h
  · rename_i ack hstage
    obtain rfl := Option.some.inj h
    exact .idle (by simp [begins, hstage]) hpub (by simp) (by simp [CloseSent]) rfl
  · cases h

theorem deliver_keeps {s s' : HistoricalSession σ} {ev : MarketEvent}
    (h : s.deliver ev = some s') : (s'.CloseSent ↔ s.CloseSent) ∧ s'.held = s.held := by
  unfold deliver at h
  split at h
  · split at h
    · obtain rfl := Option.some.inj h
      exact ⟨.rfl, rfl⟩
    · cases h
    · obtain rfl := Option.some.inj h
      exact ⟨.rfl, rfl⟩
  · obtain rfl := Option.some.inj h
    exact ⟨.rfl, rfl⟩

theorem own_cases {s s' : HistoricalSession σ} {a : HistoricalAction} (hidle : s.QueuedIdle)
    (hown : a.isOwn = true) (hacquire : ∀ free, a ≠ .acquire free) (h : s.step a = some s') :
    s.Own s' a := by
  cases a with
  | push =>
      obtain ⟨ev, hpub, hs⟩ := Option.bind_eq_some_iff.mp h
      obtain ⟨hsent, hheld⟩ := deliver_keeps hs
      refine .idle rfl (deliver_spec hs).2.1 (fun hqueued => ?_) hsent.mp hheld
      cases hpub.symm.trans (hidle ((deliver_spec hs).1.symm.trans hqueued))
  | plan plan =>
      rw [step] at h
      split_ifs at h with hcond
      obtain rfl := Option.some.inj h
      obtain ⟨hpub, hstage⟩ : s.publishing = none ∧ s.stage.plans = true := by simpa using hcond
      refine .idle rfl hpub (by simp) ?_ rfl
      rw [closeSent_iff (by simp) (by simp)]
      intro hclose
      exact .inl ⟨hclose, fun hclosed => by rw [hclosed] at hstage; cases hstage⟩
  | acquire free => exact absurd rfl (hacquire free)
  | proceed =>
      obtain ⟨hpub, h⟩ := Option.ite_none_right_eq_some.mp h
      exact own_of_proceed (Option.isNone_iff_eq_none.mp hpub) h
  | item =>
      obtain ⟨hpub, h⟩ := Option.ite_none_right_eq_some.mp h
      rw [Option.isNone_iff_eq_none] at hpub
      unfold select at h
      dsimp only at h
      split at h
      · rename_i way ev evs jobs hstage
        exact .of_publish hstage (by simp [begins, hstage]) h
      · rename_i way jobs hstage
        obtain rfl := Option.some.inj h
        exact .idle (by simp [begins, hstage]) hpub (by simp) (by simp [CloseSent, hstage]) rfl
      · cases h
  | command =>
      obtain ⟨hpub, h⟩ := Option.ite_none_right_eq_some.mp h
      rw [Option.isNone_iff_eq_none] at hpub
      unfold select at h
      dsimp only at h
      split at h
      · rename_i way evs jobs hstage
        exact .of_handleNext hpub (.inl ⟨way, evs, jobs, hstage⟩) h
      · rename_i hstage
        exact .of_handleNext hpub (.inr hstage) h
      · cases h
  | grant | take | recv | dropStream | send cmd | dropHandle => cases hown

theorem Starved.back {s s' : HistoricalSession σ} (h : s'.Starved)
    (hsent : s'.CloseSent → s.CloseSent) (hpub : s'.publishing = s.publishing)
    (htakes : s.Takes → s'.Takes) : s.Starved :=
  ⟨hsent h.sent, hpub ▸ h.publishing, mt htakes h.takes⟩

theorem HeldUp.back {s s' : HistoricalSession σ} (h : s'.HeldUp)
    (hsent : s'.CloseSent → s.CloseSent) (hpub : s'.publishing = s.publishing)
    (hstage : s'.stage = s.stage) (htakes : s.Takes → s'.Takes) : s.HeldUp := by
  rcases h with hst | hq
  · exact .inl (hst.back hsent hpub htakes)
  · exact .inr ⟨hsent hq.sent, hstage ▸ hq.stage, hpub ▸ hq.publishing⟩

theorem takes_recv {s : HistoricalSession σ} {stream : Channel MarketEvent}
    (hrecv : s.stream.recv = some stream) (h : s.Takes) : { s with stream }.Takes := by
  obtain ⟨hopen, ev, queue, hqueue, rfl⟩ := Channel.recv_eq_some hrecv
  intro hattached
  have hroom : s.stream.hasRoom = true := by
    refine h ?_
    unfold isAttached at hattached ⊢
    exact hattached
  simp only [Channel.hasRoom, hqueue, List.length_cons, decide_eq_true_eq] at hroom ⊢
  omega

theorem takes_of_stream_closed {s : HistoricalSession σ} (h : s.stream.isOpen = false) : s.Takes :=
  takes_of_not_attached (isAttached_of_stream_closed h)

/-- What a step of the session's own begins with a `Close` sent is what can starve it. -/
theorem Own.heldUp_iff {s s' : HistoricalSession σ} {a : HistoricalAction} (h : s.Own s' a) :
    ¬ s'.HeldUp ↔ (s.begins a = true → s.CloseSent → s.Takes) := by
  cases h with
  | begun hbegins hpub hstream hsink hsent hheld =>
      constructor
      · intro hfree hbegins hs
        by_contra htakes
        exact hfree (.inl ⟨hsent.mpr hs, hpub, mt (Takes.congr hstream hsink).mp htakes⟩)
      · rintro hroomy (hst | hq)
        · refine hst.takes ((Takes.congr hstream hsink).mpr ?_)
          rcases hbegins with hbegins | hgone
          · exact hroomy hbegins (hsent.mp hst.sent)
          · exact takes_of_not_attached hgone
        · rw [hq.publishing] at hpub
          cases hpub
  | idle hbegins hpub hstage hsent hheld =>
      refine iff_of_true ?_ fun hb => ?_
      · rintro (hst | hq)
        · have hsome := hst.publishing
          rw [hpub] at hsome
          cases hsome
        · exact hstage hq.stage
      · cases hbegins.symm.trans hb

/-- A session that has to wait for the fetch slot is held up if a `Close` has been sent. -/
theorem heldUp_acquire {s s' : HistoricalSession σ} {free : Bool}
    (h : s.step (.acquire free) = some s') :
    ¬ s'.HeldUp ↔ (free = false → ¬ s.CloseSent) := by
  obtain ⟨hcond, h⟩ := Option.ite_none_right_eq_some.mp h
  obtain rfl := Option.some.inj h
  obtain ⟨hpub, hstage⟩ : s.publishing = none ∧ s.stage = .planning := by simpa using hcond
  have hstarved : ∀ stage : HistoricalStage, ¬ { s with stage }.Starved := fun _ hst => by
    have hsome := hst.publishing
    rw [hpub] at hsome
    cases hsome
  cases free with
  | true =>
      refine iff_of_true ?_ (fun hfree => by cases hfree)
      rintro (hst | hq)
      · exact hstarved _ hst
      · cases hq.stage
  | false =>
      have hsent : { s with stage := .queued }.CloseSent ↔ s.CloseSent := by
        rw [closeSent_iff (by simp) (by simp), closeSent_iff (by simp [hstage]) (by simp [hstage])]
      refine ⟨fun hfree _ hs => hfree (.inr ⟨hsent.mpr hs, rfl, hpub⟩), fun hroomy => ?_⟩
      rintro (hst | hq)
      · exact hstarved _ hst
      · exact hroomy rfl (hsent.mp hq.sent)

/-- The consumer, the owner of the handle and the holder of the fetch slot hold up a session
only by sending a `Close`. -/
theorem heldUp_aside {s s' : HistoricalSession σ} {a : HistoricalAction} (hfree : ¬ s.HeldUp)
    (hown : a.isOwn = false) (hclose : a ≠ .send .close)
    (h : s.step a = some s') : ¬ s'.HeldUp := by
  cases a with
  | plan plan | acquire free | proceed | item | command | push => cases hown
  | grant =>
      rw [step] at h
      split_ifs at h with hcond
      obtain rfl := Option.some.inj h
      obtain ⟨hpub, hstage⟩ : s.publishing = none ∧ s.stage = .queued := by simpa using hcond
      rintro (hst | hq)
      · have hsome := hst.publishing
        rw [hpub] at hsome
        cases hsome
      · cases hq.stage
  | take =>
      rw [step] at h
      split_ifs at h
      obtain rfl := Option.some.inj h
      exact fun hst => hfree (hst.back id rfl rfl id)
  | recv =>
      rw [step] at h
      split_ifs at h
      obtain ⟨stream, hrecv, rfl⟩ := Option.map_eq_some_iff.mp h
      exact fun hst => hfree (hst.back id rfl rfl (takes_recv hrecv))
  -- a consumer that is gone makes every publish go through
  | dropStream =>
      rw [step] at h
      split_ifs at h
      obtain rfl := Option.some.inj h
      rintro (hst | hq)
      · exact hst.takes (takes_of_stream_closed rfl)
      · exact hfree (.inr ⟨hq.sent, hq.stage, hq.publishing⟩)
  | dropHandle =>
      rw [step] at h
      split_ifs at h
      obtain rfl := Option.some.inj h
      exact fun hst => hfree (hst.back id rfl rfl id)
  | send cmd =>
      rw [step] at h
      split_ifs at h
      obtain rfl := Option.some.inj h
      have hne : cmd ≠ .close := fun heq => hclose (heq ▸ rfl)
      refine fun hst => hfree (hst.back ?_ rfl rfl id)
      simp [CloseSent, hne.symm]

/-- A `Close` sent with an event under way starves the session at once if there is no room
for that event, and one sent in the wait for the fetch slot waits for it too. -/
theorem heldUp_close {s s' : HistoricalSession σ} (hidle : s.QueuedIdle)
    (h : s.step (.send .close) = some s') :
    ¬ s'.HeldUp ↔ (s.publishing.isSome = true → s.Takes) ∧ s.stage ≠ .queued := by
  rw [step] at h
  split_ifs at h with hcond
  obtain rfl := Option.some.inj h
  have hopen : s.stage ≠ .closed := by
    simp only [Bool.and_eq_true, decide_eq_true_eq] at hcond
    exact hcond.1.2
  have hsent : { s with commands := s.commands ++ [SessionCommand.close], held := false }.CloseSent :=
    .inl ⟨by simp, hopen⟩
  constructor
  · refine fun hfree => ⟨fun hpub => ?_, fun hstage => ?_⟩
    · by_contra htakes
      exact hfree (.inl ⟨hsent, hpub, htakes⟩)
    · exact hfree (.inr ⟨hsent, hstage, hidle hstage⟩)
  · rintro ⟨hroomy, hstage⟩ (hst | hq)
    · exact hst.takes (hroomy hst.publishing)
    · exact hstage hq.stage

/-- A step of a session that is not held up leaves it so exactly if it finds room. -/
theorem heldUp_step {s s' : HistoricalSession σ} {a : HistoricalAction} (hidle : s.QueuedIdle)
    (hfree : ¬ s.HeldUp) (h : s.step a = some s') : ¬ s'.HeldUp ↔ s.Roomy a := by
  cases a with
  | acquire free => exact heldUp_acquire h
  | plan plan | proceed | item | command | push =>
      exact (own_cases hidle rfl (by simp) h).heldUp_iff
  | grant | take | recv | dropStream | dropHandle =>
      exact iff_of_true (heldUp_aside hfree rfl (by simp) h) fun hbegins => by cases hbegins
  | send cmd =>
      cases cmd with
      | close => exact heldUp_close hidle h
      | setPersistence options | addSubscriber id =>
          exact iff_of_true (heldUp_aside hfree rfl (by simp) h) fun hbegins => by cases hbegins

/-! ### Every run -/

variable {ctl : Controller σ} {ringCapacity buffer commandCap : Nat}
  {acts : List HistoricalAction} {s : HistoricalSession σ}

theorem not_heldUp_spawn : ¬ (spawn ctl ringCapacity buffer commandCap).HeldUp := by
  rintro (hst | hq)
  · cases hst.publishing
  · cases hq.stage

/-- In every state of a run a `Close` that has been sent has a step of the session's own to
wait for, exactly if every step of the run finds room. -/
theorem moves_along_iff (h : (spawn ctl ringCapacity buffer commandCap).run acts = some s) :
    (∀ before t, before <+: acts →
        (spawn ctl ringCapacity buffer commandCap).run before = some t → t.CloseSent → t.Moves) ↔
      Meets step Roomy (spawn ctl ringCapacity buffer commandCap) acts := by
  simp only [moves_iff]
  exact ActionSystem.along_iff_meets QueuedIdle.step heldUp_step queuedIdle_spawn
    not_heldUp_spawn h

/-- `close` consumes the handle. -/
theorem held_of_closeSent (h : (spawn ctl ringCapacity buffer commandCap).run acts = some s)
    (hsent : s.CloseSent) : s.held = false := by
  have hinv := ActionSystem.invariant
    (P := fun s => s.QueuedIdle ∧ (s.CloseSent → s.held = false)) ?_ ?_ h
  · exact hinv.2 hsent
  · rintro s a s' ⟨hidle, ih⟩ hstep
    refine ⟨hidle.step hstep, fun hsent => ?_⟩
    cases a with
    | plan plan | proceed | item | command | push =>
        cases own_cases hidle rfl (by simp) hstep with
        | begun _ _ _ _ hiff hheld => exact hheld.trans (ih (hiff.mp hsent))
        | idle _ _ _ hback hheld => exact hheld.trans (ih (hback hsent))
    | acquire free =>
        obtain ⟨hcond, hstep⟩ := Option.ite_none_right_eq_some.mp hstep
        obtain rfl := Option.some.inj hstep
        obtain ⟨-, hstage⟩ : s.publishing = none ∧ s.stage = .planning := by simpa using hcond
        refine ih ?_
        rw [closeSent_iff (by simp [hstage]) (by simp [hstage])]
        cases free <;> simpa [CloseSent] using hsent
    | grant =>
        rw [step] at hstep
        split_ifs at hstep with hcond
        obtain rfl := Option.some.inj hstep
        obtain ⟨-, hstage⟩ : s.publishing = none ∧ s.stage = .queued := by simpa using hcond
        refine ih ?_
        rw [closeSent_iff (by simp [hstage]) (by simp [hstage])]
        simpa [CloseSent] using hsent
    | take | dropStream =>
        rw [step] at hstep
        split_ifs at hstep
        obtain rfl := Option.some.inj hstep
        exact ih hsent
    | dropHandle =>
        rw [step] at hstep
        split_ifs at hstep
        obtain rfl := Option.some.inj hstep
        rfl
    | recv =>
        rw [step] at hstep
        split_ifs at hstep
        obtain ⟨stream, -, rfl⟩ := Option.map_eq_some_iff.mp hstep
        exact ih hsent
    | send cmd =>
        rw [step] at hstep
        split_ifs at hstep with hcond
        obtain rfl := Option.some.inj hstep
        by_cases hclose : cmd = .close
        · simp [hclose]
        -- a handle that was consumed sends nothing any more
        · have hback : s.CloseSent := by simpa [CloseSent, Ne.symm hclose] using hsent
          simp [ih hback] at hcond
  · refine ⟨queuedIdle_spawn, fun hsent => ?_⟩
    simp [spawn, CloseSent] at hsent

/-- A session starved by a stream that was never taken stays as it is: no party has a step
left. -/
theorem stuck_of_starved (h : (spawn ctl ringCapacity buffer commandCap).run acts = some s)
    (hst : s.Starved) (htaken : s.taken = false) (a : HistoricalAction) : s.step a = none := by
  have hheld := held_of_closeSent h hst.sent
  cases a with
  | plan plan | acquire free | proceed | item | command | push => exact hst.step_own rfl
  | grant => simp [step, Option.isSome_iff_ne_none.mp hst.publishing]
  | take | send cmd | dropHandle => simp [step, hheld]
  | recv | dropStream => simp [step, htaken]

/-! ### A history longer than the channel -/

theorem send_spec (way : Way) {c : Controller σ} (ev : MarketEvent)
    (hseq : c.nextSeq.toNat + 1 < 2 ^ 64 - 1) :
    ∃ c', way.send c ev = some c' ∧ c'.nextSeq.toNat = c.nextSeq.toNat + 1 := by
  have hnext : (c.nextSeq + UInt64.ofNat 1).toNat = c.nextSeq.toNat + 1 := by
    rw [UInt64.toNat_add]
    exact Nat.mod_eq_of_lt (by simp; omega)
  have hstamp : ∃ r, c.stamp ev = some r := ⟨_, if_pos hseq⟩
  obtain ⟨r, hr⟩ := hstamp
  cases way with
  | emit =>
      have hs : ∃ c', c.emit ev = some c' := by simp [Controller.emit, hr]
      obtain ⟨c', hc'⟩ := hs
      exact ⟨c', hc', by rw [(Controller.emits_emit hc').nextSeq]; exact hnext⟩
  | forward =>
      have hs : ∃ c', c.forward ev = some c' := by simp [Controller.forward, hr]
      obtain ⟨c', hc'⟩ := hs
      exact ⟨c', hc', by rw [(Controller.emits_forward hc').nextSeq]; exact hnext⟩

/-- While there is room, a loop sends one event after the other to a consumer that takes
none of them. -/
theorem fills {way : Way} {evs rest : List MarketEvent} {jobs : List Job}
    {s : HistoricalSession σ} (hpub : s.publishing = none)
    (hstage : s.stage = .running (.loop way (evs ++ rest) :: jobs)) (hsink : s.sink = .attached)
    (hopen : s.stream.isOpen = true) (hroom : s.stream.queue.length + evs.length ≤ s.stream.cap)
    (hseq : s.ctl.nextSeq.toNat + evs.length < 2 ^ 64 - 1) :
    ∃ ctl stream, s.run (evs.flatMap fun _ => [.item, .push]) =
        some { s with ctl, stream, stage := .running (.loop way rest :: jobs) } ∧
      ctl.nextSeq.toNat = s.ctl.nextSeq.toNat + evs.length ∧ stream.isOpen = true ∧
      stream.cap = s.stream.cap ∧ stream.queue.length = s.stream.queue.length + evs.length := by
  induction evs generalizing s with
  | nil =>
      obtain ⟨ctl, stage, publishing, sink, ringCapacity, stream, taken, commands, cap, held⟩ := s
      obtain rfl : stage = _ := hstage
      exact ⟨ctl, stream, rfl, rfl, hopen, rfl, rfl⟩
  | cons ev evs ih =>
      rw [List.length_cons] at hroom hseq
      obtain ⟨ctl, hctl, hnext⟩ := send_spec way (c := s.ctl) ev (by omega)
      have hitem : s.step .item = some { s with
          ctl, stage := .running (.loop way (evs ++ rest) :: jobs)
          publishing := some (ev.stampSeq ⟨s.ctl.nextSeq⟩) } := by
        simp [step, select, publish, hpub, hstage, hctl]
      have hfree : s.stream.hasRoom = true := by
        simp only [Channel.hasRoom, decide_eq_true_eq]
        omega
      -- the channel takes the event, and the rest is sent from there
      have hpush : { s with
          ctl, stage := .running (.loop way (evs ++ rest) :: jobs)
          publishing := some (ev.stampSeq ⟨s.ctl.nextSeq⟩) }.step .push = some { s with
          ctl, stage := .running (.loop way (evs ++ rest) :: jobs)
          stream := { s.stream with
            queue := s.stream.queue ++ [ev.stampSeq ⟨s.ctl.nextSeq⟩] } } := by
        simp [step, deliver, hsink, Channel.trySend, hopen, hfree, hpub]
      obtain ⟨ctl', stream, hrun, hnext', hopen', hcap, hlen⟩ := ih (s := { s with
          ctl, stage := .running (.loop way (evs ++ rest) :: jobs)
          stream := { s.stream with
            queue := s.stream.queue ++ [ev.stampSeq ⟨s.ctl.nextSeq⟩] } }) hpub rfl hsink hopen
        (by simp; omega) (by simp only [hnext]; omega)
      refine ⟨ctl', stream, ?_, ?_, hopen', hcap, ?_⟩
      · rw [List.flatMap_cons, run, run_append]
        simp only [ActionSystem.run, hitem, hpush, Option.bind_some]
        exact hrun
      · rw [hnext']
        simp only [hnext, List.length_cons]
        omega
      · rw [hlen]
        simp only [List.length_append, List.length_cons, List.length_nil]
        omega

/-- A loop with more events than there is room for starves a `Close` sent when it has
filled the channel. -/
theorem starved_of_fills {way : Way} {front rest : List MarketEvent} {ev : MarketEvent}
    {jobs : List Job} (hpub : s.publishing = none)
    (hstage : s.stage = .running (.loop way (front ++ ev :: rest) :: jobs))
    (hsink : s.sink = .attached) (hopen : s.stream.isOpen = true)
    (hfull : s.stream.queue.length + front.length = s.stream.cap)
    (hseq : s.ctl.nextSeq.toNat + front.length + 1 < 2 ^ 64 - 1) (hheld : s.held = true)
    (hcommands : s.commands.length < s.commandCap) :
    ∃ s', s.run ((front.flatMap fun _ => [.item, .push]) ++ [.item, .send .close]) = some s' ∧
      s'.taken = s.taken ∧ s'.Starved := by
  obtain ⟨ctl, stream, hrun, hnext, hopen', hcap, hqueue⟩ :=
    fills hpub hstage hsink hopen (by omega) (by omega)
  have hnoroom : stream.hasRoom = false := by
    rw [Channel.hasRoom, hqueue, hcap, hfull]
    simp
  obtain ⟨ctl', hctl, -⟩ := send_spec way (c := ctl) ev (by omega)
  -- the event after the front is begun, and the `Close` comes behind it
  refine ⟨{ s with
    ctl := ctl', stream, stage := .running (.loop way rest :: jobs)
    publishing := some (ev.stampSeq ⟨ctl.nextSeq⟩), commands := s.commands ++ [.close]
    held := false }, ?_, rfl, ⟨.inl ⟨by simp, by simp⟩, rfl, fun htakes => ?_⟩⟩
  · rw [run] at hrun
    rw [run, run_append, hrun]
    simp [ActionSystem.run, step, select, publish, hpub, hctl, hheld, hcommands]
  · have hroom := htakes (by rw [isAttached, hsink]; exact hopen')
    cases hnoroom.symm.trans hroom

/-- A history longer than the channel, its stream never taken; the `Close` is sent when the
channel is full. -/
def unreadActions (front : List MarketEvent) (ev : MarketEvent) (rest : List MarketEvent) :
    List HistoricalAction :=
  .plan (.ephemeral 0 ⟨front ++ ev :: rest, .ok⟩) ::
    ((front.flatMap fun _ => [.item, .push]) ++ [.item, .send .close])

theorem starved_of_long {front rest : List MarketEvent} {ev : MarketEvent}
    (hlen : front.length = buffer) (hseq : ctl.nextSeq.toNat + buffer + 1 < 2 ^ 64 - 1)
    (hcap : 0 < commandCap) :
    ∃ s, (spawn ctl ringCapacity buffer commandCap).run (unreadActions front ev rest) = some s ∧
      s.taken = false ∧ s.Starved := by
  subst hlen
  exact starved_of_fills (s := { spawn ctl ringCapacity front.length commandCap with
    stage := .running [.loop .forward (front ++ ev :: rest)] }) rfl rfl rfl rfl
    (by simp [spawn, Channel.new]) hseq rfl hcap

end HistoricalSession

end Datamancer
