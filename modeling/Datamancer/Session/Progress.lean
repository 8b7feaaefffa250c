import Datamancer.Session.ForcedClose

/-!
# Datamancer.Session.Progress

That a historical session comes to its end: each step of its own, and the grant of the fetch
slot, takes something off what it has still to do (`ahead`, `weight`), and where it is not over it
has such a step, unless it awaits room in the stream or, with everything said, the end of the
stream (`goes_on`). Both are up to the consumer.
-/

namespace Datamancer

variable {σ : Type}

/-- The steps that neither the consumer nor the owner of the handle takes: the session's own, and
the release of the fetch slot by the session that holds it. -/
def HistoricalAction.advances : HistoricalAction → Bool
  | .grant => true
  | a => a.isOwn

/-! ### What is left to do -/

/-- An event is begun, sent, taken and dealt with. -/
def Job.weight : Job → Nat
  | .loop _ evs => 4 * evs.length + 1
  | .send _ => 4

def jobsWeight (jobs : List Job) : Nat := (jobs.map Job.weight).sum

def HistoricalStage.weight : HistoricalStage → Nat
  | planning | queued | replanning | closed => 0
  | running jobs => jobsWeight jobs + 10
  | announced => 6
  | draining => 5
  | leaving _ => 1

/-- The next event is stamped in this stage. -/
def HistoricalStage.stamps : HistoricalStage → Bool
  | running _ | announced | draining => true
  | planning | queued | replanning | leaving _ | closed => false

/-- How many stages ahead of streaming there may be yet. -/
def HistoricalStage.toPlan : HistoricalStage → Nat
  | planning => 3
  | queued => 2
  | replanning => 1
  | running _ | announced | draining | leaving _ | closed => 0

theorem HistoricalStage.toPlan_eq_zero {stage : HistoricalStage} (h : stage.ahead = false) :
    stage.toPlan = 0 := by
  cases stage with
  | planning | queued | replanning => cases h
  | running jobs | announced | draining | leaving ack | closed => rfl

theorem HistoricalStage.toPlan_pos {stage : HistoricalStage} (h : stage.plans = true) :
    0 < stage.toPlan := by
  cases stage with
  | planning | replanning => exact Nat.succ_pos _
  | queued | running jobs | announced | draining | leaving ack | closed => cases h

namespace HistoricalSession

/-- What is left once it is planned. -/
def weight (s : HistoricalSession σ) : Nat :=
  s.stage.weight + 3 * s.publishing.toList.length + 2 * s.stream.queue.length + s.commands.length

/-- A step that advances the session, by what it changes. -/
inductive Advance (s : HistoricalSession σ) : HistoricalAction → HistoricalSession σ → Prop
  | plan (plan : HistoricalPlan) (hpub : s.publishing = none) (hstage : s.stage.plans = true) :
      Advance s (.plan plan) { s with stage := .running (plan.jobs s.ctl) }
  | slot {a : HistoricalAction} (stage : HistoricalStage) (hpub : s.publishing = none)
      (hstage : s.stage = .planning ∨ s.stage = .queued) (hto : stage.ahead = true)
      (hplan : stage.toPlan < s.stage.toPlan) : Advance s a { s with stage }
  | publish {a : HistoricalAction} (ctl : Controller σ) (ev : MarketEvent) (jobs jobs' : List Job)
      (hpub : s.publishing = none) (hstage : s.stage = .running jobs)
      (hjobs : jobsWeight jobs' + 4 = jobsWeight jobs) :
      Advance s a { s with ctl, stage := .running jobs', publishing := some ev }
  | announce {a : HistoricalAction} (ctl : Controller σ) (ev : MarketEvent)
      (stage : HistoricalStage) (commands : List SessionCommand) (hpub : s.publishing = none)
      (hev : ev.isClosing = true) (hstage : s.stage.ahead = false)
      (hto : stage = .announced ∨ ∃ ack, stage = .leaving ack)
      (hweight : stage.weight + 4 ≤ s.stage.weight) (hcommands : commands <:+ s.commands) :
      Advance s a { s with ctl, stage, commands, publishing := some ev }
  | loopEnd (way : Way) (jobs : List Job) (hpub : s.publishing = none)
      (hstage : s.stage = .running (.loop way [] :: jobs)) :
      Advance s .item { s with stage := .running jobs }
  | wait (hpub : s.publishing = none) (hstage : s.stage = .announced) :
      Advance s .proceed { s with stage := .draining }
  | leave (ctl : Controller σ) (ack : Bool) (hpub : s.publishing = none)
      (hstage : s.stage = .leaving ack) : Advance s .proceed { s with ctl, stage := .closed }
  | configure (ctl : Controller σ) (cmd : SessionCommand) (commands : List SessionCommand)
      (hpub : s.publishing = none) (hcommands : s.commands = cmd :: commands) :
      Advance s .command { s with ctl, commands }
  | sent (ev : MarketEvent) (hpub : s.publishing = some ev) :
      Advance s .push
        { s with stream := { s.stream with queue := s.stream.queue ++ [ev] }, publishing := none }
  | diverted (ev : MarketEvent) (ring : EventRing) (hpub : s.publishing = some ev)
      (hattached : s.isAttached = false) :
      Advance s .push { s with sink := .detached ring, publishing := none }

variable {s s' : HistoricalSession σ} {a : HistoricalAction}

theorem Advance.of_announce {stage : HistoricalStage} (hpub : s.publishing = none)
    (hstage : s.stage.ahead = false) (hto : stage = .announced ∨ ∃ ack, stage = .leaving ack)
    (hweight : stage.weight + 4 ≤ s.stage.weight) (h : s.announce stage = some s') :
    s.Advance a s' := by
  obtain ⟨ctl, -, hrest⟩ := Option.bind_eq_some_iff.mp h
  obtain rfl := Option.some.inj hrest
  exact .announce ctl _ stage s.commands hpub rfl hstage hto hweight List.suffix_rfl

theorem Advance.of_publish {way : Way} {ev : MarketEvent} {jobs jobs' : List Job}
    (hpub : s.publishing = none) (hstage : s.stage = .running jobs)
    (hjobs : jobsWeight jobs' + 4 = jobsWeight jobs)
    (h : s.publish way ev (.running jobs') = some s') : s.Advance a s' := by
  obtain ⟨ctl, -, hrest⟩ := Option.bind_eq_some_iff.mp h
  obtain rfl := Option.some.inj hrest
  exact .publish ctl _ jobs jobs' hpub hstage hjobs

theorem Advance.of_handleNext (hpub : s.publishing = none)
    (hstage : (∃ jobs, s.stage = .running jobs) ∨ s.stage = .draining)
    (h : s.handleNext = some s') : s.Advance .command s' := by
  unfold handleNext at h
  split at h
  · cases h
  next commands hcommands =>
    obtain ⟨ctl, -, hrest⟩ := Option.bind_eq_some_iff.mp h
    obtain rfl := Option.some.inj hrest
    refine .announce ctl _ (.leaving true) commands hpub rfl ?_ (.inr ⟨true, rfl⟩) ?_ ?_
    · rcases hstage with ⟨jobs, hstage⟩ | hstage <;> rw [hstage] <;> rfl
    · rcases hstage with ⟨jobs, hstage⟩ | hstage <;> rw [hstage] <;>
        simp only [HistoricalStage.weight] <;> omega
    · exact hcommands ▸ List.suffix_cons _ _
  next cmd commands _ hcommands =>
    obtain ⟨⟨go, ctl⟩, -, hrest⟩ := Option.bind_eq_some_iff.mp h
    obtain rfl := Option.some.inj hrest
    exact .configure ctl cmd commands hpub hcommands

theorem advance_cases (hadvances : a.advances = true) (h : s.step a = some s') : s.Advance a s' := by
  cases a with
  | push =>
      obtain ⟨ev, hpub, hs⟩ := Option.bind_eq_some_iff.mp h
      unfold deliver at hs
      split at hs
      next hsink =>
        split at hs
        next stream hsend =>
          obtain rfl := Option.some.inj hs
          obtain ⟨-, rfl⟩ := Channel.eq_of_sent hsend
          exact .sent ev hpub
        · cases hs
        next hsend =>
          obtain rfl := Option.some.inj hs
          exact .diverted ev _ hpub (isAttached_of_stream_closed (Channel.isOpen_of_closed hsend))
      next ring hsink =>
        obtain rfl := Option.some.inj hs
        exact .diverted ev _ hpub (by simp [isAttached, hsink])
  | plan plan =>
      rw [step] at h
      split_ifs at h with hcond
      obtain ⟨hpub, hstage⟩ : s.publishing = none ∧ s.stage.plans = true := by simpa using hcond
      exact Option.some.inj h ▸ .plan plan hpub hstage
  | acquire free =>
      obtain ⟨hcond, h⟩ := Option.ite_none_right_eq_some.mp h
      obtain rfl := Option.some.inj h
      obtain ⟨hpub, hstage⟩ : s.publishing = none ∧ s.stage = .planning := by simpa using hcond
      refine .slot _ hpub (.inl hstage) ?_ ?_ <;> cases free <;>
        simp [HistoricalStage.ahead, HistoricalStage.toPlan, hstage]
  | grant =>
      rw [step] at h
      split_ifs at h with hcond
      obtain rfl := Option.some.inj h
      obtain ⟨hpub, hstage⟩ : s.publishing = none ∧ s.stage = .queued := by simpa using hcond
      exact .slot _ hpub (.inr hstage) rfl (by simp [HistoricalStage.toPlan, hstage])
  | proceed =>
      obtain ⟨hpub, h⟩ := Option.ite_none_right_eq_some.mp h
      rw [Option.isNone_iff_eq_none] at hpub
      unfold proceed at h
      split at h
      next ev jobs hstage =>
        exact .of_publish hpub hstage (by simp [jobsWeight, Job.weight]; omega) h
      next hstage =>
        refine .of_announce hpub (by rw [hstage]; rfl) ?_ ?_ h
        · split_ifs <;> simp
        · rw [hstage]
          split_ifs <;> simp [HistoricalStage.weight, jobsWeight]
      next hstage =>
        split_ifs at h
        · obtain rfl := Option.some.inj h
          exact .wait hpub hstage
        · exact .of_announce hpub (by rw [hstage]; rfl) (.inr ⟨false, rfl⟩)
            (by simp [hstage, HistoricalStage.weight]) h
      next hstage =>
        split_ifs at h
        exact .of_announce hpub (by rw [hstage]; rfl) (.inr ⟨false, rfl⟩)
          (by simp [hstage, HistoricalStage.weight]) h
      next ack hstage =>
        obtain rfl := Option.some.inj h
        exact .leave _ ack hpub hstage
      next => cases h
  | item =>
      obtain ⟨hpub, h⟩ := Option.ite_none_right_eq_some.mp h
      rw [Option.isNone_iff_eq_none] at hpub
      unfold select at h
      dsimp only at h
      split at h
      next way ev evs jobs hstage =>
        exact .of_publish hpub hstage (by simp [jobsWeight, Job.weight]; omega) h
      next way jobs hstage =>
        obtain rfl := Option.some.inj h
        exact .loopEnd way jobs hpub hstage
      next => cases h
  | command =>
      obtain ⟨hpub, h⟩ := Option.ite_none_right_eq_some.mp h
      rw [Option.isNone_iff_eq_none] at hpub
      unfold select at h
      dsimp only at h
      split at h
      next way evs jobs hstage => exact .of_handleNext hpub (.inl ⟨_, hstage⟩) h
      next hstage => exact .of_handleNext hpub (.inr hstage) h
      next => cases h
  | take | recv | dropStream | send cmd | dropHandle => cases hadvances

/-- Something is done: the plan is nearer, or there is less left to do. -/
def Lighter (s s' : HistoricalSession σ) : Prop :=
  s'.stage.toPlan < s.stage.toPlan ∨
    s'.stage.toPlan = s.stage.toPlan ∧ s'.weight < s.weight

theorem Advance.lighter (h : s.Advance a s') : s.Lighter s' := by
  cases h with
  | plan plan _ hstage => exact .inl (HistoricalStage.toPlan_pos hstage)
  | slot stage hpub hstage hto hplan => exact .inl hplan
  | publish ctl ev jobs jobs' hpub hstage hjobs =>
      refine .inr ⟨by simp only [hstage, HistoricalStage.toPlan], ?_⟩
      simp only [weight, hpub, hstage, HistoricalStage.weight, Option.toList_some,
        Option.toList_none, List.length_singleton, List.length_nil]
      omega
  | announce ctl ev stage commands hpub _ hstage hto hweight hcommands =>
      have hplan : stage.toPlan = 0 := by rcases hto with rfl | ⟨ack, rfl⟩ <;> rfl
      refine .inr ⟨hplan.trans (HistoricalStage.toPlan_eq_zero hstage).symm, ?_⟩
      have hlength := hcommands.length_le
      simp only [weight, hpub, Option.toList_some, Option.toList_none, List.length_singleton,
        List.length_nil]
      omega
  | loopEnd way jobs hpub hstage =>
      refine .inr ⟨by simp only [hstage, HistoricalStage.toPlan], ?_⟩
      simp only [weight, hstage, HistoricalStage.weight, jobsWeight, List.map_cons, List.sum_cons,
        Job.weight]
      omega
  | wait hpub hstage =>
      refine .inr ⟨by simp only [hstage, HistoricalStage.toPlan], ?_⟩
      simp only [weight, hstage, HistoricalStage.weight]
      omega
  | leave ctl ack hpub hstage =>
      refine .inr ⟨by simp only [hstage, HistoricalStage.toPlan], ?_⟩
      simp only [weight, hstage, HistoricalStage.weight]
      omega
  | configure ctl cmd commands hpub hcommands =>
      refine .inr ⟨rfl, ?_⟩
      simp only [weight, hcommands, List.length_cons]
      omega
  | sent ev hpub =>
      refine .inr ⟨rfl, ?_⟩
      simp only [weight, hpub, List.length_append, Option.toList_some, Option.toList_none,
        List.length_singleton, List.length_nil]
      omega
  | diverted ev ring hpub =>
      refine .inr ⟨rfl, ?_⟩
      simp only [weight, hpub, Option.toList_some, Option.toList_none, List.length_singleton,
        List.length_nil]
      omega

/-- What no step that advances the session touches. -/
structure Kept (s s' : HistoricalSession σ) : Prop where
  taken : s'.taken = s.taken
  held : s'.held = s.held
  commandCap : s'.commandCap = s.commandCap
  commands : s'.commands <:+ s.commands
  isOpen : s'.stream.isOpen = s.stream.isOpen
  cap : s'.stream.cap = s.stream.cap
  received : s'.stream.taken = s.stream.taken
  closed : s.stage = .closed → s'.stage = .closed

theorem Advance.kept (h : s.Advance a s') : s.Kept s' := by
  cases h with
  | plan plan _ hstage =>
      refine ⟨rfl, rfl, rfl, List.suffix_rfl, rfl, rfl, rfl, fun h => ?_⟩
      rw [h] at hstage
      cases hstage
  | slot stage _ hstage _ _ =>
      refine ⟨rfl, rfl, rfl, List.suffix_rfl, rfl, rfl, rfl, fun h => ?_⟩
      rcases hstage with hstage | hstage <;> cases hstage.symm.trans h
  | publish ctl ev jobs jobs' _ hstage _ =>
      exact ⟨rfl, rfl, rfl, List.suffix_rfl, rfl, rfl, rfl, fun h => by cases hstage.symm.trans h⟩
  | announce ctl ev stage commands _ _ _ _ hweight hcommands =>
      refine ⟨rfl, rfl, rfl, hcommands, rfl, rfl, rfl, fun h => ?_⟩
      rw [h, HistoricalStage.weight] at hweight
      omega
  | loopEnd way jobs _ hstage =>
      exact ⟨rfl, rfl, rfl, List.suffix_rfl, rfl, rfl, rfl, fun h => by cases hstage.symm.trans h⟩
  | wait _ hstage =>
      exact ⟨rfl, rfl, rfl, List.suffix_rfl, rfl, rfl, rfl, fun h => by cases hstage.symm.trans h⟩
  | leave ctl ack _ _ => exact ⟨rfl, rfl, rfl, List.suffix_rfl, rfl, rfl, rfl, fun _ => rfl⟩
  | configure ctl cmd commands _ hcommands =>
      exact ⟨rfl, rfl, rfl, hcommands ▸ List.suffix_cons _ _, rfl, rfl, rfl, id⟩
  | sent ev _ => exact ⟨rfl, rfl, rfl, List.suffix_rfl, rfl, rfl, rfl, id⟩
  | diverted ev ring _ _ => exact ⟨rfl, rfl, rfl, List.suffix_rfl, rfl, rfl, rfl, id⟩

/-! ### What the stream is told -/

/-- While the stream is held the sink is attached, and a session that has begun to close has
sent its `SessionClosing` or is about to. -/
structure Told (s : HistoricalSession σ) : Prop where
  attached : s.stream.isOpen = true → s.isAttached = true
  closing : s.Closing → s.stream.isOpen = true →
    (∃ ev, s.publishing = some ev ∧ ev.isClosing = true ∧ s.stage ≠ .closed) ∨
      ∃ ev ∈ s.stream.accepted, ev.isClosing = true

theorem Told.init (ctl : Controller σ) (ringCapacity buffer commandCap : Nat) :
    (spawn ctl ringCapacity buffer commandCap).Told :=
  ⟨id, fun hclosing => by cases hclosing.1⟩

/-- Where nothing is being published, it has been sent. -/
theorem Told.sent (h : s.Told) (hclosing : s.Closing) (hopen : s.stream.isOpen = true)
    (hpub : s.publishing = none) : ∃ ev ∈ s.stream.accepted, ev.isClosing = true := by
  rcases h.closing hclosing hopen with ⟨ev, hev, -⟩ | hsent
  · cases hpub.symm.trans hev
  · exact hsent

theorem Told.advance (h : s.Told) (hstep : s.Advance a s') : s'.Told := by
  cases hstep with
  | plan plan => exact ⟨h.attached, fun hclosing => absurd rfl (hclosing.2 _)⟩
  | slot stage _ _ hto => exact ⟨h.attached, fun hclosing => by cases hto.symm.trans hclosing.1⟩
  | publish ctl ev jobs jobs' => exact ⟨h.attached, fun hclosing => absurd rfl (hclosing.2 jobs')⟩
  | announce ctl ev stage commands _ hev _ hto =>
      refine ⟨h.attached, fun _ _ => .inl ⟨ev, rfl, hev, ?_⟩⟩
      rcases hto with rfl | ⟨ack, rfl⟩ <;> simp
  | loopEnd way jobs => exact ⟨h.attached, fun hclosing => absurd rfl (hclosing.2 jobs)⟩
  | wait hpub hstage =>
      exact ⟨h.attached, fun _ hopen =>
        .inr (h.sent (closing_of_stage (.inl hstage)) hopen hpub)⟩
  | leave ctl ack hpub hstage =>
      exact ⟨h.attached, fun _ hopen =>
        .inr (h.sent (closing_of_stage (.inr (.inr (.inr ⟨ack, hstage⟩)))) hopen hpub)⟩
  | configure ctl cmd commands => exact ⟨h.attached, h.closing⟩
  | sent ev hpub =>
      refine ⟨h.attached, fun hclosing hopen => .inr ?_⟩
      rcases h.closing hclosing hopen with ⟨x, hx, hev, -⟩ | ⟨x, hx, hev⟩
      · obtain rfl := Option.some.inj (hpub.symm.trans hx)
        exact ⟨ev, by simp [Channel.accepted], hev⟩
      · refine ⟨x, ?_, hev⟩
        rcases List.mem_append.mp hx with hx | hx <;> simp [Channel.accepted, hx]
  | diverted ev ring hpub hattached =>
      -- the stream is gone, as it was noticed or long before
      have hgone : s.stream.isOpen ≠ true := fun hopen => by
        cases hattached.symm.trans (h.attached hopen)
      exact ⟨fun hopen => absurd hopen hgone, fun _ hopen => absurd hopen hgone⟩

theorem Told.outside (h : s.Told) (hout : s.Outside s') : s'.Told := by
  refine ⟨fun hopen => ?_, fun hclosing hopen => ?_⟩
  · have hattached := h.attached (hout.isOpen hopen)
    unfold isAttached at hattached ⊢
    rw [hout.sink]
    cases hsink : s.sink with
    | attached => exact hopen
    | detached ring =>
        rw [hsink] at hattached
        cases hattached
  · rw [Closing, hout.stage] at hclosing
    rw [hout.publishing, hout.accepted, hout.stage]
    exact h.closing hclosing (hout.isOpen hopen)

/-! ### There is always something to do -/

/-- The next stamp panics, which ends the controller. -/
def Exhausted (s : HistoricalSession σ) : Prop :=
  s.publishing = none ∧ s.stage.stamps = true ∧ ∀ ev, s.ctl.stamp ev = none

/-- A session that is not over goes on, where the consumer has room for what it publishes and the
stream is gone once everything is said. -/
theorem goes_on (hstage : s.stage ≠ .closed) (htakes : s.publishing.isSome = true → s.Takes)
    (hdrained : s.publishing = none → s.stage = .draining → s.stream.isOpen = false) :
    (∃ a s', a.advances = true ∧ s.step a = some s') ∨ s.Exhausted := by
  cases hpub : s.publishing with
  | some ev =>
      obtain ⟨s', hs⟩ := deliver_of_takes (htakes (by rw [hpub]; rfl)) ev
      exact .inl ⟨.push, s', rfl, by rw [step, hpub]; exact hs⟩
  | none =>
      have hgo : ∀ {a : HistoricalAction}, a.advances = true → s.stage.stamps = true →
          ((∃ s', s.step a = some s') ∨ ∀ ev, s.ctl.stamp ev = none) →
          (∃ a s', a.advances = true ∧ s.step a = some s') ∨ s.Exhausted := by
        rintro a hadvances hstamps (⟨s', hs⟩ | hnone)
        · exact .inl ⟨a, s', hadvances, hs⟩
        · exact .inr ⟨hpub, hstamps, hnone⟩
      cases hs : s.stage with
      | planning | replanning =>
          exact .inl ⟨.plan (.cached []), _, rfl, by simp [step, hpub, hs, HistoricalStage.plans]; rfl⟩
      | queued => exact .inl ⟨.grant, _, rfl, by simp [step, hpub, hs]; rfl⟩
      | running jobs =>
          cases jobs with
          | nil =>
              refine hgo (a := .proceed) rfl (by rw [hs]; rfl) ?_
              simpa [step, proceed, hpub, hs] using s.announce_or_none _
          | cons job jobs =>
              cases job with
              | send ev =>
                  refine hgo (a := .proceed) rfl (by rw [hs]; rfl) ?_
                  simpa [step, proceed, hpub, hs] using s.publish_or_none _ _ _
              | loop way evs =>
                  refine hgo (a := .item) rfl (by rw [hs]; rfl) ?_
                  cases evs with
                  | nil => exact .inl (by simp [step, select, hpub, hs])
                  | cons ev evs => simpa [step, select, hpub, hs] using s.publish_or_none _ _ _
      | announced =>
          refine hgo (a := .proceed) rfl (by rw [hs]; rfl) ?_
          cases hattached : s.isAttached with
          | true => exact .inl (by simp [step, proceed, hpub, hs, hattached])
          | false => simpa [step, proceed, hpub, hs, hattached] using s.announce_or_none _
      | draining =>
          refine hgo (a := .proceed) rfl (by rw [hs]; rfl) ?_
          simpa [step, proceed, hpub, hs, hdrained hpub hs] using s.announce_or_none _
      | leaving ack => exact .inl ⟨.proceed, _, rfl, by simp [step, proceed, hpub, hs]; rfl⟩
      | closed => exact absurd hs hstage

end HistoricalSession

end Datamancer
