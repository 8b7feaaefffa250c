import Datamancer.Lib.ActionSystem
import Datamancer.Lib.Channel
import Datamancer.Session.Live

/-!
# Datamancer.Session.Consumer

A historical session step by step, with the parties around its controller: the
consumer's stream and the channel behind it, the session's handle and the command
channel (`run_historical`, `finish_historical`, `deliver`, `Session`).

The controller publishes one event at a time and awaits room in the consumer's channel
for it; while it does (`publishing`) it polls nothing. Nor does it while it waits for the
fetch slot of its range (`queued`), which the session that holds it releases when it has
streamed its own segments. What it has still to stream is a list of jobs, made from what
the cache and the provider answer; the answers, and the order in which a `select!` takes
its branches, are up to the schedule. The command channel never ends: the controller holds
a sender of it (`SessionInner`), and so does it hold the receiver of a stream that is never
taken.
-/

namespace Datamancer

/-! ### What is to be streamed -/

/-- How an event is sent. -/
inductive Way
  | emit
  | forward
  deriving DecidableEq, Repr

def Way.send {σ : Type} : Way → Controller σ → MarketEvent → Option (Controller σ)
  | .emit => Controller.emit
  | .forward => Controller.forward

/-- One piece of the controller's program: a `select!` loop over a stream, or a single
event. -/
inductive Job
  | loop (way : Way) (evs : List MarketEvent)
  | send (ev : MarketEvent)
  deriving DecidableEq, Repr

/-- A planned segment with what the cache or the provider answers for it. A covered
segment without an answer has lost its cache. -/
inductive AnsweredSegment
  | covered (f t : Timestamp) (replay : Option (Except Error (List MarketEvent)))
  | gap (f t : Timestamp) (run : FetchRun)

/-- What a session streams: a single fetch, or the segments of a plan. -/
inductive HistoricalPlan
  | ephemeral (f : Timestamp) (run : FetchRun)
  | cached (segs : List AnsweredSegment)

section Jobs

variable {σ : Type}

/-- The loop of `stream_segments`; a failed fetch abandons the segments after it. -/
def segmentJobs (c : Controller σ) : List AnsweredSegment → List Job
  | [] => []
  | .covered f t replay :: segs =>
      match replay with
      | some (.ok evs) => .loop .emit evs :: segmentJobs c segs
      | _ => .send (c.gapControl f f t) :: segmentJobs c segs
  | .gap f t run :: segs =>
      .loop .emit run.sent :: match run.joined.fetchError with
        | none => segmentJobs c segs
        | some message => (c.failureControls (confirmedPrefixEnd (maxDataTs run.sent) f t) t
            message).map .send

def HistoricalPlan.jobs (c : Controller σ) : HistoricalPlan → List Job
  | .ephemeral f run =>
      .loop .forward run.sent :: match run.joined.fetchError with
        | none => []
        | some message => [.send (c.providerErrorControl ((maxDataTs run.sent).getD f) message)]
  | .cached segs => segmentJobs c segs

end Jobs

/-! ### The session -/

/-- Where the controller is. -/
inductive HistoricalStage
  /-- In the first look at `gaps()`, if it has one. -/
  | planning
  /-- In the wait for the fetch slot, which another session holds. -/
  | queued
  /-- In the second look at `gaps()`, with the slot. -/
  | replanning
  /-- Streaming, with what is left of it. -/
  | running (jobs : List Job)
  /-- In `finish_historical`, ahead of the look at the sink. -/
  | announced
  /-- In the wait for the consumer to drop its stream. -/
  | draining
  /-- At the end of `shutdown`; a command may await its answer. -/
  | leaving (ack : Bool)
  | closed
  deriving DecidableEq, Repr

/-- What is to be streamed is settled in this stage. -/
def HistoricalStage.plans : HistoricalStage → Bool
  | planning | replanning => true
  | queued | running _ | announced | draining | leaving _ | closed => false

/-- The consumer-facing side. -/
inductive Sink
  | attached
  | detached (ring : EventRing)

structure HistoricalSession (σ : Type) where
  ctl : Controller σ
  stage : HistoricalStage
  /-- The event `deliver` is awaiting room for. -/
  publishing : Option MarketEvent
  sink : Sink
  ringCapacity : Nat
  /-- The channel of the consumer's stream. -/
  stream : Channel MarketEvent
  /-- `stream_taken`. -/
  taken : Bool
  /-- The command channel, and its capacity. -/
  commands : List SessionCommand
  commandCap : Nat
  /-- Whether the handle is held. -/
  held : Bool

inductive HistoricalAction
  /-- The cache and the provider have answered. -/
  | plan (plan : HistoricalPlan)
  /-- There is something to fetch: the slot is taken, or waited for. -/
  | acquire (free : Bool)
  /-- The session that holds the slot has released it. -/
  | grant
  /-- The controller's straight-line code goes on. -/
  | proceed
  /-- A loop takes the next item of its stream. -/
  | item
  /-- A loop takes the next command. -/
  | command
  /-- The sink takes the event being published. -/
  | push
  /-- The consumer takes, reads or drops its stream; the handle's owner sends or drops. -/
  | take
  | recv
  | dropStream
  | send (cmd : SessionCommand)
  | dropHandle

namespace HistoricalSession

variable {σ : Type}

/-- A session as it is spawned, its stream in the holder. -/
def spawn (ctl : Controller σ) (ringCapacity buffer commandCap : Nat) : HistoricalSession σ :=
  ⟨ctl, .planning, none, .attached, ringCapacity, .new buffer, false, [], commandCap, true⟩

/-- Stamp an event and begin to deliver it. -/
def publish (s : HistoricalSession σ) (way : Way) (ev : MarketEvent) (stage : HistoricalStage) :
    Option (HistoricalSession σ) := do
  let ctl ← way.send s.ctl ev
  return { s with ctl, stage, publishing := some (ev.stampSeq ⟨s.ctl.nextSeq⟩) }

/-- Emit `SessionClosing`. -/
def announce (s : HistoricalSession σ) (stage : HistoricalStage) :
    Option (HistoricalSession σ) := do
  let ctl ← s.ctl.emitClosing
  return { s with
    ctl, stage, publishing := some (s.ctl.closingControl.stampSeq ⟨s.ctl.nextSeq⟩) }

/-- `deliver`, as far as it need not wait. -/
def deliver (s : HistoricalSession σ) (ev : MarketEvent) : Option (HistoricalSession σ) :=
  match s.sink with
  | .attached =>
      match s.stream.trySend ev with
      | .sent stream => some { s with stream, publishing := none }
      | .full => none
      | .closed => some { s with
          sink := .detached ((EventRing.new s.ringCapacity).push ev), publishing := none }
  | .detached ring => some { s with sink := .detached (ring.push ev), publishing := none }

/-- `handle_command` of the next command. -/
def handleNext (s : HistoricalSession σ) : Option (HistoricalSession σ) :=
  match s.commands with
  | [] => none
  | .close :: commands => { s with commands }.announce (.leaving true)
  | cmd :: commands => do
      let (_, ctl) ← s.ctl.handleCommand (some cmd)
      return { s with ctl, commands }

/-- The sink is attached to a stream that is held. -/
def isAttached (s : HistoricalSession σ) : Bool :=
  match s.sink with
  | .attached => s.stream.isOpen
  | .detached _ => false

/-- The straight-line code: between jobs, and in `finish_historical`. -/
def proceed (s : HistoricalSession σ) : Option (HistoricalSession σ) :=
  match s.stage with
  | .running (.send ev :: jobs) => s.publish .forward ev (.running jobs)
  | .running [] => s.announce (if s.taken then .announced else .leaving false)
  | .announced => if s.isAttached then some { s with stage := .draining }
      else s.announce (.leaving false)
  | .draining => if s.stream.isOpen then none else s.announce (.leaving false)
  | .leaving ack => some { s with
      stage := .closed
      ctl := { s.ctl with acks := s.ctl.acks ++ if ack then [.closed] else [] } }
  | _ => none

/-- A branch of the loop the controller is in. -/
def select (s : HistoricalSession σ) : HistoricalAction → Option (HistoricalSession σ)
  | .item =>
      match s.stage with
      | .running (.loop way (ev :: evs) :: jobs) =>
          s.publish way ev (.running (.loop way evs :: jobs))
      | .running (.loop _ [] :: jobs) => some { s with stage := .running jobs }
      | _ => none
  | .command =>
      match s.stage with
      | .running (.loop _ _ :: _) => s.handleNext
      | .draining => s.handleNext
      | _ => none
  | _ => none

def step (s : HistoricalSession σ) : HistoricalAction → Option (HistoricalSession σ)
  | .push => s.publishing.bind s.deliver
  | .plan plan =>
      if s.publishing.isNone && s.stage.plans then
        some { s with stage := .running (plan.jobs s.ctl) }
      else none
  | .acquire free =>
      if s.publishing.isNone && s.stage = .planning then
        some { s with stage := if free then .replanning else .queued }
      else none
  | .grant =>
      if s.publishing.isNone && s.stage = .queued then some { s with stage := .replanning }
      else none
  | .proceed => if s.publishing.isNone then s.proceed else none
  | .item => if s.publishing.isNone then s.select .item else none
  | .command => if s.publishing.isNone then s.select .command else none
  | .take => if s.held && !s.taken then some { s with taken := true } else none
  | .recv => if s.taken then s.stream.recv.map fun stream => { s with stream } else none
  | .dropStream =>
      if s.taken && s.stream.isOpen then some { s with stream := s.stream.close } else none
  | .send cmd =>
      if s.held && s.stage ≠ .closed && s.commands.length < s.commandCap then
        -- `close` consumes the handle
        some { s with commands := s.commands ++ [cmd], held := cmd ≠ .close }
      else none
  | .dropHandle => if s.held then some { s with held := false } else none

abbrev run (s : HistoricalSession σ) (acts : List HistoricalAction) :
    Option (HistoricalSession σ) := ActionSystem.run step s acts

/-! ### What a step can do -/

/-- The controller is in a loop that polls commands. -/
def Polls (s : HistoricalSession σ) : Prop :=
  (∃ way evs jobs, s.stage = .running (.loop way evs :: jobs)) ∨ s.stage = .draining

/-- The parties around the controller have moved: it is where it was, and the stream has
been sent the same. -/
structure Outside (s s' : HistoricalSession σ) : Prop where
  ctl : s'.ctl = s.ctl
  stage : s'.stage = s.stage
  publishing : s'.publishing = s.publishing
  sink : s'.sink = s.sink
  accepted : s'.stream.accepted = s.stream.accepted
  isOpen : s'.stream.isOpen = true → s.stream.isOpen = true

inductive Step (s s' : HistoricalSession σ) : HistoricalAction → Prop
  | plan {plan : HistoricalPlan} (hpub : s.publishing = none) (hstage : s.stage.plans = true)
      (hs : s' = { s with stage := .running (plan.jobs s.ctl) }) : Step s s' (.plan plan)
  | acquire {free : Bool} (hpub : s.publishing = none) (hstage : s.stage = .planning)
      (hs : s' = { s with stage := if free then .replanning else .queued }) :
      Step s s' (.acquire free)
  | grant (hpub : s.publishing = none) (hstage : s.stage = .queued)
      (hs : s' = { s with stage := .replanning }) : Step s s' .grant
  | sendJob {ev : MarketEvent} {jobs : List Job} (hpub : s.publishing = none)
      (hstage : s.stage = .running (.send ev :: jobs))
      (hs : s.publish .forward ev (.running jobs) = some s') : Step s s' .proceed
  | item {way : Way} {ev : MarketEvent} {evs : List MarketEvent} {jobs : List Job}
      (hpub : s.publishing = none) (hstage : s.stage = .running (.loop way (ev :: evs) :: jobs))
      (hs : s.publish way ev (.running (.loop way evs :: jobs)) = some s') : Step s s' .item
  | loopEnd {way : Way} {jobs : List Job} (hpub : s.publishing = none)
      (hstage : s.stage = .running (.loop way [] :: jobs))
      (hs : s' = { s with stage := .running jobs }) : Step s s' .item
  | finish (hpub : s.publishing = none) (hstage : s.stage = .running [])
      (hs : s.announce (if s.taken then .announced else .leaving false) = some s') :
      Step s s' .proceed
  | wait (hpub : s.publishing = none) (hstage : s.stage = .announced)
      (hattached : s.isAttached = true) (hs : s' = { s with stage := .draining }) :
      Step s s' .proceed
  | depart (hpub : s.publishing = none) (hstage : s.stage = .announced ∨ s.stage = .draining)
      (hgone : s.isAttached = false) (hs : s.announce (.leaving false) = some s') :
      Step s s' .proceed
  | leave {ack : Bool} {ctl : Controller σ} (hpub : s.publishing = none)
      (hstage : s.stage = .leaving ack) (hs : s' = { s with ctl, stage := .closed }) :
      Step s s' .proceed
  | close {commands : List SessionCommand} (hpub : s.publishing = none) (hpolls : s.Polls)
      (hcommands : s.commands = .close :: commands)
      (hs : { s with commands }.announce (.leaving true) = some s') : Step s s' .command
  | configure {commands : List SessionCommand} {ctl : Controller σ} (hpub : s.publishing = none)
      (hpolls : s.Polls) (hs : s' = { s with ctl, commands }) : Step s s' .command
  | push {ev : MarketEvent} (hpub : s.publishing = some ev) (hs : s.deliver ev = some s') :
      Step s s' .push
  | outside {a : HistoricalAction} (hs : s.Outside s') : Step s s' a

theorem isAttached_of_stream_closed {s : HistoricalSession σ} (h : s.stream.isOpen = false) :
    s.isAttached = false := by
  unfold isAttached
  split
  · exact h
  · rfl

theorem handleNext_cases {s s' : HistoricalSession σ} (hpub : s.publishing = none)
    (hpolls : s.Polls) (h : s.handleNext = some s') : s.Step s' .command := by
  unfold handleNext at h
  split at h
  · cases h
  · rename_i commands hcommands
    exact .close hpub hpolls hcommands h
  · obtain ⟨⟨go, ctl⟩, -, hrest⟩ := Option.bind_eq_some_iff.mp h
    exact .configure hpub hpolls (Option.some.inj hrest).symm

theorem proceed_cases {s s' : HistoricalSession σ} (hpub : s.publishing = none)
    (h : s.proceed = some s') : s.Step s' .proceed := by
  unfold proceed at h
  split at h
  · rename_i ev jobs hstage
    exact .sendJob hpub hstage h
  · rename_i hstage
    exact .finish hpub hstage h
  · rename_i hstage
    split_ifs at h with hattached
    · exact .wait hpub hstage hattached (Option.some.inj h).symm
    · exact .depart hpub (.inl hstage) (by simpa using hattached) h
  · rename_i hstage
    split_ifs at h with hopen
    exact .depart hpub (.inr hstage) (isAttached_of_stream_closed (by simpa using hopen)) h
  · rename_i ack hstage
    exact .leave hpub hstage (Option.some.inj h).symm
  · cases h

/-- Everything a step can do. -/
theorem step_cases {s s' : HistoricalSession σ} {a : HistoricalAction} (h : s.step a = some s') :
    s.Step s' a := by
  cases a with
  | push =>
      obtain ⟨ev, hpub, hs⟩ := Option.bind_eq_some_iff.mp h
      exact .push hpub hs
  | plan plan =>
      rw [step] at h
      split_ifs at h with hcond
      obtain ⟨hpub, hstage⟩ : s.publishing = none ∧ s.stage.plans = true := by simpa using hcond
      exact .plan hpub hstage (Option.some.inj h).symm
  | acquire free =>
      obtain ⟨hcond, h⟩ := Option.ite_none_right_eq_some.mp h
      obtain ⟨hpub, hstage⟩ : s.publishing = none ∧ s.stage = .planning := by simpa using hcond
      exact .acquire hpub hstage (Option.some.inj h).symm
  | grant =>
      rw [step] at h
      split_ifs at h with hcond
      obtain ⟨hpub, hstage⟩ : s.publishing = none ∧ s.stage = .queued := by simpa using hcond
      exact .grant hpub hstage (Option.some.inj h).symm
  | proceed =>
      rw [step] at h
      split_ifs at h with hpub
      exact proceed_cases (by simpa using hpub) h
  | item =>
      rw [step] at h
      split_ifs at h with hpub
      unfold select at h
      dsimp only at h
      split at h
      · rename_i way ev evs jobs hstage
        exact .item (by simpa using hpub) hstage h
      · rename_i way jobs hstage
        exact .loopEnd (by simpa using hpub) hstage (Option.some.inj h).symm
      · cases h
  | command =>
      rw [step] at h
      split_ifs at h with hpub
      unfold select at h
      dsimp only at h
      split at h
      · rename_i way evs jobs hstage
        exact handleNext_cases (by simpa using hpub) (.inl ⟨way, evs, jobs, hstage⟩) h
      · rename_i hstage
        exact handleNext_cases (by simpa using hpub) (.inr hstage) h
      · cases h
  | take =>
      rw [step] at h
      split_ifs at h
      obtain rfl := Option.some.inj h
      exact .outside ⟨rfl, rfl, rfl, rfl, rfl, id⟩
  | recv =>
      rw [step] at h
      split_ifs at h
      obtain ⟨stream, hrecv, rfl⟩ := Option.map_eq_some_iff.mp h
      exact .outside ⟨rfl, rfl, rfl, rfl, Channel.accepted_recv hrecv,
        fun _ => (Channel.recv_eq_some hrecv).1⟩
  | dropStream =>
      rw [step] at h
      split_ifs at h
      obtain rfl := Option.some.inj h
      exact .outside ⟨rfl, rfl, rfl, rfl, rfl, fun hopen => by cases hopen⟩
  | send cmd =>
      rw [step] at h
      split_ifs at h
      obtain rfl := Option.some.inj h
      exact .outside ⟨rfl, rfl, rfl, rfl, rfl, id⟩
  | dropHandle =>
      rw [step] at h
      split_ifs at h
      obtain rfl := Option.some.inj h
      exact .outside ⟨rfl, rfl, rfl, rfl, rfl, id⟩

theorem publish_spec {s s' : HistoricalSession σ} {way : Way} {ev : MarketEvent}
    {stage : HistoricalStage} (h : s.publish way ev stage = some s') :
    s'.stage = stage ∧ s'.publishing = some (ev.stampSeq ⟨s.ctl.nextSeq⟩) ∧
      s'.stream = s.stream ∧ s'.sink = s.sink := by
  obtain ⟨ctl, -, hrest⟩ := Option.bind_eq_some_iff.mp h
  obtain rfl := Option.some.inj hrest
  exact ⟨rfl, rfl, rfl, rfl⟩

theorem announce_spec {s s' : HistoricalSession σ} {stage : HistoricalStage}
    (h : s.announce stage = some s') :
    s'.stage = stage ∧ s'.publishing = some (s.ctl.closingControl.stampSeq ⟨s.ctl.nextSeq⟩) ∧
      s'.stream = s.stream ∧ s'.sink = s.sink := by
  obtain ⟨ctl, -, hrest⟩ := Option.bind_eq_some_iff.mp h
  obtain rfl := Option.some.inj hrest
  exact ⟨rfl, rfl, rfl, rfl⟩

/-- An event that is delivered goes to the stream, or the sink is detached. -/
theorem deliver_spec {s s' : HistoricalSession σ} {ev : MarketEvent}
    (h : s.deliver ev = some s') :
    s'.stage = s.stage ∧ s'.publishing = none ∧
      ((s.isAttached = true ∧ s'.stream.accepted = s.stream.accepted ++ [ev]) ∨
        (s.isAttached = false ∧ s'.isAttached = false ∧
          s'.stream.accepted = s.stream.accepted)) := by
  unfold deliver at h
  unfold isAttached
  cases hsink : s.sink with
  | attached =>
      rw [hsink] at h
      dsimp only at h ⊢
      cases hsend : s.stream.trySend ev with
      | sent stream =>
          rw [hsend] at h
          obtain rfl := Option.some.inj h
          exact ⟨rfl, rfl, .inl ⟨(Channel.eq_of_sent hsend).1, Channel.accepted_sent hsend⟩⟩
      | full =>
          rw [hsend] at h
          cases h
      | closed =>
          rw [hsend] at h
          obtain rfl := Option.some.inj h
          exact ⟨rfl, rfl, .inr ⟨Channel.isOpen_of_closed hsend, rfl, rfl⟩⟩
  | detached ring =>
      rw [hsink] at h
      obtain rfl := Option.some.inj h
      exact ⟨rfl, rfl, .inr ⟨rfl, rfl, rfl⟩⟩

end HistoricalSession

end Datamancer
