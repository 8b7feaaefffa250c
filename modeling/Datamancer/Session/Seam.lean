import Datamancer.Session.Live
import Datamancer.Storage.Turso

/-!
# Datamancer.Session.Seam

What a stitched live session stamps, and what of it reaches the tap log.

Every part of the session stamps consecutively (`Trail`), so the stream is put together
from the parts: the output of the segments, at the seam one gap for what the pending ring
evicted and then what it holds, and what the live loop forwards (`LiveRun.stream`). Only
what goes through `forward` is recorded, and of that only the data (`Recorded`); the
segments send their data by `emit`.
-/

namespace Datamancer

open Controller (Emits Trail stampAll)

variable {σ : Type}

/-! ### What is recorded -/

namespace Controller

/-- The controller writes data to the tap log. -/
def Recording (c : Controller σ) : Prop :=
  c.inner.scope.isLive = true ∧ c.hasTapLog = true ∧ c.persistence.writeTapLog = true

instance (c : Controller σ) : Decidable c.Recording := inferInstanceAs (Decidable (_ ∧ _))

/-- As many events were delivered as were stamped. -/
def Numbered (c : Controller σ) : Prop := c.nextSeq.toNat = c.delivered.length

/-- From `c` to `c'` a controller that was recording has recorded exactly `evs` and is
recording still, provided that `keep` holds of its commands. -/
structure Recorded (keep : Prop) (c c' : Controller σ) (evs : List MarketEvent) : Prop where
  hasCache : c'.cache.isSome = c.cache.isSome
  numbered : c.Numbered → c'.Numbered
  recording : keep → c.Recording → c'.Recording ∧ c'.teed = c.teed ++ evs

variable {keep : Prop}

/-- A step that changes neither the counter nor what is delivered or recorded. -/
theorem Recorded.of_quiet {c c' : Controller σ} (hcache : c'.cache.isSome = c.cache.isSome)
    (hseq : c'.nextSeq = c.nextSeq) (hdelivered : c'.delivered = c.delivered)
    (hteed : c'.teed = c.teed) (hrec : keep → c.Recording → c'.Recording) :
    Recorded keep c c' [] where
  hasCache := hcache
  numbered h := by rwa [Numbered, hseq, hdelivered]
  recording hkeep hc := ⟨hrec hkeep hc, by rw [hteed, List.append_nil]⟩

theorem Recorded.refl (c : Controller σ) : Recorded keep c c [] :=
  .of_quiet rfl rfl rfl rfl fun _ => id

theorem Recorded.trans {c c' c'' : Controller σ} {evs evs' : List MarketEvent}
    (h : Recorded keep c c' evs) (h' : Recorded keep c' c'' evs') :
    Recorded keep c c'' (evs ++ evs') where
  hasCache := h'.hasCache.trans h.hasCache
  numbered := h'.numbered ∘ h.numbered
  recording hkeep hc := by
    obtain ⟨hc', hteed⟩ := h.recording hkeep hc
    obtain ⟨hc'', hteed'⟩ := h'.recording hkeep hc'
    exact ⟨hc'', by rw [hteed', hteed, List.append_assoc]⟩

/-- Stamping takes the next number, and stops before the counter wraps. -/
theorem numbered_stamp {c d : Controller σ} {ev : MarketEvent} {r : MarketEvent × Controller σ}
    (h : c.stamp ev = some r) (hseq : d.nextSeq = r.2.nextSeq)
    (hdelivered : d.delivered = c.delivered ++ [r.1]) : c.Numbered → d.Numbered := by
  intro hnum
  have hroom : c.Room 1 := (isSome_stamp c ev).mp (by rw [h]; rfl)
  obtain rfl := stamp_eq_some h
  have hnext : (c.nextSeq + UInt64.ofNat 1).toNat = c.nextSeq.toNat + 1 := hroom.toNat_add
  unfold Numbered at hnum ⊢
  rw [hseq, hdelivered, List.length_append, List.length_singleton, ← hnum]
  exact hnext

theorem recorded_emit {c c' : Controller σ} {ev : MarketEvent} (h : c.emit ev = some c') :
    Recorded keep c c' [] := by
  obtain ⟨r, hr, hc⟩ := Option.bind_eq_some_iff.mp h
  have hnum := numbered_stamp (d := c') hr
  obtain rfl := stamp_eq_some hr
  obtain rfl := Option.some.inj hc
  exact ⟨rfl, hnum rfl rfl, fun _ hc => ⟨hc, (List.append_nil _).symm⟩⟩

/-- A data event that is forwarded is recorded, as stamped. -/
theorem recorded_forward {c c' : Controller σ} {ev : MarketEvent} (h : c.forward ev = some c') :
    Recorded keep c c' ((stampAll c.nextSeq [ev]).filter MarketEvent.isData) := by
  have htrail := (emits_forward h).toTrail
  obtain ⟨r, hr, hc⟩ := Option.bind_eq_some_iff.mp h
  have hnum : c.Numbered → c'.Numbered := by
    refine numbered_stamp hr ?_ ?_
    · obtain rfl := stamp_eq_some hr
      exact htrail.nextSeq
    · obtain rfl := stamp_eq_some hr
      exact htrail.delivered
  obtain rfl := stamp_eq_some hr
  obtain rfl := Option.some.inj hc
  refine ⟨?_, hnum, fun _ hrec => ?_⟩
  · unfold tee deliver
    split_ifs <;> rfl
  · obtain ⟨hlive, hlog, hwrite⟩ := hrec
    unfold tee
    cases hdata : ev.isData with
    | false =>
        simp only [MarketEvent.isData_stampSeq, hdata, stampAll, List.filter_cons, List.filter_nil,
          Bool.false_and, Bool.false_eq_true, ↓reduceIte, List.append_nil]
        exact ⟨⟨hlive, hlog, hwrite⟩, rfl⟩
    | true =>
        rw [if_pos (by simp [hdata, hlive, hlog, hwrite])]
        simp only [MarketEvent.isData_stampSeq, hdata, stampAll, List.filter_cons, List.filter_nil,
          ↓reduceIte]
        exact ⟨⟨hlive, hlog, hwrite⟩, rfl⟩

theorem recorded_shutdown {c c' : Controller σ} (h : c.shutdown = some c') :
    Recorded keep c c' [] := by
  have hemit : Recorded keep { c with clockReads := c.clockReads + 1 } _ [] := recorded_emit h
  exact ⟨hemit.hasCache, hemit.numbered, hemit.recording⟩

theorem recorded_emitGap {c c' : Controller σ} {ts f t : Timestamp}
    (h : c.emitGap ts f t = some c') : Recorded keep c c' [] := recorded_forward h

theorem recorded_emitProviderError {c c' : Controller σ} {ts : Timestamp} {message : String}
    (h : c.emitProviderError ts message = some c') : Recorded keep c c' [] := recorded_forward h

end Controller

/-- A command that leaves the tee on: options that write the tap log, or that are
rejected, as they need a cache there is not. -/
def KeepsTee (hasCache : Bool) : Option SessionCommand → Prop
  | some (.setPersistence options) =>
      options.writeTapLog = true ∨ (options.usesCache = true ∧ hasCache = false)
  | _ => True

def Arm.KeepsTee (hasCache : Bool) : Arm → Prop
  | .cmd c => Datamancer.KeepsTee hasCache c
  | _ => True

def LiveArm.KeepsTee (hasCache : Bool) : LiveArm → Prop
  | .cmd c => Datamancer.KeepsTee hasCache c
  | _ => True

/-- No command of the schedule turns the tee off. -/
structure LiveEnv.KeepsTee (env : LiveEnv) (hasCache : Bool) : Prop where
  backfill : ∀ i, ∀ arm ∈ env.backfill i, arm.KeepsTee hasCache
  live : ∀ arm ∈ env.live, arm.KeepsTee hasCache

variable {keep : Prop}

theorem recorded_applyPersistence {c : Controller σ} {options : PersistenceOptions}
    (hkeep : keep → KeepsTee c.cache.isSome (some (.setPersistence options))) :
    Controller.Recorded keep c (c.applyPersistence options).2 [] := by
  unfold Controller.applyPersistence
  split_ifs with hcache hlog
  · exact .refl c
  · exact .refl c
  · refine .of_quiet rfl rfl rfl rfl fun hk hc => ⟨hc.1, hc.2.1, ?_⟩
    rcases hkeep hk with hwrite | ⟨huses, hnone⟩
    · exact hwrite
    · -- such options are rejected
      have hno : c.cache.isNone = true := by simpa using hnone
      simp [huses, hno] at hcache

theorem recorded_handleCommand {c c' : Controller σ} {cmd : Option SessionCommand} {go : Bool}
    (hkeep : keep → KeepsTee c.cache.isSome cmd) (h : c.handleCommand cmd = some (go, c')) :
    Controller.Recorded keep c c' [] := by
  cases cmd with
  | none =>
      obtain ⟨-, rfl⟩ := Prod.mk.inj (Option.some.inj h)
      exact .refl c
  | some cmd =>
      cases cmd with
      | setPersistence options =>
          obtain ⟨-, rfl⟩ := Prod.mk.inj (Option.some.inj h)
          have happly := recorded_applyPersistence hkeep
          exact ⟨happly.hasCache, happly.numbered, happly.recording⟩
      | addSubscriber id =>
          obtain ⟨-, rfl⟩ := Prod.mk.inj (Option.some.inj h)
          exact .of_quiet rfl rfl rfl rfl fun _ hc => hc
      | close =>
          obtain ⟨c₁, hc₁, hrest⟩ := Option.bind_eq_some_iff.mp h
          obtain ⟨-, rfl⟩ := Prod.mk.inj (Option.some.inj hrest)
          have hshut : Controller.Recorded keep c c₁ [] := Controller.recorded_shutdown hc₁
          exact ⟨hshut.hasCache, hshut.numbered, hshut.recording⟩

open Controller (Recorded)

/-! ### Nothing of a backfill is recorded -/

section Segments

variable {β : Type} {account : β → MarketEvent → β} {hasCache : Bool}

theorem recorded_drain {evs : List MarketEvent} {c c' : Controller σ} {b b' : β}
    (h : drain Controller.emit account evs c b = some (c', b')) : Recorded keep c c' [] := by
  induction evs generalizing c b with
  | nil =>
      obtain ⟨rfl, -⟩ := Prod.mk.inj (Option.some.inj h)
      exact .refl c
  | cons ev evs ih =>
      obtain ⟨c₁, hc₁, hrest⟩ := Option.bind_eq_some_iff.mp h
      exact (Controller.recorded_emit hc₁).trans (ih hrest)

theorem recorded_selectLoop {arms : List Arm} {evs : List MarketEvent} {st st' : StreamState σ}
    {b b' : β} {e : LoopEnd} (hkeep : keep → ∀ arm ∈ arms, arm.KeepsTee hasCache)
    (h : selectLoop Controller.emit account arms evs st b = some (e, st', b'))
    (hcache : st.ctl.cache.isSome = hasCache) :
    Recorded keep st.ctl st'.ctl [] := by
  induction arms generalizing evs st b with
  | nil =>
      obtain ⟨⟨c, b₁⟩, hdrain, hrest⟩ := Option.bind_eq_some_iff.mp h
      cases Option.some.inj hrest
      exact recorded_drain hdrain
  | cons arm arms ih =>
      have harms : keep → ∀ arm ∈ arms, arm.KeepsTee hasCache :=
        fun hk => (List.forall_mem_cons.mp (hkeep hk)).2
      cases arm with
      | cmd cmd =>
          obtain ⟨⟨go, c⟩, hcmd, hrest⟩ := Option.bind_eq_some_iff.mp h
          have hrec : Recorded keep st.ctl c [] := recorded_handleCommand
            (fun hk => hcache ▸ (List.forall_mem_cons.mp (hkeep hk)).1) hcmd
          cases go with
          | true => exact hrec.trans (ih harms hrest (hrec.hasCache.trans hcache))
          | false =>
              cases Option.some.inj hrest
              exact hrec
      | removal teardown =>
          rw [selectLoop] at h
          split_ifs at h
          · obtain ⟨c, hshut, hrest⟩ := Option.bind_eq_some_iff.mp h
            cases Option.some.inj hrest
            exact Controller.recorded_shutdown hshut
          · exact ih harms h hcache
      -- the arrival is buffered, and recorded where it is emitted after the backfill
      | live ev =>
          have hrest := ih harms h hcache
          exact hrest
      | next =>
          cases evs with
          | nil =>
              cases Option.some.inj h
              exact .refl _
          | cons ev evs =>
              obtain ⟨c, hc, hrest⟩ := Option.bind_eq_some_iff.mp h
              have hrec : Recorded keep st.ctl c [] := Controller.recorded_emit hc
              exact hrec.trans (ih harms hrest (hrec.hasCache.trans hcache))

variable [HistoricalCache σ] {provider : Provider} {options : PersistenceOptions}

theorem recorded_storeClaim (c : Controller σ) (f u : Timestamp) (evs : List MarketEvent) :
    Recorded keep c (c.storeClaim options f u evs) [] := by
  unfold Controller.storeClaim
  split_ifs
  · exact .of_quiet Option.isSome_map rfl rfl rfl fun _ => id
  · exact .refl c

theorem recorded_streamCovered {arms : List Arm} {f t : Timestamp} {st st' : StreamState σ}
    {e : SegmentEnd} {report : SegmentReport}
    (hkeep : keep → ∀ arm ∈ arms, arm.KeepsTee hasCache)
    (h : streamCovered arms f t st = some (e, st', report))
    (hcache : st.ctl.cache.isSome = hasCache) : Recorded keep st.ctl st'.ctl [] := by
  unfold streamCovered at h
  split at h
  · obtain ⟨c, hc, hrest⟩ := Option.bind_eq_some_iff.mp h
    cases Option.some.inj hrest
    exact Controller.recorded_emitGap hc
  · split at h
    · obtain ⟨c, hc, hrest⟩ := Option.bind_eq_some_iff.mp h
      cases Option.some.inj hrest
      exact Controller.recorded_emitGap hc
    · obtain ⟨⟨le, st₁, b⟩, hloop, hrest⟩ := Option.bind_eq_some_iff.mp h
      have hrec := recorded_selectLoop hkeep hloop hcache
      cases le <;> cases Option.some.inj hrest <;> exact hrec

theorem recorded_settleGap {f t : Timestamp} {run : FetchRun} {p : FetchProgress}
    {st st' : StreamState σ} {e : SegmentEnd} {report : SegmentReport}
    (h : settleGap options f t run p st = some (e, st', report)) :
    Recorded keep st.ctl st'.ctl [] := by
  unfold settleGap at h
  split at h
  · cases Option.some.inj h
    exact recorded_storeClaim ..
  · obtain ⟨c, hgap, hrest⟩ := Option.bind_eq_some_iff.mp h
    obtain ⟨c', herror, hrest⟩ := Option.bind_eq_some_iff.mp hrest
    cases Option.some.inj hrest
    have hgap : Recorded keep
        (st.ctl.storeClaim options f (confirmedPrefixEnd p.maxDataTs f t) p.batch) c [] := by
      unfold Controller.emitRemainder at hgap
      split_ifs at hgap
      · exact Controller.recorded_emitGap hgap
      · exact Option.some.inj hgap ▸ .refl _
    exact (recorded_storeClaim ..).trans
      (hgap.trans (Controller.recorded_emitProviderError herror))

theorem recorded_streamGap {arms : List Arm} {f t : Timestamp} {st st' : StreamState σ}
    {e : SegmentEnd} {report : SegmentReport}
    (hkeep : keep → ∀ arm ∈ arms, arm.KeepsTee hasCache)
    (h : streamGap provider options arms f t st = some (e, st', report))
    (hcache : st.ctl.cache.isSome = hasCache) :
    Recorded keep st.ctl st'.ctl [] := by
  obtain ⟨⟨le, st₁, p⟩, hloop, hrest⟩ := Option.bind_eq_some_iff.mp h
  have hrec := recorded_selectLoop hkeep hloop hcache
  have hbegin : Recorded keep st.ctl st₁.ctl [] := ⟨hrec.hasCache, hrec.numbered, hrec.recording⟩
  cases le with
  | closed =>
      cases Option.some.inj hrest
      exact hbegin
  | exhausted => exact hbegin.trans (recorded_settleGap hrest)

theorem recorded_streamSegments {arms : Nat → List Arm} {segs : List Segment}
    {st st' : StreamState σ} {outcome : SegmentOutcome} {reports : List (Segment × SegmentReport)}
    (hkeep : keep → ∀ i, ∀ arm ∈ arms i, arm.KeepsTee hasCache)
    (h : streamSegments provider options arms segs st = some (outcome, st', reports))
    (hcache : st.ctl.cache.isSome = hasCache) :
    Recorded keep st.ctl st'.ctl [] := by
  induction segs generalizing arms st outcome reports with
  | nil =>
      cases Option.some.inj h
      exact .refl _
  | cons seg segs ih =>
      obtain ⟨⟨e, st₁, report⟩, hseg, hrest⟩ := Option.bind_eq_some_iff.mp h
      have hrec : Recorded keep st.ctl st₁.ctl [] := by
        cases seg with
        | covered f t => exact recorded_streamCovered (fun hk => hkeep hk 0) hseg hcache
        | gap f t => exact recorded_streamGap (fun hk => hkeep hk 0) hseg hcache
      cases e with
      | next =>
          obtain ⟨⟨o, st₂, reports₁⟩, hrun, hrest⟩ := Option.bind_eq_some_iff.mp hrest
          cases Option.some.inj hrest
          exact hrec.trans
            (ih (fun hk i => hkeep hk (i + 1)) hrun (hrec.hasCache.trans hcache))
      | abandon =>
          cases Option.some.inj hrest
          exact hrec
      | closed =>
          cases Option.some.inj hrest
          exact hrec

end Segments

/-! ### What a backfill sends -/

/-- What streaming one segment sent, as it is reported. -/
def SegmentReport.output (c : Controller σ) (edge : Option Timestamp) (seg : Segment) :
    SegmentReport → List MarketEvent
  | .vanished | .openFailed _ => [c.gapControl seg.fromTs seg.fromTs seg.toTs]
  | .replayed evs => evs
  | .fetched run _ => run.sent ++ run.joined.fetchError.elim []
      (c.failureControls (claimEnd edge run seg.fromTs seg.toTs) (edge.getD seg.toTs))
  | .interrupted => []

/-- The output of the segments, in order. -/
def segmentsOutput (c : Controller σ) (edge : Option Timestamp)
    (reports : List (Segment × SegmentReport)) : List MarketEvent :=
  reports.flatMap fun r => r.2.output c edge r.1

/-- `SessionClosing`, as a shutdown at `now` emits it. -/
def sessionClosing (now : Timestamp) : MarketEvent := .control ⟨now, now, ⟨0⟩, .sessionClosing⟩

/-- The output depends on the session's identity only. -/
theorem segmentsOutput_congr {c c' : Controller σ} (hinner : c'.inner = c.inner)
    (hpid : c'.providerId = c.providerId) (edge : Option Timestamp)
    (reports : List (Segment × SegmentReport)) :
    segmentsOutput c' edge reports = segmentsOutput c edge reports := by
  have hgap : c'.gapControl = c.gapControl := by
    funext ts f t
    simp [Controller.gapControl, hinner, hpid]
  have hfail : c'.failureControls = c.failureControls := by
    funext u t message
    simp [Controller.failureControls, Controller.providerErrorControl, hgap, hpid]
  refine List.flatMap_congr fun r _ => ?_
  obtain ⟨seg, report⟩ := r
  cases report <;> simp [SegmentReport.output, hgap, hfail]

section Outputs

variable [HistoricalCache σ] {provider : Provider} {options : PersistenceOptions}

theorem SegmentStep.trail_output {st st' : StreamState σ} {seg : Segment} {e : SegmentEnd}
    {report : SegmentReport} (h : SegmentStep provider options st st' seg e report)
    (hgo : e ≠ .closed) : Trail st.ctl st'.ctl (report.output st.ctl st.edge seg) := by
  cases h with
  | vanished hcache hemit => exact hemit.toTrail
  | openFailed hcache hfail hemit => exact hemit.toTrail
  | replayed hcache hok hemit => exact hemit.toTrail
  | fetched hok hstep => simpa [SegmentReport.output, hok] using hstep.trail
  | failed herr hstep =>
      simpa [SegmentReport.output, herr, Segment.fromTs, Segment.toTs, Segment.pair]
        using hstep.trail
  | interrupted htrail hcache => exact absurd rfl hgo

/-- Segments that are all done have sent their output. -/
theorem SegmentRun.trail_output {st st' : StreamState σ} {segs : List Segment}
    {reports : List (Segment × SegmentReport)}
    (h : SegmentRun provider options st segs .done st' reports) :
    Trail st.ctl st'.ctl (segmentsOutput st.ctl st.edge reports) := by
  generalize ho : SegmentOutcome.done = outcome at h
  induction h with
  | done st => exact .refl _
  | next hstep hedge hrest ih =>
      have hone := hstep.trail_output (by decide)
      have hall := hone.trans (ih ho)
      rw [hedge, segmentsOutput_congr hone.inner hone.providerId] at hall
      exact hall
  | abandon hstep hedge =>
      rw [segmentsOutput, List.flatMap_singleton]
      exact hstep.trail_output (by decide)
  | closed => cases ho

omit [HistoricalCache σ] in
/-- A loop that ends early although no command closes it has sent a first part of its
stream, and `SessionClosing`. -/
theorem selectLoop_closed {β : Type} {account : β → MarketEvent → β} {arms : List Arm}
    {evs : List MarketEvent} {st st' : StreamState σ} {b b' : β}
    (hopen : ∀ arm ∈ arms, arm.Open)
    (h : selectLoop Controller.emit account arms evs st b = some (.closed, st', b')) :
    ∃ part now, part <+: evs ∧ Trail st.ctl st'.ctl (part ++ [sessionClosing now]) := by
  induction arms generalizing evs st b with
  | nil =>
      obtain ⟨⟨c, b₁⟩, hdrain, hrest⟩ := Option.bind_eq_some_iff.mp h
      cases Option.some.inj hrest
  | cons arm arms ih =>
      obtain ⟨harm, harms⟩ := List.forall_mem_cons.mp hopen
      cases arm with
      | cmd cmd =>
          obtain ⟨c', hcmd, hemit⟩ := Controller.handleCommand_open harm st.ctl
          rw [selectLoop, hcmd] at h
          obtain ⟨part, now, hpart, htrail⟩ := ih harms h
          exact ⟨part, now, hpart, hemit.toTrail.trans htrail⟩
      | removal teardown =>
          rw [selectLoop] at h
          split_ifs at h
          · obtain ⟨c, hshut, hrest⟩ := Option.bind_eq_some_iff.mp h
            cases Option.some.inj hrest
            exact ⟨[], _, List.nil_prefix, (Controller.emits_shutdown hshut).toTrail⟩
          · exact ih harms h
      | live ev =>
          have hrest := ih harms h
          exact hrest
      | next =>
          cases evs with
          -- an exhausted stream does not end early
          | nil => cases Option.some.inj h
          | cons ev evs =>
              obtain ⟨c, hc, hrest⟩ := Option.bind_eq_some_iff.mp h
              obtain ⟨part, now, hpart, htrail⟩ := ih harms hrest
              exact ⟨ev :: part, now, List.cons_prefix_cons.mpr ⟨rfl, hpart⟩,
                (Controller.emits_emit hc).toTrail.trans htrail⟩

/-- What streaming a segment can have sent when it is interrupted: a first part of the
replay, or of what the fetch sends. -/
inductive Interrupted (provider : Provider) (c : Controller σ) :
    Segment → List MarketEvent → Prop
  | replay {f t : Timestamp} {cache : σ} {evs part : List MarketEvent}
      (hcache : c.cache = some cache)
      (hopen : HistoricalCache.open cache (c.cacheKey f t)
        ⟨[c.inner.instrument], [c.inner.kind], f, t⟩ = .ok evs) (hpart : part <+: evs) :
      Interrupted provider c (.covered f t) part
  | fetch {f t : Timestamp} {part : List MarketEvent}
      (hpart : part <+: (c.fetch provider f t).sent) : Interrupted provider c (.gap f t) part

theorem streamSegment_closed {arms : List Arm} {seg : Segment} {st st' : StreamState σ}
    {report : SegmentReport} (hopen : ∀ arm ∈ arms, arm.Open)
    (h : streamSegment provider options arms seg st = some (.closed, st', report)) :
    report = .interrupted ∧ ∃ part now, Interrupted provider st.ctl seg part ∧
      Trail st.ctl st'.ctl (part ++ [sessionClosing now]) := by
  cases seg with
  | covered f t =>
      unfold streamSegment streamCovered at h
      cases hcache : st.ctl.cache with
      | none =>
          rw [hcache] at h
          obtain ⟨c, hc, hrest⟩ := Option.bind_eq_some_iff.mp h
          cases Option.some.inj hrest
      | some cache =>
          rw [hcache] at h
          dsimp only at h
          cases hreplay : HistoricalCache.open cache (st.ctl.cacheKey f t)
              ⟨[st.ctl.inner.instrument], [st.ctl.inner.kind], f, t⟩ with
          | error e =>
              rw [hreplay] at h
              obtain ⟨c, hc, hrest⟩ := Option.bind_eq_some_iff.mp h
              cases Option.some.inj hrest
          | ok evs =>
              rw [hreplay] at h
              obtain ⟨⟨le, st₁, b⟩, hloop, hrest⟩ := Option.bind_eq_some_iff.mp h
              cases le with
              | exhausted => cases Option.some.inj hrest
              | closed =>
                  cases Option.some.inj hrest
                  obtain ⟨part, now, hpart, htrail⟩ := selectLoop_closed hopen hloop
                  exact ⟨rfl, part, now, .replay hcache hreplay hpart, htrail⟩
  | gap f t =>
      obtain ⟨⟨le, st₁, p⟩, hloop, hrest⟩ := Option.bind_eq_some_iff.mp h
      cases le with
      | exhausted =>
          dsimp only at hrest
          unfold settleGap at hrest
          split at hrest
          · cases Option.some.inj hrest
          -- a fetch that was joined ends its segment, failed or not, and never as closed
          · obtain ⟨c, -, hrest⟩ := Option.bind_eq_some_iff.mp hrest
            obtain ⟨c', -, hrest⟩ := Option.bind_eq_some_iff.mp hrest
            cases Option.some.inj hrest
      | closed =>
          cases Option.some.inj hrest
          obtain ⟨part, now, hpart, htrail⟩ := selectLoop_closed hopen hloop
          exact ⟨rfl, part, now, .fetch hpart, ⟨htrail.inner, htrail.providerId, htrail.hasTapLog,
            htrail.nextSeq, htrail.delivered⟩⟩

/-- The segments ahead of `seg` are done, with `st'` reached behind them, and `seg` is
interrupted. -/
def InterruptedAt (provider : Provider) (options : PersistenceOptions) (arms : Nat → List Arm)
    (segs : List Segment) (st : StreamState σ) (reports : List (Segment × SegmentReport))
    (seg : Segment) (st' : StreamState σ) : Prop :=
  ∃ (done : List (Segment × SegmentReport)) (rest : List Segment),
    segs = done.map Prod.fst ++ seg :: rest ∧ reports = done ++ [(seg, .interrupted)] ∧
    streamSegments provider options arms (done.map Prod.fst) st = some (.done, st', done)

/-- Segments that are interrupted have sent the output of those done, a first part of
the next one's stream, and `SessionClosing`. -/
theorem streamSegments_closed {arms : Nat → List Arm} {segs : List Segment}
    {st st' : StreamState σ} {reports : List (Segment × SegmentReport)}
    (hopen : ∀ i, ∀ arm ∈ arms i, arm.Open)
    (h : streamSegments provider options arms segs st = some (.closed, st', reports)) :
    ∃ (seg : Segment) (st₁ : StreamState σ) (part : List MarketEvent) (now : Timestamp),
      InterruptedAt provider options arms segs st reports seg st₁ ∧
      Interrupted provider st₁.ctl seg part ∧
      Trail st.ctl st'.ctl
        (segmentsOutput st.ctl st.edge reports ++ (part ++ [sessionClosing now])) := by
  induction segs generalizing arms st reports with
  | nil => cases Option.some.inj h
  | cons seg segs ih =>
      obtain ⟨⟨e, st₁, report⟩, hseg, hrest⟩ := Option.bind_eq_some_iff.mp h
      obtain ⟨hstep, hedge⟩ := streamSegment_step hseg
      cases e with
      | next =>
          obtain ⟨⟨o, st₂, reports₁⟩, hrun, hrest⟩ := Option.bind_eq_some_iff.mp hrest
          cases Option.some.inj hrest
          obtain ⟨seg', st₃, part, now, ⟨done, rest, rfl, rfl, hdone⟩, hpart, htrail⟩ :=
            ih (fun i => hopen (i + 1)) hrun
          have hone := hstep.trail_output (by decide)
          refine ⟨seg', st₃, part, now, ⟨(seg, report) :: done, rest, rfl, rfl, ?_⟩, hpart, ?_⟩
          · simp [streamSegments, hseg, hdone]
          have hall := hone.trans htrail
          rw [hedge, segmentsOutput_congr hone.inner hone.providerId, ← List.append_assoc] at hall
          exact hall
      | abandon => cases Option.some.inj hrest
      | closed =>
          cases Option.some.inj hrest
          obtain ⟨rfl, part, now, hpart, htrail⟩ := streamSegment_closed (hopen 0) hseg
          exact ⟨seg, st, part, now, ⟨[], segs, rfl, rfl, rfl⟩, hpart, htrail⟩

end Outputs

/-! ### The seam and the live loop -/

section Tail

variable {keep : Prop}

theorem length_stampAll (n : UInt64) (evs : List MarketEvent) :
    (stampAll n evs).length = evs.length := by
  induction evs generalizing n with
  | nil => rfl
  | cons ev evs ih => simp [stampAll, ih]

/-- From `c` to `c'` the events were forwarded: stamped, delivered, and recorded if they
are data. -/
structure Forwards (keep : Prop) (c c' : Controller σ) (evs : List MarketEvent) : Prop where
  trail : Trail c c' evs
  recorded : Recorded keep c c' ((stampAll c.nextSeq evs).filter MarketEvent.isData)

namespace Forwards

theorem refl (c : Controller σ) : Forwards keep c c [] := ⟨.refl c, .refl c⟩

theorem trans {c c' c'' : Controller σ} {evs evs' : List MarketEvent}
    (h : Forwards keep c c' evs) (h' : Forwards keep c' c'' evs') :
    Forwards keep c c'' (evs ++ evs') where
  trail := h.trail.trans h'.trail
  recorded := by
    rw [Controller.stampAll_append, ← h.trail.nextSeq, List.filter_append]
    exact h.recorded.trans h'.recorded

theorem forward {c c' : Controller σ} {ev : MarketEvent} (h : c.forward ev = some c') :
    Forwards keep c c' [ev] :=
  ⟨(Controller.emits_forward h).toTrail, Controller.recorded_forward h⟩

theorem foldlM {c c' : Controller σ} {evs : List MarketEvent}
    (h : evs.foldlM Controller.forward c = some c') : Forwards keep c c' evs := by
  induction evs generalizing c with
  | nil => exact Option.some.inj h ▸ refl c
  | cons ev evs ih =>
      rw [List.foldlM_cons] at h
      obtain ⟨c₁, hc₁, hrest⟩ := Option.bind_eq_some_iff.mp h
      exact (forward hc₁).trans (ih hrest)

end Forwards

/-- What the flush stamps ahead of the survivors: the gap, if anything was dropped. -/
def seamControls (c : Controller σ) (dropped : Option GapSpan) : List MarketEvent :=
  dropped.toList.map fun g => c.gapControl g.fromSourceTs g.fromSourceTs g.toSourceTs

/-- The flush stamps the gap, which is not recorded, and forwards the survivors. -/
theorem flushBackfillPending_spec {c c' : Controller σ} {ring : EventRing}
    (h : c.flushBackfillPending ring = some c') :
    ∃ c₁, Trail c c₁ (seamControls c ring.dropped) ∧ Recorded keep c c₁ [] ∧
      Forwards keep c₁ c' ring.ring.buf := by
  unfold Controller.flushBackfillPending at h
  unfold seamControls
  cases hdropped : ring.dropped with
  | none =>
      rw [hdropped] at h
      exact ⟨c, .refl c, .refl c, .foldlM h⟩
  | some span =>
      rw [hdropped] at h
      obtain ⟨c₁, hgap, hrest⟩ := Option.bind_eq_some_iff.mp h
      exact ⟨c₁, (Controller.emits_emitGap hgap).toTrail, Controller.recorded_emitGap hgap,
        .foldlM hrest⟩

theorem LiveState.forward_spec {st st' : LiveState σ} {ev : MarketEvent}
    (h : st.forward ev = some st') :
    st'.later = st.later ++ [ev] ∧ Forwards keep st.ctl st'.ctl [ev] := by
  obtain ⟨c, hc, hrest⟩ := Option.bind_eq_some_iff.mp h
  obtain rfl := Option.some.inj hrest
  exact ⟨rfl, .forward hc⟩

/-- The live loop forwards what it takes from the provider, and nothing else is stamped. -/
theorem liveLoop_forwards {hasCache : Bool} {arms : List LiveArm} {st st' : LiveState σ}
    (hopen : ∀ arm ∈ arms, arm.Open) (hkeep : keep → ∀ arm ∈ arms, arm.KeepsTee hasCache)
    (h : liveLoop arms st = some st') (hcache : st.ctl.cache.isSome = hasCache) :
    ∃ out, st'.later = st.later ++ out ∧ Forwards keep st.ctl st'.ctl out := by
  induction arms generalizing st with
  | nil =>
      obtain rfl := Option.some.inj h
      exact ⟨[], (List.append_nil _).symm, .refl _⟩
  | cons arm arms ih =>
      obtain ⟨harm, harms⟩ := List.forall_mem_cons.mp hopen
      have hkeeps : keep → ∀ arm ∈ arms, arm.KeepsTee hasCache :=
        fun hk => (List.forall_mem_cons.mp (hkeep hk)).2
      -- one event forwarded, then the rest of the loop
      have hone : ∀ {st₀ : LiveState σ} {ev : MarketEvent}, st₀.ctl = st.ctl →
          st₀.later = st.later → ((st₀.forward ev).bind fun st₁ => liveLoop arms st₁) = some st' →
          ∃ out, st'.later = st.later ++ out ∧ Forwards keep st.ctl st'.ctl out := by
        intro st₀ ev hctl hlater hbind
        obtain ⟨st₁, hfwd, hrest⟩ := Option.bind_eq_some_iff.mp hbind
        obtain ⟨hlater₁, hforwards⟩ : _ ∧ Forwards keep _ _ _ := LiveState.forward_spec hfwd
        rw [hctl] at hforwards
        obtain ⟨out, hout, htail⟩ :=
          ih harms hkeeps hrest (hforwards.recorded.hasCache.trans hcache)
        exact ⟨ev :: out, by rw [hout, hlater₁, hlater, List.append_assoc]; rfl,
          hforwards.trans htail⟩
      cases arm with
      | cmd cmd =>
          obtain ⟨c', hcmd, hemit⟩ := Controller.handleCommand_open harm st.ctl
          have hrec : Recorded keep st.ctl c' [] := recorded_handleCommand
            (fun hk => hcache ▸ (List.forall_mem_cons.mp (hkeep hk)).1) hcmd
          rw [liveLoop, hcmd] at h
          obtain ⟨out, hout, htail⟩ := ih harms hkeeps h (hrec.hasCache.trans hcache)
          exact ⟨out, hout, Forwards.trans ⟨hemit.toTrail, hrec⟩ htail⟩
      | removal teardown =>
          rw [liveLoop] at h
          split_ifs at h
          · obtain rfl := Option.some.inj h
            exact ⟨[], (List.append_nil _).symm, .refl _⟩
          · exact ih harms hkeeps h hcache
      | arrival ev =>
          unfold liveLoop at h
          split at h
          · exact hone rfl rfl h
          · obtain rfl := Option.some.inj h
            exact ⟨[], (List.append_nil _).symm, .refl _⟩
      | seed res =>
          unfold liveLoop at h
          split at h
          · refine hone ?_ ?_ h <;> rfl
          · have hrest := ih harms hkeeps h hcache
            exact hrest

end Tail

/-! ### The stream of a stitched session -/

namespace LiveRun

variable (run : LiveRun σ) (ringCapacity : Nat)

/-- The live arrivals of the backfill phase that do not fit the pending ring. -/
def evicted : List MarketEvent :=
  run.backfill.arrivals.take (run.backfill.arrivals.length - max ringCapacity 1)

/-- The last ring-capacity live arrivals of the backfill phase. -/
def survivors : List MarketEvent :=
  run.backfill.arrivals.drop (run.backfill.arrivals.length - max ringCapacity 1)

/-- What is gapped at the seam. -/
def seamGap : Option GapSpan := GapSpan.hull ((run.evicted ringCapacity).filterMap
  MarketEvent.lossSpan)

/-- The output of the backfill of the session spawned with `c`. -/
def output (c : Controller σ) : List MarketEvent :=
  segmentsOutput c (some (c.clock c.clockReads)) run.backfill.reports

end LiveRun

section Stitched

variable [HistoricalCache σ] {provider : Provider} {ringCapacity : Nat} {env : LiveEnv}

/-- The controller of a session that is not spawned yet. -/
structure Controller.Fresh (c : Controller σ) : Prop where
  nextSeq : c.nextSeq = 0
  delivered : c.delivered = []
  teed : c.teed = []

/-- The stream is the backfill's output, the gap of the seam if there is one, the last
arrivals of the backfill phase that fit the ring, and the later ones. -/
def LiveRun.Stitched (ringCapacity : Nat) (c : Controller σ) (run : LiveRun σ) : Prop :=
  run.ctl.delivered = stampAll 0 (run.output c ++ seamControls c (run.seamGap ringCapacity)
    ++ run.survivors ringCapacity ++ run.later)

/-- The segments of a backfill of the session spawned with `c`, and where they are streamed
from. -/
def Controller.backfillPlan (c : Controller σ) (f : Timestamp) : List Segment × StreamState σ :=
  let edge := c.clock c.clockReads
  let c := { c with clockReads := c.clockReads + 1 }
  (tile f edge (backfillGaps f edge c), ⟨c, some ⟨edge, true, []⟩⟩)

/-- The stream of a backfill that the last referrer's leaving aborts: the output of the
segments done, a first part of the next one's, as the cache or the provider answers there, and
`SessionClosing`. -/
def LiveRun.Aborted (provider : Provider) (env : LiveEnv) (f : Timestamp) (c : Controller σ)
    (run : LiveRun σ) : Prop :=
  ∃ (seg : Segment) (st : StreamState σ) (part : List MarketEvent) (now : Timestamp),
    InterruptedAt provider c.persistence env.backfill (c.backfillPlan f).1 (c.backfillPlan f).2
      run.backfill.reports seg st ∧
    Interrupted provider st.ctl seg part ∧
    run.ctl.delivered = stampAll 0 (run.output c ++ (part ++ [sessionClosing now]))

/-- The ring of a backfill, as it is flushed. -/
theorem ring_of_arrivals (ringCapacity : Nat) (arrivals : List MarketEvent) :
    ((EventRing.new ringCapacity).pushAll arrivals).ring.buf
      = arrivals.drop (arrivals.length - max ringCapacity 1) ∧
    ((EventRing.new ringCapacity).pushAll arrivals).dropped
      = GapSpan.hull ((arrivals.take (arrivals.length - max ringCapacity 1)).filterMap
        MarketEvent.lossSpan) := by
  obtain ⟨hbuf, hevicted⟩ := EvictRing.buf_pushAll ringCapacity arrivals
  constructor
  · rw [EventRing.ring_pushAll]
    exact hbuf
  · rw [EventRing.dropped_pushAll (EventRing.new ringCapacity) arrivals [] rfl, List.nil_append]
    exact congrArg (fun evs => GapSpan.hull (evs.filterMap MarketEvent.lossSpan)) hevicted

/-- A backfill stamps without recording up to the seam, and forwards what the ring
holds; one that is aborted does not come so far. -/
theorem runBackfill_spec {keep : Prop} {arms : Nat → List Arm} {f : Timestamp}
    {c c' : Controller σ} {b : Backfill} (hopen : ∀ i, ∀ arm ∈ arms i, arm.Open)
    (hkeep : keep → ∀ i, ∀ arm ∈ arms i, arm.KeepsTee c.cache.isSome)
    (h : runBackfill provider ringCapacity arms f c = some (c', b)) :
    (b.outcome = .done → ∃ c₁, Trail c c₁ (segmentsOutput c (some (c.clock c.clockReads)) b.reports
        ++ seamControls c ((EventRing.new ringCapacity).pushAll b.arrivals).dropped) ∧
      Recorded keep c c₁ [] ∧
      Forwards keep c₁ c' ((EventRing.new ringCapacity).pushAll b.arrivals).ring.buf) ∧
    (b.outcome = .closed → Recorded keep c c' [] ∧ ∃ (seg : Segment) (st : StreamState σ)
      (part : List MarketEvent) (now : Timestamp),
      InterruptedAt provider c.persistence arms (c.backfillPlan f).1 (c.backfillPlan f).2
        b.reports seg st ∧
      Interrupted provider st.ctl seg part ∧
      Trail c c' (segmentsOutput c (some (c.clock c.clockReads)) b.reports
        ++ (part ++ [sessionClosing now]))) := by
  -- reading the clock stamps nothing
  have hclock : Trail c { c with clockReads := c.clockReads + 1 } [] ∧
      Recorded keep c { c with clockReads := c.clockReads + 1 } [] :=
    ⟨⟨rfl, rfl, rfl, by simp, by simp [stampAll]⟩, .of_quiet rfl rfl rfl rfl fun _ hc => hc⟩
  unfold runBackfill at h
  dsimp only at h
  split_ifs at h with hedge
  · cases Option.some.inj h
    exact ⟨fun _ => ⟨_, hclock.1, hclock.2, .refl _⟩, fun hclosed => by cases hclosed⟩
  · obtain ⟨⟨outcome, st, reports⟩, hsegs, hrest⟩ := Option.bind_eq_some_iff.mp h
    have hrec := hclock.2.trans (recorded_streamSegments hkeep hsegs rfl)
    cases outcome with
    | closed =>
        cases Option.some.inj hrest
        refine ⟨fun hdone => (by cases hdone), fun _ => ⟨hrec, ?_⟩⟩
        obtain ⟨seg, st₁, part, now, hat, hpart, htrail⟩ := streamSegments_closed hopen hsegs
        exact ⟨seg, st₁, part, now, hat, hpart, hclock.1.trans htrail⟩
    | done =>
        obtain ⟨c₂, hflush, hrest⟩ := Option.bind_eq_some_iff.mp hrest
        cases Option.some.inj hrest
        refine ⟨fun _ => ?_, fun hclosed => (by cases hclosed)⟩
        have htrail := hclock.1.trans (streamSegments_run hsegs).trail_output
        obtain ⟨c₁, hgap, hrecGap, hfwd⟩ : ∃ c₁, _ ∧ Recorded keep _ c₁ [] ∧ _ :=
          flushBackfillPending_spec hflush
        refine ⟨c₁, ?_, hrec.trans hrecGap, hfwd⟩
        have hcontrols : ∀ g, seamControls st.ctl g = seamControls c g := by
          intro g
          simp only [seamControls, Controller.gapControl, htrail.inner, htrail.providerId]
        rw [hcontrols] at hgap
        exact htrail.trans hgap

/-- The same, of the whole session: the live loop forwards after the survivors. -/
theorem spawnLive_spec {keep : Prop} {c : Controller σ} {f : Timestamp} {run : LiveRun σ}
    (hkeep : keep → env.KeepsTee c.cache.isSome) (hscope : c.inner.scope = .live (some f))
    (h : spawnLive provider ringCapacity env c = some run) :
    (run.backfill.outcome = .done → ∃ c₁,
      Trail c c₁ (run.output c ++ seamControls c (run.seamGap ringCapacity)) ∧
      Recorded keep c c₁ [] ∧
      Forwards keep c₁ run.ctl (run.survivors ringCapacity ++ run.later)) ∧
    (run.backfill.outcome = .closed → Recorded keep c run.ctl [] ∧ ∃ (seg : Segment)
      (st : StreamState σ) (part : List MarketEvent) (now : Timestamp),
      InterruptedAt provider c.persistence env.backfill (c.backfillPlan f).1 (c.backfillPlan f).2
        run.backfill.reports seg st ∧
      Interrupted provider st.ctl seg part ∧
      Trail c run.ctl (run.output c ++ (part ++ [sessionClosing now]))) := by
  rw [spawnLive, hscope] at h
  obtain ⟨⟨c₂, b⟩, hback, hrest⟩ := Option.bind_eq_some_iff.mp h
  obtain ⟨hdone, hclosed⟩ := runBackfill_spec (fun i => env.backfill_open i)
    (fun hk => (hkeep hk).backfill) hback
  dsimp only at hrest
  cases houtcome : b.outcome with
  | closed =>
      rw [houtcome] at hrest
      obtain rfl := Option.some.inj hrest
      refine ⟨fun hd => ?_, fun _ => hclosed houtcome⟩
      rw [houtcome] at hd
      cases hd
  | done =>
      rw [houtcome] at hrest
      obtain ⟨st, hloop, hrest⟩ := Option.bind_eq_some_iff.mp hrest
      obtain rfl := Option.some.inj hrest
      refine ⟨fun _ => ?_, fun hc => ?_⟩
      · obtain ⟨c₁, htrail, hrec, hfwd⟩ := hdone houtcome
        -- what the ring holds after the backfill are the survivors, and what it lost makes the gap
        obtain ⟨hbuf, hdropped⟩ := ring_of_arrivals ringCapacity b.arrivals
        rw [hbuf] at hfwd
        rw [hdropped] at htrail
        have hcache : c₂.cache.isSome = c.cache.isSome :=
          hfwd.recorded.hasCache.trans hrec.hasCache
        obtain ⟨out, hlater, hout⟩ :=
          liveLoop_forwards env.live_open (fun hk => (hkeep hk).live) hloop hcache
        rw [List.nil_append] at hlater
        exact ⟨c₁, htrail, hrec, hlater ▸ hfwd.trans hout⟩
      · rw [houtcome] at hc
        cases hc

omit [HistoricalCache σ] in
/-- Consecutive stamps from zero number the events by their position. -/
theorem seq_of_numbered {c : Controller σ} {evs : List MarketEvent}
    (hdelivered : c.delivered = stampAll 0 evs) (hnum : c.Numbered) {n : Nat} {ev : MarketEvent}
    (hev : c.delivered[n]? = some ev) : ev.seq.toNat = n := by
  have hat : ∀ (m : UInt64) (evs : List MarketEvent) (n : Nat) (ev : MarketEvent),
      (stampAll m evs)[n]? = some ev → ev.seq = ⟨m + UInt64.ofNat n⟩ := by
    intro m evs
    induction evs generalizing m with
    | nil => simp [stampAll]
    | cons e evs ih =>
        intro n ev hev
        cases n with
        | zero =>
            obtain rfl := Option.some.inj hev
            simp
        | succ n =>
            rw [ih (m + 1) n ev hev, UInt64.ofNat_add, UInt64.add_comm (UInt64.ofNat n),
              ← UInt64.add_assoc]
            rfl
  have hseq := hat 0 evs n ev (hdelivered ▸ hev)
  obtain ⟨hlt, -⟩ := List.getElem?_eq_some_iff.mp hev
  have hbound := c.nextSeq.toNat_lt
  rw [hnum] at hbound
  rw [hseq, Seq.toNat, UInt64.zero_add]
  exact UInt64.toNat_ofNat_of_lt' (show n < 2 ^ 64 by omega)

/-- The stream of a session spawned with a backfill, and what of it is recorded. -/
theorem backfill_seam {c : Controller σ} {f : Timestamp} {run : LiveRun σ}
    (hscope : c.inner.scope = .live (some f)) (hnew : c.Fresh)
    (h : spawnLive provider ringCapacity env c = some run) :
    (run.backfill.outcome = .done → run.Stitched ringCapacity c) ∧
    (run.backfill.outcome = .closed → run.Aborted provider env f c) ∧
    ((run.seamGap ringCapacity).isSome = true ↔
      ∃ ev ∈ run.evicted ringCapacity, ev.isData = true ∨ ev.isGap = true) ∧
    (∀ g, run.seamGap ringCapacity = some g →
      g.IsHull ((run.evicted ringCapacity).filterMap MarketEvent.lossSpan)) ∧
    (∀ n (ev : MarketEvent), run.ctl.delivered[n]? = some ev → ev.seq.toNat = n) ∧
    (c.Recording → env.KeepsTee c.cache.isSome →
      (run.backfill.outcome = .done → run.ctl.teed = (run.ctl.delivered.drop (run.output c
        ++ seamControls c (run.seamGap ringCapacity)).length).filter MarketEvent.isData) ∧
      (run.backfill.outcome = .closed → run.ctl.teed = [])) := by
  obtain ⟨hdone, hclosed⟩ := spawnLive_spec (fun hk : env.KeepsTee c.cache.isSome => hk) hscope h
  have hzero : c.Numbered := by rw [Controller.Numbered, hnew.nextSeq, hnew.delivered]; rfl
  have hsent : ∀ {c' : Controller σ} {evs : List MarketEvent}, Trail c c' evs →
      c'.delivered = stampAll 0 evs := by
    intro c' evs htrail
    rw [htrail.delivered, hnew.delivered, hnew.nextSeq, List.nil_append]
  have hstitched : run.backfill.outcome = .done → run.Stitched ringCapacity c := by
    intro ho
    obtain ⟨c₁, htrail, -, hfwd⟩ := hdone ho
    have hall := hsent (htrail.trans hfwd.trail)
    rwa [← List.append_assoc] at hall
  have haborted : run.backfill.outcome = .closed → run.Aborted provider env f c := by
    intro ho
    obtain ⟨-, seg, st, part, now, hat, hpart, htrail⟩ := hclosed ho
    exact ⟨seg, st, part, now, hat, hpart, hsent htrail⟩
  refine ⟨hstitched, haborted, ?_, fun g hg => GapSpan.isHull_of_hull hg, ?_, ?_⟩
  · rw [← Option.ne_none_iff_isSome, LiveRun.seamGap, Ne, GapSpan.hull_eq_none,
      List.filterMap_eq_nil_iff]
    push Not
    refine exists_congr fun ev => and_congr_right fun _ => ?_
    rw [Option.ne_none_iff_isSome, MarketEvent.lossSpan_isSome, Bool.or_eq_true]
  · intro n ev hev
    cases ho : run.backfill.outcome with
    | done =>
        obtain ⟨c₁, -, hrec, hfwd⟩ := hdone ho
        exact seq_of_numbered (hstitched ho) (hfwd.recorded.numbered (hrec.numbered hzero)) hev
    | closed =>
        obtain ⟨_, _, part, now, -, -, hdelivered⟩ := haborted ho
        exact seq_of_numbered hdelivered ((hclosed ho).1.numbered hzero) hev
  · intro hrecording hkeep
    constructor
    · intro ho
      obtain ⟨c₁, htrail, hrec, hfwd⟩ := hdone ho
      obtain ⟨hrecording₁, hteed₁⟩ := hrec.recording hkeep hrecording
      obtain ⟨-, hteed⟩ := hfwd.recorded.recording hkeep hrecording₁
      -- the head of the stream is what was delivered up to the survivors
      have hlen := congrArg List.length (hsent htrail)
      rw [length_stampAll] at hlen
      rw [hteed, hteed₁, hnew.teed, hfwd.trail.delivered, ← hlen, List.drop_left]
      rfl
    · intro ho
      obtain ⟨-, hteed⟩ := (hclosed ho).1.recording hkeep hrecording
      rw [hteed, hnew.teed]
      rfl

/-- A stitched live session that records to the tap log, without a cache and at a
constant clock. -/
def stitchedController (now : Timestamp) : Controller TursoCache where
  inner := ⟨⟨"p", .equity, "AAPL"⟩, .trade, .live (some 0), .raw⟩
  providerId := "p"
  persistence := ⟨false, false, true⟩
  cache := none
  hasTapLog := true
  nextSeq := 0
  dataForwarded := false
  historyFetches := 0
  clock := fun _ => now
  clockReads := 0
  delivered := []
  teed := []
  acks := []

/-- A provider whose every fetch brings one trade. -/
def oneTradeProvider : Provider := ⟨"p", fun _ _ => ⟨[testTrade "AAPL" 5 ⟨0⟩], .ok⟩⟩

/-- Two trades arrive live during the backfill, and one later. -/
def overflowEnv : LiveEnv where
  backfill := fun _ => [.live (some (testTrade "AAPL" 101 ⟨0⟩)),
    .live (some (testTrade "AAPL" 102 ⟨0⟩))]
  live := [.arrival (some (testTrade "AAPL" 103 ⟨0⟩))]
  backfill_open := by simp [Arm.Open]
  live_open := by simp [LiveArm.Open]

/-- A trade arrives live during the backfill, and then the last referrer leaves. -/
def abortEnv : LiveEnv where
  backfill := fun _ => [.live (some (testTrade "AAPL" 101 ⟨0⟩)), .removal true]
  live := []
  backfill_open := by simp [Arm.Open]
  live_open := by simp

/-- A run of four events: one fetched, the gap of the one evicted, the one that fits the
ring, and the later one; the log has the last two. -/
theorem backfill_seam_overflow : ∃ run,
    spawnLive oneTradeProvider 1 overflowEnv (stitchedController 100) = some run ∧
    run.backfill.outcome = .done ∧ run.ctl.delivered.length = 4 ∧ run.ctl.teed.length = 2 ∧
    run.Stitched 1 (stitchedController 100) := by
  have hrun := (rfl : spawnLive oneTradeProvider 1 overflowEnv (stitchedController 100) = _)
  obtain ⟨hstitched, -, -, -, -, hteed⟩ := backfill_seam (c := stitchedController 100) (f := 0)
    rfl ⟨rfl, rfl, rfl⟩ hrun
  have hkeep : overflowEnv.KeepsTee false :=
    ⟨by simp [overflowEnv, Arm.KeepsTee], by simp [overflowEnv, LiveArm.KeepsTee]⟩
  refine ⟨_, hrun, rfl, rfl, ?_, hstitched rfl⟩
  rw [(hteed (by decide) hkeep).1 rfl]
  rfl

/-- A backfill that is aborted does not stamp the arrival it has buffered. -/
theorem not_stitched_aborted : ∃ run,
    spawnLive oneTradeProvider 1 abortEnv (stitchedController 100) = some run ∧
    (stitchedController 100).inner.scope = .live (some 0) ∧ (stitchedController 100).Fresh ∧
    run.survivors 1 = [testTrade "AAPL" 101 ⟨0⟩] ∧
    ¬ run.Stitched 1 (stitchedController 100) := by
  refine ⟨_, rfl, rfl, ⟨rfl, rfl, rfl⟩, rfl, ?_⟩
  unfold LiveRun.Stitched
  decide

end Stitched

end Datamancer
