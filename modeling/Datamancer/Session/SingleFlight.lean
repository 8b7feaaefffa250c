import Datamancer.Lib.ActionSystem
import Datamancer.Lib.WeakLocks
import Datamancer.Session.Segments

/-!
# Datamancer.Session.SingleFlight

Historical sessions that run side by side over one cache (`run_historical_cached`,
`fetch_locks`).

A session looks at the gaps of its range without the fetch slot first. If there are any
it calls for the slot of its key, looks again once it has it, and keeps it until its
segments are streamed, unless nothing is left to fetch. Where a session can be overtaken
by another is where it awaits the cache, the slot or a fetch, so those are the ends of
its steps; what the cache and the provider answer in between is streamed as in
`Session.Segments`, over the cache as it is then.
-/

namespace Datamancer

/-- The fetch slots of one `Datamancer`, by cache key. -/
abbrev FetchLocks := WeakLocks CacheKey

/-- Where `run_historical_cached` is. -/
inductive FlightStage
  | ready
  /-- There is something to fetch. -/
  | wanting
  /-- In `acquire`. -/
  | waiting (call : Nat)
  /-- With the slot, ahead of the second look. -/
  | holding (call : Nat)
  | streaming (guard : Option Nat) (segs : List Segment)
  /-- In the fetch of `[f, t)`, with what it brings. -/
  | fetching (guard : Option Nat) (f t : Timestamp) (run : FetchRun) (segs : List Segment)
  /-- The controller exits while streaming. -/
  | closing (guard : Option Nat)
  /-- The slot is given back; `finish_historical` is next. -/
  | finishing
  | finished
  | closed
  deriving DecidableEq, Repr

namespace FlightStage

/-- The call of `acquire` that is under way, or whose guard is held. -/
def call : FlightStage → Option Nat
  | .waiting n | .holding n => some n
  | .streaming guard _ | .fetching guard _ _ _ _ | .closing guard => guard
  | _ => none

def isFetching : FlightStage → Bool
  | .fetching _ _ _ _ _ => true
  | _ => false

end FlightStage

structure FlightSession (σ : Type) where
  ctl : Controller σ
  options : PersistenceOptions
  fromTs : Timestamp
  toTs : Timestamp
  stage : FlightStage

/-- Sessions over one cache, and every fetch made so far. -/
structure FlightWorld (σ : Type) where
  cache : σ
  locks : FetchLocks
  fetches : List HistoryRequest
  sessions : List (FlightSession σ)

inductive FlightAction (σ : Type)
  /-- The unlocked pre-check. -/
  | precheck
  | acquire
  | grant
  /-- The second look, with the slot. -/
  | replan
  /-- Replay a covered segment. -/
  | cover (arms : List Arm)
  /-- Start the fetch of a gap segment, and what it will bring. -/
  | fetch (run : FetchRun)
  /-- Stream what the fetch brings, and store it. -/
  | settle (arms : List Arm)
  /-- Leave `stream_segments` and give the slot back. -/
  | release
  | finish (env : HistoricalEnv σ)

/-- A provider that answers with one run. -/
def FetchRun.provider (run : FetchRun) (id : String) : Provider := ⟨id, fun _ _ => run⟩

section Flight

variable {σ : Type} [HistoricalCache σ]

namespace FlightSession

def planKey (x : FlightSession σ) : CacheKey := x.ctl.cacheKey x.fromTs x.toTs

/-- The state of `stream_segments`, over the cache as it is. -/
def streamState (x : FlightSession σ) (cache : σ) : StreamState σ :=
  ⟨{ x.ctl with cache := some cache }, none⟩

/-- After a segment. A failed fetch abandons the segments behind it. -/
def afterSegment (x : FlightSession σ) (ctl : Controller σ) (guard : Option Nat)
    (segs : List Segment) : SegmentEnd → FlightSession σ
  | .next => { x with ctl, stage := .streaming guard segs }
  | .abandon => { x with ctl, stage := .streaming guard [] }
  | .closed => { x with ctl, stage := .closing guard }

end FlightSession

namespace FlightWorld

/-- `drop(fetch_guard)`. -/
def dropGuard (locks : FetchLocks) : Option Nat → Option FetchLocks
  | none => some locks
  | some n => locks.release n

/-- What a session does next, and what that changes around it. -/
def act (w : FlightWorld σ) (x : FlightSession σ) :
    FlightAction σ → Option (FlightWorld σ × FlightSession σ)
  | .precheck =>
      match x.stage with
      | .ready =>
          if x.options.readCache then
            let initial := gapsOrWhole w.cache x.planKey
            if initial = [] then
              some (w, { x with stage := .streaming none (tile x.fromTs x.toTs initial) })
            else some (w, { x with stage := .wanting })
          else
            some (w, { x with
              stage := .streaming none (tile x.fromTs x.toTs (wholeRange x.fromTs x.toTs)) })
      | _ => none
  | .acquire =>
      match x.stage with
      | .wanting => some ({ w with locks := w.locks.acquire x.planKey },
          { x with stage := .waiting w.locks.calls.length })
      | _ => none
  | .grant =>
      match x.stage with
      | .waiting n => do
          let locks ← w.locks.grant n
          return ({ w with locks }, { x with stage := .holding n })
      | _ => none
  | .replan =>
      match x.stage with
      | .holding n =>
          -- the owner of the slot may have filled the gaps while this session waited
          let regaps := gapsOrWhole w.cache x.planKey
          if regaps = [] then do
            let locks ← w.locks.release n
            return ({ w with locks },
              { x with stage := .streaming none (tile x.fromTs x.toTs regaps) })
          else some (w, { x with stage := .streaming (some n) (tile x.fromTs x.toTs regaps) })
      | _ => none
  | .cover arms =>
      match x.stage with
      | .streaming guard (.covered f t :: segs) => do
          let (e, st, _) ← streamCovered arms f t (x.streamState w.cache)
          return (w, x.afterSegment st.ctl guard segs e)
      | _ => none
  | .fetch run =>
      match x.stage with
      | .streaming guard (.gap f t :: segs) =>
          some ({ w with fetches := w.fetches ++ [x.ctl.historyRequest f t] },
            { x with stage := .fetching guard f t run segs })
      | _ => none
  | .settle arms =>
      match x.stage with
      | .fetching guard f t run segs => do
          let (e, st, _) ← streamGap (run.provider x.ctl.providerId) x.options arms f t
            (x.streamState w.cache)
          return ({ w with cache := st.ctl.cache.getD w.cache },
            x.afterSegment st.ctl guard segs e)
      | _ => none
  | .release =>
      match x.stage with
      -- the slot is held until the last segment is streamed
      | .streaming guard [] => do
          let locks ← dropGuard w.locks guard
          return ({ w with locks }, { x with stage := .finishing })
      | .closing guard => do
          let locks ← dropGuard w.locks guard
          return ({ w with locks }, { x with stage := .closed })
      | _ => none
  | .finish env =>
      match x.stage with
      | .finishing => do
          let ctl ← finishHistorical env x.ctl
          return (w, { x with ctl, stage := .finished })
      | _ => none

/-- Session `i` takes a step. -/
def step (w : FlightWorld σ) (a : Nat × FlightAction σ) : Option (FlightWorld σ) := do
  let x ← w.sessions[a.1]?
  let (w, x) ← w.act x a.2
  return { w with sessions := w.sessions.set a.1 x }

abbrev run (w : FlightWorld σ) (acts : List (Nat × FlightAction σ)) : Option (FlightWorld σ) :=
  ActionSystem.run step w acts

/-! ### What a step can do -/

inductive Act (w : FlightWorld σ) (x : FlightSession σ) (w' : FlightWorld σ)
    (x' : FlightSession σ) : FlightAction σ → Prop
  | covered (hstage : x.stage = .ready) (hgaps : gapsOrWhole w.cache x.planKey = [])
      (hw : w' = w) (hx : x' = { x with stage := .streaming none (tile x.fromTs x.toTs []) }) :
      Act w x w' x' .precheck
  | missing (hstage : x.stage = .ready) (hw : w' = w) (hx : x' = { x with stage := .wanting }) :
      Act w x w' x' .precheck
  | unread (hstage : x.stage = .ready) (hread : x.options.readCache = false) :
      Act w x w' x' .precheck
  | acquire (hstage : x.stage = .wanting)
      (hw : w' = { w with locks := w.locks.acquire x.planKey })
      (hx : x' = { x with stage := .waiting w.locks.calls.length }) : Act w x w' x' .acquire
  | grant {n : Nat} {locks : FetchLocks} (hstage : x.stage = .waiting n)
      (hlocks : w.locks.grant n = some locks) (hw : w' = { w with locks })
      (hx : x' = { x with stage := .holding n }) : Act w x w' x' .grant
  | coalesced {n : Nat} {locks : FetchLocks} (hstage : x.stage = .holding n)
      (hgaps : gapsOrWhole w.cache x.planKey = []) (hlocks : w.locks.release n = some locks)
      (hw : w' = { w with locks })
      (hx : x' = { x with stage := .streaming none (tile x.fromTs x.toTs []) }) :
      Act w x w' x' .replan
  | replan {n : Nat} (hstage : x.stage = .holding n) (hw : w' = w)
      (hx : x' = { x with
        stage := .streaming (some n) (tile x.fromTs x.toTs (gapsOrWhole w.cache x.planKey)) }) :
      Act w x w' x' .replan
  | cover {arms : List Arm} {guard : Option Nat} {f t : Timestamp} {segs : List Segment}
      {e : SegmentEnd} {st : StreamState σ} {report : SegmentReport}
      (hstage : x.stage = .streaming guard (.covered f t :: segs))
      (hrun : streamCovered arms f t (x.streamState w.cache) = some (e, st, report)) (hw : w' = w)
      (hx : x' = x.afterSegment st.ctl guard segs e) : Act w x w' x' (.cover arms)
  | fetch {run : FetchRun} {guard : Option Nat} {f t : Timestamp} {segs : List Segment}
      (hstage : x.stage = .streaming guard (.gap f t :: segs))
      (hw : w' = { w with fetches := w.fetches ++ [x.ctl.historyRequest f t] })
      (hx : x' = { x with stage := .fetching guard f t run segs }) : Act w x w' x' (.fetch run)
  | settle {arms : List Arm} {guard : Option Nat} {f t : Timestamp} {run : FetchRun}
      {segs : List Segment} {e : SegmentEnd} {st : StreamState σ} {report : SegmentReport}
      (hstage : x.stage = .fetching guard f t run segs)
      (hrun : streamGap (run.provider x.ctl.providerId) x.options arms f t
        (x.streamState w.cache) = some (e, st, report))
      (hw : w' = { w with cache := st.ctl.cache.getD w.cache })
      (hx : x' = x.afterSegment st.ctl guard segs e) : Act w x w' x' (.settle arms)
  | release {guard : Option Nat} {locks : FetchLocks} (hstage : x.stage = .streaming guard [])
      (hlocks : dropGuard w.locks guard = some locks) (hw : w' = { w with locks })
      (hx : x' = { x with stage := .finishing }) : Act w x w' x' .release
  | leave {guard : Option Nat} (hstage : x.stage = .closing guard) : Act w x w' x' .release
  | finish {env : HistoricalEnv σ} {ctl : Controller σ} (hstage : x.stage = .finishing)
      (hrun : finishHistorical env x.ctl = some ctl) (hw : w' = w)
      (hx : x' = { x with ctl, stage := .finished }) : Act w x w' x' (.finish env)

/-- Everything a session can do next. -/
theorem act_cases {w w' : FlightWorld σ} {x x' : FlightSession σ} {a : FlightAction σ}
    (h : w.act x a = some (w', x')) : Act w x w' x' a := by
  cases a with
  | precheck =>
      unfold act at h
      dsimp only at h
      split at h
      · rename_i hstage
        split_ifs at h with hread hgaps
        · obtain ⟨rfl, rfl⟩ := Prod.mk.inj (Option.some.inj h)
          rw [hgaps]
          exact .covered hstage hgaps rfl rfl
        · obtain ⟨rfl, rfl⟩ := Prod.mk.inj (Option.some.inj h)
          exact .missing hstage rfl rfl
        · exact .unread hstage (by simpa using hread)
      · cases h
  | acquire =>
      unfold act at h
      dsimp only at h
      split at h
      · rename_i hstage
        obtain ⟨rfl, rfl⟩ := Prod.mk.inj (Option.some.inj h)
        exact .acquire hstage rfl rfl
      · cases h
  | grant =>
      unfold act at h
      dsimp only at h
      split at h
      · rename_i n hstage
        obtain ⟨locks, hlocks, hrest⟩ := Option.bind_eq_some_iff.mp h
        obtain ⟨rfl, rfl⟩ := Prod.mk.inj (Option.some.inj hrest)
        exact .grant hstage hlocks rfl rfl
      · cases h
  | replan =>
      unfold act at h
      dsimp only at h
      split at h
      · rename_i n hstage
        split_ifs at h with hgaps
        · obtain ⟨locks, hlocks, hrest⟩ := Option.bind_eq_some_iff.mp h
          obtain ⟨rfl, rfl⟩ := Prod.mk.inj (Option.some.inj hrest)
          rw [hgaps]
          exact .coalesced hstage hgaps hlocks rfl rfl
        · obtain ⟨rfl, rfl⟩ := Prod.mk.inj (Option.some.inj h)
          exact .replan hstage rfl rfl
      · cases h
  | cover arms =>
      unfold act at h
      dsimp only at h
      split at h
      · rename_i guard f t segs hstage
        obtain ⟨⟨e, st, report⟩, hrun, hrest⟩ := Option.bind_eq_some_iff.mp h
        obtain ⟨rfl, rfl⟩ := Prod.mk.inj (Option.some.inj hrest)
        exact .cover hstage hrun rfl rfl
      · cases h
  | fetch run =>
      unfold act at h
      dsimp only at h
      split at h
      · rename_i guard f t segs hstage
        obtain ⟨rfl, rfl⟩ := Prod.mk.inj (Option.some.inj h)
        exact .fetch hstage rfl rfl
      · cases h
  | settle arms =>
      unfold act at h
      dsimp only at h
      split at h
      · rename_i guard f t run segs hstage
        obtain ⟨⟨e, st, report⟩, hrun, hrest⟩ := Option.bind_eq_some_iff.mp h
        obtain ⟨rfl, rfl⟩ := Prod.mk.inj (Option.some.inj hrest)
        exact .settle hstage hrun rfl rfl
      · cases h
  | release =>
      unfold act at h
      dsimp only at h
      split at h
      · rename_i guard hstage
        obtain ⟨locks, hlocks, hrest⟩ := Option.bind_eq_some_iff.mp h
        obtain ⟨rfl, rfl⟩ := Prod.mk.inj (Option.some.inj hrest)
        exact .release hstage hlocks rfl rfl
      · rename_i guard hstage
        exact .leave hstage
      · cases h
  | finish env =>
      unfold act at h
      dsimp only at h
      split at h
      · rename_i hstage
        obtain ⟨ctl, hrun, hrest⟩ := Option.bind_eq_some_iff.mp h
        obtain ⟨rfl, rfl⟩ := Prod.mk.inj (Option.some.inj hrest)
        exact .finish hstage hrun rfl rfl
      · cases h

theorem step_cases {w w' : FlightWorld σ} {i : Nat} {a : FlightAction σ}
    (h : w.step (i, a) = some w') :
    ∃ x w₁ x', w.sessions[i]? = some x ∧ Act w x w₁ x' a ∧
      w' = { w₁ with sessions := w₁.sessions.set i x' } := by
  obtain ⟨x, hx, hrest⟩ := Option.bind_eq_some_iff.mp h
  obtain ⟨⟨w₁, x'⟩, hact, hrest⟩ := Option.bind_eq_some_iff.mp hrest
  exact ⟨x, w₁, x', hx, act_cases hact, (Option.some.inj hrest).symm⟩

end FlightWorld

end Flight

end Datamancer
