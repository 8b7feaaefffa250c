import Datamancer.Health.Stats

/-!
# Datamancer.Health.View

The app-facing reduction of a snapshot (`HealthView::from_snapshot`): how one stream's `Liveness`
is read off its entry, and one provider's `ProviderState` off its own.

The judgement a stream gets is stated here over its history (`Verdict`), with the words the enum
is documented with: an outage is a disconnect that no connect follows and no disconnect before it
leads into (`Outage`), and which of the verdicts applies is a matter of precedence. The reduction
of what a session keeps of a history passes the one verdict of the history (`liveness_iff`).
-/

namespace Datamancer

namespace Health

open Connection

/-! ### Snapshot entries -/

/-- Live state of one `(instrument, kind)`. -/
structure AuthoritativeSessionSnapshot where
  instrument : Instrument
  kind : EventKind
  subscriberRefcount : Nat
  seqPosition : Option Seq
  lastSourceTs : Option Timestamp
  lastRxTs : Option Timestamp
  latencyNs : Option Int64
  gapCount : Nat
  recentGaps : List GapSpan
  lastGapRxTs : Option Timestamp
  backfilling : Bool
  connection : StreamConnection
  deriving DecidableEq, Repr

/-- Accounting of one provider. -/
structure ProviderSnapshot where
  provider : String
  connectionState : ConnectionState
  historyFetches : Nat
  historyFetchCoalesced : Nat
  liveStarts : Nat
  subscribes : Nat
  unsubscribes : Nat
  reconnects : Nat
  rateLimitHits : Option Nat
  messages : Nat
  bytes : Option Nat
  gapsEmitted : Nat
  lastError : Option String
  enabled : Bool
  activeSubscriptions : Nat
  deriving DecidableEq, Repr

/-- The two parts of a `SystemSnapshot` that the reduction reads, with the instant it was taken. -/
structure SystemSnapshot where
  capturedAt : Timestamp
  providers : List ProviderSnapshot
  authoritativeSessions : List AuthoritativeSessionSnapshot
  deriving DecidableEq, Repr

/-! ### The reduction -/

inductive ProviderState
  | connected
  | connecting
  | disconnected
  | unauthenticated
  /-- Reserved; nothing produces it. -/
  | companionUnreachable
  | disabled
  | idle
  deriving DecidableEq, Repr

inductive Liveness
  | awaitingData
  | live
  | stale (since : Timestamp)
  | quiet (since : Timestamp)
  | gapped (spans : List GapSpan)
  | backfilling
  deriving DecidableEq, Repr

structure ProviderHealth where
  provider : String
  state : ProviderState
  detail : Option String
  deriving DecidableEq, Repr

structure StreamHealth where
  instrument : Instrument
  kind : EventKind
  liveness : Liveness
  lastEventSourceTs : Option Timestamp
  gapCount : Nat
  /-- `LatencySummary`, whose one field it is. -/
  latency : Option Int64
  deriving DecidableEq, Repr

structure HealthView where
  schemaVersion : Nat
  capturedAt : Timestamp
  providers : List ProviderHealth
  streams : List StreamHealth
  deriving DecidableEq, Repr

/-- `DEFAULT_QUIET_AFTER_NS`. -/
def defaultQuietAfterNs : Int64 := 5000000000

/-- Disabled wins, then a rejection, then nothing being requested, then the connection. -/
def providerState (p : ProviderSnapshot) : ProviderState :=
  if !p.enabled then .disabled
  else if p.connectionState = .unauthenticated then .unauthenticated
  else if p.activeSubscriptions = 0 then .idle
  else
    match p.connectionState with
    | .connected => .connected
    | .disconnected => .disconnected
    | .unauthenticated => .unauthenticated
    | .unknown => .connecting

/-- When the disconnect a stream is down on was received, unless it was deliberate. -/
def faultSince (s : AuthoritativeSessionSnapshot) : Option Timestamp :=
  match s.connection with
  | .down _ .disabled | .pending | .up _ => none
  | .down since _ => some since

/-- `captured_at.0 - rx.0`. -/
def age (capturedAt rx : Timestamp) : Int64 := capturedAt.nanos - rx.nanos

def liveness (s : AuthoritativeSessionSnapshot) (capturedAt : Timestamp) (quietAfterNs : Int64) :
    Liveness :=
  if s.backfilling then .backfilling
  else
    match faultSince s with
    | some since => .stale since
    | none =>
        match s.lastRxTs with
        | none => .awaitingData
        | some rx =>
            if quietAfterNs < age capturedAt rx then .quiet rx
            else
              match s.lastGapRxTs with
              | some gapRx =>
                  if age capturedAt gapRx ≤ quietAfterNs then .gapped s.recentGaps else .live
              | none => .live

/-- One entry of the view's streams. -/
def streamHealth (capturedAt : Timestamp) (quietAfterNs : Int64)
    (s : AuthoritativeSessionSnapshot) : StreamHealth :=
  ⟨s.instrument, s.kind, liveness s capturedAt quietAfterNs, s.lastSourceTs, s.gapCount,
    s.latencyNs⟩

def providerHealth (p : ProviderSnapshot) : ProviderHealth :=
  ⟨p.provider, providerState p, p.lastError⟩

def HealthView.fromSnapshot (snapshot : SystemSnapshot) (quietAfterNs : Int64) : HealthView where
  schemaVersion := 3
  capturedAt := snapshot.capturedAt
  providers := snapshot.providers.map providerHealth
  streams :=
    snapshot.authoritativeSessions.map (streamHealth snapshot.capturedAt quietAfterNs)

/-- The entry of a session, from what it keeps. -/
def AuthoritativeSessionSnapshot.ofStats (instrument : Instrument) (kind : EventKind)
    (stats : LiveStats) : AuthoritativeSessionSnapshot where
  instrument := instrument
  kind := kind
  subscriberRefcount := min stats.subscribers (2 ^ 32 - 1)
  seqPosition := stats.lastSeq
  lastSourceTs := stats.lastTs.map Prod.fst
  lastRxTs := stats.lastTs.map Prod.snd
  latencyNs := stats.lastTs.map fun ts => ts.2.nanos - ts.1.nanos
  gapCount := stats.gapCount
  recentGaps := stats.recentGaps.buf
  lastGapRxTs := stats.lastGapRxTs
  backfilling := stats.backfilling
  connection := stats.connection

/-! ### Outages -/

/-- A disconnect, with its cause. -/
def disconnectCause : ControlKind → Option DisconnectCause
  | .providerDisconnected _ _ cause => some cause
  | _ => none

/-- The causes of the disconnects among controls. -/
def causes (cs : List Control) : List DisconnectCause := cs.filterMap fun c => disconnectCause c.kind

/-- Every disconnect has been followed by a connect. -/
def Recovered (cs : List Control) : Prop :=
  ∀ before c after, cs = before ++ c :: after → (disconnectCause c.kind).isSome = true →
    ∃ d ∈ after, isConnect d.kind = true

/-- The controls leave their substream in an outage that began when a disconnect was received at
`since`, whose latest disconnect is classified as `cause`. -/
def Outage (cs : List Control) (since : Timestamp) (cause : DisconnectCause) : Prop :=
  ∃ before d after, cs = before ++ d :: after ∧ Recovered before ∧
    (disconnectCause d.kind).isSome = true ∧ d.rxTs = since ∧
    (∀ c ∈ after, isConnect c.kind = false) ∧ (causes (d :: after)).getLast? = some cause

theorem not_connect_of_disconnect {kind : ControlKind}
    (h : (disconnectCause kind).isSome = true) : isConnect kind = false := by
  cases kind <;> first | rfl | simp [disconnectCause] at h

/-- What a control does to a phase, by what it is. -/
theorem recordConnection_connect (slot : StreamConnection) {c : Control}
    (h : isConnect c.kind = true) :
    ∃ since, (recordConnection slot c).1 = .up since := by
  obtain ⟨_, _, _, kind⟩ := c
  cases kind <;> cases slot <;> first | exact ⟨_, rfl⟩ | simp [isConnect] at h

theorem recordConnection_disconnect {slot : StreamConnection} {c : Control} {cause : DisconnectCause}
    (h : disconnectCause c.kind = some cause) :
    (recordConnection slot c).1
      = match slot with
        | .down since _ => .down since cause
        | _ => .down c.rxTs cause := by
  obtain ⟨_, _, _, kind⟩ := c
  cases kind <;> simp only [disconnectCause, Option.some.injEq, reduceCtorEq] at h
  subst h
  cases slot <;> rfl

theorem recordConnection_other {slot : StreamConnection} {c : Control}
    (hcon : isConnect c.kind = false) (hdis : disconnectCause c.kind = none) :
    (recordConnection slot c).1 = slot := by
  obtain ⟨_, _, _, kind⟩ := c
  cases kind with
  | providerConnected _ => simp [isConnect] at hcon
  | providerDisconnected _ _ _ => simp [disconnectCause] at hdis
  | _ => cases slot <;> rfl

theorem causes_append (cs ds : List Control) : causes (cs ++ ds) = causes cs ++ causes ds :=
  List.filterMap_append

theorem causes_disconnect {c : Control} {cause : DisconnectCause}
    (h : disconnectCause c.kind = some cause) (cs : List Control) :
    causes (c :: cs) = cause :: causes cs := by
  simp [causes, h]

/-- A disconnect that the controls after it do not undo leaves the history unrecovered. -/
theorem Outage.not_recovered {cs : List Control} {since : Timestamp} {cause : DisconnectCause}
    (h : Outage cs since cause) : ¬ Recovered cs := by
  intro hrec
  obtain ⟨before, d, after, rfl, -, hd, -, hafter, -⟩ := h
  obtain ⟨c, hc, hcon⟩ := hrec before d after rfl hd
  rw [hafter c hc] at hcon
  cases hcon

/-- A connect ends any outage. -/
theorem recovered_of_connect {cs : List Control} {c : Control} (h : isConnect c.kind = true) :
    Recovered (cs ++ [c]) := by
  intro before d after hsplit hd
  rcases List.eq_nil_or_concat after with rfl | ⟨after', e, rfl⟩
  · obtain ⟨-, hlast⟩ := List.append_inj' hsplit rfl
    obtain rfl : c = d := by simpa using hlast
    rw [not_connect_of_disconnect hd] at h
    cases h
  · refine ⟨e, by simp, ?_⟩
    have hlast := congrArg List.getLast? hsplit
    simp only [List.getLast?_concat, ← List.cons_append, ← List.append_assoc,
      List.concat_eq_append, Option.some.injEq] at hlast
    rwa [← hlast]

/-- What is no connect and no disconnect leaves a recovered history recovered. -/
theorem Recovered.snoc {cs : List Control} {c : Control} (h : Recovered cs)
    (hdis : disconnectCause c.kind = none) : Recovered (cs ++ [c]) := by
  intro before d after hsplit hd
  rcases List.eq_nil_or_concat after with rfl | ⟨after', e, rfl⟩
  · obtain ⟨-, hlast⟩ := List.append_inj' hsplit rfl
    obtain rfl : c = d := by simpa using hlast
    rw [hdis] at hd
    cases hd
  · rw [List.concat_eq_append, ← List.cons_append, ← List.append_assoc] at hsplit
    obtain ⟨hinit, -⟩ := List.append_inj' hsplit rfl
    obtain ⟨k, hk, hcon⟩ := h before d after' hinit hd
    exact ⟨k, by simp [hk], hcon⟩

/-- An outage goes on while no connect is received; its cause is the newest. -/
theorem Outage.snoc {cs : List Control} {since : Timestamp} {cause : DisconnectCause} {c : Control}
    (h : Outage cs since cause) (hcon : isConnect c.kind = false) :
    Outage (cs ++ [c]) since ((disconnectCause c.kind).getD cause) := by
  obtain ⟨before, d, after, rfl, hrec, hd, hrx, hafter, hcause⟩ := h
  refine ⟨before, d, after ++ [c], by simp, hrec, hd, hrx, ?_, ?_⟩
  · intro k hk
    rcases List.mem_append.mp hk with hk | hk
    · exact hafter k hk
    · rwa [List.mem_singleton.mp hk]
  · rw [← List.cons_append, causes_append]
    cases hc : disconnectCause c.kind with
    | none => simpa [causes, hc] using hcause
    | some cause' => simp [causes, hc]

/-- A disconnect of a recovered history begins one. -/
theorem Recovered.outage {cs : List Control} {c : Control} {cause : DisconnectCause}
    (h : Recovered cs) (hdis : disconnectCause c.kind = some cause) :
    Outage (cs ++ [c]) c.rxTs cause :=
  ⟨cs, c, [], rfl, h, by simp [hdis], rfl, by simp, by simp [causes, hdis]⟩

/-- The phase is down in an outage, since when it began and on its newest cause, and in no other
history. -/
theorem foldPhase_cases (cs : List Control) :
    (∃ since cause, foldPhase cs = .down since cause ∧ Outage cs since cause) ∨
    ((foldPhase cs).isDown = false ∧ Recovered cs) := by
  induction cs using List.reverseRecOn with
  | nil => exact .inr ⟨rfl, fun before c after h _ => by simp at h⟩
  | append_singleton cs c ih =>
      rw [foldPhase_append]
      cases hcon : isConnect c.kind with
      | true =>
          obtain ⟨since, hup⟩ := recordConnection_connect (foldPhase cs) hcon
          exact .inr ⟨by rw [hup]; rfl, recovered_of_connect hcon⟩
      | false =>
          cases hdis : disconnectCause c.kind with
          | none =>
              rw [recordConnection_other hcon hdis]
              rcases ih with ⟨since, cause, hdown, hout⟩ | ⟨hnot, hrec⟩
              · exact .inl ⟨since, cause, hdown, by simpa [hdis] using hout.snoc hcon⟩
              · exact .inr ⟨hnot, hrec.snoc hdis⟩
          | some cause =>
              refine .inl ?_
              rw [recordConnection_disconnect hdis]
              rcases ih with ⟨since, cause', hdown, hout⟩ | ⟨hnot, hrec⟩
              · exact ⟨since, cause, by rw [hdown], by simpa [hdis] using hout.snoc hcon⟩
              · refine ⟨c.rxTs, cause, ?_, hrec.outage hdis⟩
                cases hslot : foldPhase cs with
                | down since cause' => simp [hslot, StreamConnection.isDown] at hnot
                | _ => rfl

/-- A phase that is down stays so while no connect is received, on its newest cause. -/
theorem foldl_down {since : Timestamp} {cause : DisconnectCause} {cs : List Control}
    (h : ∀ c ∈ cs, isConnect c.kind = false) :
    cs.foldl (fun slot c => (recordConnection slot c).1) (.down since cause)
      = .down since ((causes cs).getLast?.getD cause) := by
  induction cs generalizing cause with
  | nil => rfl
  | cons c cs ih =>
      have htail : ∀ d ∈ cs, isConnect d.kind = false := fun d hd => h d (by simp [hd])
      rw [List.foldl_cons]
      cases hdis : disconnectCause c.kind with
      | none =>
          rw [recordConnection_other (h c (by simp)) hdis, ih htail]
          simp [causes, hdis]
      | some cause' =>
          rw [recordConnection_disconnect hdis, ih htail, causes_disconnect hdis,
            List.getLast?_cons]
          rfl

theorem foldPhase_down_iff (cs : List Control) (since : Timestamp) (cause : DisconnectCause) :
    foldPhase cs = .down since cause ↔ Outage cs since cause := by
  constructor
  · intro hdown
    rcases foldPhase_cases cs with ⟨since', cause', hdown', hout⟩ | ⟨hnot, -⟩
    · obtain ⟨rfl, rfl⟩ : since' = since ∧ cause' = cause := by simpa [hdown'] using hdown
      exact hout
    · simp [hdown, StreamConnection.isDown] at hnot
  · rintro ⟨before, d, after, rfl, hrec, hd, rfl, hafter, hcause⟩
    obtain ⟨cause', hcause'⟩ := Option.isSome_iff_exists.mp hd
    have hbefore : (foldPhase before).isDown = false := by
      rcases foldPhase_cases before with ⟨since', cause'', -, hout⟩ | ⟨hnot, -⟩
      · exact absurd hrec hout.not_recovered
      · exact hnot
    have hstart : foldPhase (before ++ [d]) = .down d.rxTs cause' := by
      rw [foldPhase_append, recordConnection_disconnect hcause']
      cases hslot : foldPhase before with
      | down _ _ => simp [hslot, StreamConnection.isDown] at hbefore
      | _ => rfl
    rw [causes_disconnect hcause', List.getLast?_cons, Option.some.injEq] at hcause
    have hsplit : before ++ d :: after = (before ++ [d]) ++ after := by simp
    rw [hsplit, foldPhase, List.foldl_append, ← foldPhase, hstart, foldl_down hafter, hcause]

/-- The controls leave their substream connected: some connect has been received, and no
disconnect since. -/
def Reached (cs : List Control) : Prop := Recovered cs ∧ ∃ c ∈ cs, isConnect c.kind = true

/-- No connect and no disconnect has been received. -/
def Untouched (cs : List Control) : Prop := ∀ c ∈ cs, isConnection c.kind = false

theorem isConnection_iff (kind : ControlKind) :
    isConnection kind = true ↔ isConnect kind = true ∨ (disconnectCause kind).isSome = true := by
  cases kind <;> simp [isConnection, isConnect, disconnectCause]

/-- A phase is pending until some connect or disconnect is received. -/
theorem foldPhase_pending_iff (cs : List Control) : foldPhase cs = .pending ↔ Untouched cs := by
  induction cs using List.reverseRecOn with
  | nil => exact ⟨fun _ c hc => by simp at hc, fun _ => rfl⟩
  | append_singleton cs c ih =>
      have hsnoc : Untouched (cs ++ [c]) ↔ Untouched cs ∧ isConnection c.kind = false := by
        simp [Untouched, or_imp, forall_and]
      rw [foldPhase_append, hsnoc, ← ih]
      cases hcon : isConnect c.kind with
      | true =>
          obtain ⟨since, hup⟩ := recordConnection_connect (foldPhase cs) hcon
          simp [hup, (isConnection_iff c.kind).mpr (.inl hcon)]
      | false =>
          cases hdis : disconnectCause c.kind with
          | none =>
              have hneither : isConnection c.kind = false := by
                rw [Bool.eq_false_iff, ne_eq, isConnection_iff, hcon, hdis]
                simp
              rw [recordConnection_other hcon hdis]
              simp [hneither]
          | some cause =>
              rw [recordConnection_disconnect hdis]
              have hsome : isConnection c.kind = true :=
                (isConnection_iff c.kind).mpr (.inr (by simp [hdis]))
              cases foldPhase cs <;> simp [hsome]

theorem foldPhase_up_iff (cs : List Control) : (foldPhase cs).isUp = true ↔ Reached cs := by
  have hphase : (foldPhase cs).isUp = true
      ↔ (foldPhase cs).isDown = false ∧ foldPhase cs ≠ .pending := by
    cases foldPhase cs <;> simp [StreamConnection.isUp, StreamConnection.isDown]
  have hdown : (foldPhase cs).isDown = false ↔ Recovered cs := by
    rcases foldPhase_cases cs with ⟨since, cause, hdown, hout⟩ | ⟨hnot, hrec⟩
    · simp [hdown, StreamConnection.isDown, hout.not_recovered]
    · simp [hnot, hrec]
  rw [hphase, hdown, ne_eq, foldPhase_pending_iff, Reached]
  refine and_congr_right fun hrec => ⟨fun hsome => ?_, ?_⟩
  · rw [Untouched] at hsome
    push Not at hsome
    obtain ⟨c, hc, hconn⟩ := hsome
    rcases (isConnection_iff c.kind).mp (by simpa using hconn) with hcon | hdis
    · exact ⟨c, hc, hcon⟩
    · obtain ⟨before, after, rfl⟩ := List.append_of_mem hc
      obtain ⟨d, hd, hcon⟩ := hrec before c after rfl hdis
      exact ⟨d, by simp [hd], hcon⟩
  · rintro ⟨c, hc, hcon⟩ hnone
    have hneither := hnone c hc
    rw [(isConnection_iff c.kind).mpr (.inl hcon)] at hneither
    cases hneither

/-! ### The verdict of a history -/

/-- A backfill has begun and not ended. -/
def InBackfill (ts : List Touch) : Prop := (ts.filterMap Touch.backfillMark).getLast? = some true

/-- The controls received leave an outage that no one asked for. -/
def FaultSince (ts : List Touch) (since : Timestamp) : Prop :=
  ∃ cause, cause ≠ .disabled ∧ Outage (controls ts) since cause

/-- What a stream of a history is judged at an instant, in the order of precedence. -/
inductive Verdict (ts : List Touch) (capturedAt : Timestamp) (quietAfterNs : Int64) :
    Liveness → Prop
  | backfilling (hback : InBackfill ts) : Verdict ts capturedAt quietAfterNs .backfilling
  | stale {since : Timestamp} (hback : ¬ InBackfill ts) (hfault : FaultSince ts since) :
      Verdict ts capturedAt quietAfterNs (.stale since)
  | awaitingData (hback : ¬ InBackfill ts) (hfault : ∀ since, ¬ FaultSince ts since)
      (hdata : dataStamps ts = []) : Verdict ts capturedAt quietAfterNs .awaitingData
  /-- The boundary is strict. -/
  | quiet {source rx : Timestamp} (hback : ¬ InBackfill ts)
      (hfault : ∀ since, ¬ FaultSince ts since)
      (hdata : (dataStamps ts).getLast? = some (source, rx))
      (hage : quietAfterNs < age capturedAt rx) : Verdict ts capturedAt quietAfterNs (.quiet rx)
  | gapped {source rx gapRx : Timestamp} {span : GapSpan} (hback : ¬ InBackfill ts)
      (hfault : ∀ since, ¬ FaultSince ts since)
      (hdata : (dataStamps ts).getLast? = some (source, rx))
      (hage : age capturedAt rx ≤ quietAfterNs)
      (hgap : (gaps ts).getLast? = some (span, gapRx)) (hgapAge : age capturedAt gapRx ≤ quietAfterNs) :
      Verdict ts capturedAt quietAfterNs
        (.gapped (((gaps ts).map Prod.fst).drop ((gaps ts).length - recentGapsCap)))
  | live {source rx : Timestamp} (hback : ¬ InBackfill ts)
      (hfault : ∀ since, ¬ FaultSince ts since)
      (hdata : (dataStamps ts).getLast? = some (source, rx))
      (hage : age capturedAt rx ≤ quietAfterNs)
      (hgap : ∀ span gapRx, (gaps ts).getLast? = some (span, gapRx) →
        quietAfterNs < age capturedAt gapRx) : Verdict ts capturedAt quietAfterNs .live

section Verdict

variable {instrument : Instrument} {kind : EventKind} {ts : List Touch} {capturedAt : Timestamp}
  {quietAfterNs : Int64}

theorem backfilling_ofStats :
    (AuthoritativeSessionSnapshot.ofStats instrument kind (.of ts)).backfilling = true
      ↔ InBackfill ts := by
  show (LiveStats.of ts).backfilling = true ↔ _
  rw [(LiveStats.kept_of ts).backfilling, InBackfill]
  cases (ts.filterMap Touch.backfillMark).getLast? <;> simp

theorem faultSince_ofStats (since : Timestamp) :
    faultSince (.ofStats instrument kind (.of ts)) = some since ↔ FaultSince ts since := by
  have hconn : (AuthoritativeSessionSnapshot.ofStats instrument kind (.of ts)).connection
      = foldPhase (controls ts) := (LiveStats.kept_of ts).connection
  simp only [faultSince, hconn, FaultSince, ← foldPhase_down_iff]
  constructor
  · intro h
    split at h
    case h_4 hcause hdown =>
      obtain rfl := Option.some.inj h
      exact ⟨_, hcause, hdown⟩
    all_goals cases h
  · rintro ⟨cause, hcause, hdown⟩
    rw [hdown]
    cases cause <;> first | rfl | exact absurd rfl hcause

theorem faultSince_ofStats_none :
    faultSince (.ofStats instrument kind (.of ts)) = none ↔ ∀ since, ¬ FaultSince ts since := by
  rw [Option.eq_none_iff_forall_ne_some]
  exact forall_congr' fun since => not_congr (faultSince_ofStats since)

theorem lastRxTs_ofStats :
    (AuthoritativeSessionSnapshot.ofStats instrument kind (.of ts)).lastRxTs
      = (dataStamps ts).getLast?.map Prod.snd := by
  show (LiveStats.of ts).lastTs.map Prod.snd = _
  rw [(LiveStats.kept_of ts).lastTs]

theorem lastGapRxTs_ofStats :
    (AuthoritativeSessionSnapshot.ofStats instrument kind (.of ts)).lastGapRxTs
      = (gaps ts).getLast?.map Prod.snd := (LiveStats.kept_of ts).lastGapRxTs

/-- Some verdict applies: the one the reduction passes. -/
theorem verdict_liveness :
    Verdict ts capturedAt quietAfterNs
      (liveness (.ofStats instrument kind (.of ts)) capturedAt quietAfterNs) := by
  rw [liveness]
  split_ifs with hback
  · exact .backfilling (backfilling_ofStats.mp hback)
  have hnot := mt backfilling_ofStats.mpr hback
  split
  case h_1 since hfault => exact .stale hnot ((faultSince_ofStats since).mp hfault)
  case h_2 hfault =>
    have hsound := faultSince_ofStats_none.mp hfault
    rw [lastRxTs_ofStats, lastGapRxTs_ofStats]
    cases hdata : (dataStamps ts).getLast? with
    | none => exact .awaitingData hnot hsound (List.getLast?_eq_none_iff.mp hdata)
    | some stamps =>
        obtain ⟨source, rx⟩ := stamps
        show Verdict _ _ _ (if quietAfterNs < age capturedAt rx then _ else _)
        split_ifs with hage
        · exact .quiet hnot hsound hdata hage
        have hfresh := Int64.not_lt.mp hage
        cases hgap : (gaps ts).getLast? with
        | none => exact .live hnot hsound hdata hfresh (by simp [hgap])
        | some gap =>
            obtain ⟨span, gapRx⟩ := gap
            show Verdict _ _ _ (if age capturedAt gapRx ≤ quietAfterNs then
              .gapped (LiveStats.of ts).recentGaps.buf else .live)
            split_ifs with hrecent
            · rw [LiveStats.recentGaps_of]
              exact .gapped hnot hsound hdata hfresh hgap hrecent
            · refine .live hnot hsound hdata hfresh fun span' gapRx' h => ?_
              obtain ⟨rfl, rfl⟩ : span = span' ∧ gapRx = gapRx' := by simpa [hgap] using h
              exact Int64.not_le.mp hrecent

/-- And no other does. -/
theorem liveness_of_verdict {l : Liveness} (h : Verdict ts capturedAt quietAfterNs l) :
    liveness (.ofStats instrument kind (.of ts)) capturedAt quietAfterNs = l := by
  cases h with
  | backfilling hback => rw [liveness, if_pos (backfilling_ofStats.mpr hback)]
  | stale hback hfault =>
      rw [liveness, if_neg (mt backfilling_ofStats.mp hback), (faultSince_ofStats _).mpr hfault]
  | awaitingData hback hfault hdata =>
      rw [liveness, if_neg (mt backfilling_ofStats.mp hback), faultSince_ofStats_none.mpr hfault,
        lastRxTs_ofStats, hdata]
      rfl
  | quiet hback hfault hdata hage =>
      rw [liveness, if_neg (mt backfilling_ofStats.mp hback), faultSince_ofStats_none.mpr hfault,
        lastRxTs_ofStats, hdata]
      exact if_pos hage
  | gapped hback hfault hdata hage hgap hgapAge =>
      rw [liveness, if_neg (mt backfilling_ofStats.mp hback), faultSince_ofStats_none.mpr hfault,
        lastRxTs_ofStats, hdata, lastGapRxTs_ofStats, hgap]
      refine (if_neg (Int64.not_lt.mpr hage)).trans ((if_pos hgapAge).trans ?_)
      exact congrArg Liveness.gapped (LiveStats.recentGaps_of ts)
  | live hback hfault hdata hage hgap =>
      rw [liveness, if_neg (mt backfilling_ofStats.mp hback), faultSince_ofStats_none.mpr hfault,
        lastRxTs_ofStats, hdata, lastGapRxTs_ofStats]
      refine (if_neg (Int64.not_lt.mpr hage)).trans ?_
      cases hlast : (gaps ts).getLast? with
      | none => rfl
      | some gap => exact if_neg (Int64.not_le.mpr (hgap gap.1 gap.2 hlast))

/-- What the reduction of a history's stats passes is the verdict of the history. -/
theorem liveness_iff {l : Liveness} :
    liveness (.ofStats instrument kind (.of ts)) capturedAt quietAfterNs = l
      ↔ Verdict ts capturedAt quietAfterNs l :=
  ⟨fun h => h ▸ verdict_liveness, liveness_of_verdict⟩

end Verdict

end Health

end Datamancer
