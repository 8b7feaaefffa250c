import Datamancer.Providers.AlpacaHub
import Datamancer.Session.Controller
import Mathlib.Data.List.Sort
import Mathlib.Data.String.Basic

/-!
# Datamancer.Session.Routing

Which provider a session is opened on (`Datamancer::route`), what the builder requires of the
providers registered (`DatamancerBuilder::build`), and the catalog a consumer picks instruments
from (`instrument_catalog`, `instrument_capabilities`).

A request names the surfaces it needs; a backfilling live session needs both from one provider.
Routing takes the first provider that answers for all of them, or the pinned one, so it depends on
the order of registration exactly where capabilities overlap: where they do not, a pair goes to
the same provider in every order (`route_perm`), and what the catalog lists is what that provider
is then asked for (`catalog_routes`).
-/

namespace Datamancer

namespace Routing

/-! ### Providers and entries -/

section Defs

variable {κ : Type}

/-- One row of a provider's listing. Its capabilities are passed on and not looked into. -/
structure InstrumentEntry (κ : Type) where
  instrument : Instrument
  capabilities : Option κ

def InstrumentEntry.bare (instrument : Instrument) : InstrumentEntry κ := ⟨instrument, none⟩

/-- One row of the catalog. -/
structure InstrumentInfo (κ : Type) where
  instrument : Instrument
  liveKinds : List EventKind
  historyKinds : List EventKind
  capabilities : Option κ

def InstrumentInfo.new (instrument : Instrument) (liveKinds historyKinds : List EventKind) :
    InstrumentInfo κ := ⟨instrument, liveKinds, historyKinds, none⟩

/-- A provider, as routing and the catalog ask it. -/
structure Provider (κ : Type) where
  id : String
  enabled : Bool
  supports : Instrument → EventKind → Surface → Bool
  listInstruments : Except Error (List (InstrumentEntry κ))
  capabilities : Instrument → Except Error (Option (InstrumentEntry κ))

/-- `EventKind::enumerate`. -/
def EventKind.enumerate : List EventKind :=
  [.trade, .quote, .bar .oneSecond, .bar .oneMinute, .bar .fiveMinute, .bar .fifteenMinute,
    .bar .oneHour, .bar .oneDay]

/-- What the builder makes of its registrations. -/
structure DatamancerInner (κ : Type) where
  providers : List (Provider κ)
  /-- `instrument_provider`, in the order of the pins. -/
  pins : List (Instrument × String)
  historicalCache : Bool
  tapLog : Bool

/-- The first id followed by itself in a list. -/
def firstRepeat : List String → Option String
  | a :: b :: rest => if a = b then some a else firstRepeat (b :: rest)
  | _ => none

/-- `DatamancerBuilder::build`: the ids are sorted, and no two neighbours may be the same. -/
def build (dm : DatamancerInner κ) : Except Error (DatamancerInner κ) :=
  match firstRepeat ((dm.providers.map Provider.id).insertionSort (· ≤ ·)) with
  | some a => .error (.config ("duplicate provider id: " ++ a))
  | none => .ok dm

namespace DatamancerInner

variable (dm : DatamancerInner κ) (instrument : Instrument) (kind : EventKind) (surfaces : List Surface)

def servesAll (p : Provider κ) : Bool := surfaces.all fun s => p.supports instrument kind s

/-- The provider an instrument is pinned to: the first pin counts. -/
def pinned : Option String := (dm.pins.find? fun pin => pin.1 = instrument).map Prod.snd

/-- The surface a failed request is told is missing. -/
def missing : Surface :=
  ((surfaces.find? fun s => !dm.providers.any fun p => p.supports instrument kind s).or
    surfaces.head?).getD .live

def route : Except Error (Provider κ) :=
  let candidate :=
    match dm.pinned instrument with
    | some id => dm.providers.find? fun p => p.id = id && servesAll instrument kind surfaces p
    | none => dm.providers.find? (servesAll instrument kind surfaces)
  match candidate with
  | some p => .ok p
  | none => .error (.unsupportedEventKind kind instrument (dm.missing instrument kind surfaces))

/-- The surfaces a scope is routed for. -/
def scopeSurfaces : Scope → List Surface
  | .historical _ _ => [.history]
  | .live (some _) => [.live, .history]
  | .live none => [.live]

/-- The checks of `session` before anything is started, and the provider it starts on. -/
def session (scope : Scope) (options : PersistenceOptions) : Except Error (Provider κ) :=
  if options.usesCache && !dm.historicalCache then .error .persistenceRequired
  else if options.writeTapLog && !dm.tapLog then .error .persistenceRequired
  else dm.route instrument kind (scopeSurfaces scope)

/-- `Datamancer::provider`. -/
def provider (id : String) : Except Error (Provider κ) :=
  match dm.providers.find? fun p => p.id = id with
  | some p => .ok p
  | none => .error (.unknownProvider id)

/-- The catalog row of a listed instrument. -/
def row (p : Provider κ) (entry : InstrumentEntry κ) : InstrumentInfo κ :=
  { (InstrumentInfo.new entry.instrument
      (EventKind.enumerate.filter fun kind => p.supports entry.instrument kind .live)
      (EventKind.enumerate.filter fun kind => p.supports entry.instrument kind .history) : InstrumentInfo κ) with
    capabilities := entry.capabilities }

/-- `instrument_catalog`: of one provider, or of those that are enabled. -/
def instrumentCatalog (filter : Option String) : Except Error (List (InstrumentInfo κ)) := do
  let providers ←
    match filter with
    | some id => (dm.provider id).map fun p => [p]
    | none => .ok (dm.providers.filter Provider.enabled)
  let rows ← providers.mapM fun p => do return (← p.listInstruments).map (row p)
  return rows.flatten

/-- `instrument_capabilities`: one entry for each instrument asked for, or the first error. -/
def instrumentCapabilities (id : String) (instruments : List Instrument) :
    Except Error (List (InstrumentEntry κ)) := do
  let p ← dm.provider id
  instruments.mapM fun instrument => do
    return (← p.capabilities instrument).getD (.bare instrument)

end DatamancerInner

end Defs

/-! ### Registration -/

theorem firstRepeat_eq_none_iff {l : List String} (h : l.Pairwise (· ≤ ·)) :
    firstRepeat l = none ↔ l.Nodup := by
  induction l using firstRepeat.induct with
  | case1 b rest => simp [firstRepeat]
  | case2 a b rest hne ih =>
      rw [firstRepeat, if_neg hne, ih h.of_cons, @List.nodup_cons _ a]
      refine ⟨fun hnodup => ⟨fun hmem => ?_, hnodup⟩, fun hnodup => hnodup.2⟩
      -- an `a` further on would be sorted before `b`
      rw [List.pairwise_cons, List.pairwise_cons] at h
      rcases List.mem_cons.mp hmem with rfl | hmem
      · exact hne rfl
      · exact hne (le_antisymm (h.1 b (by simp)) (h.2.1 a hmem))
  | case3 l hshort =>
      match l, hshort with
      | [], _ => simp [firstRepeat]
      | [a], _ => simp [firstRepeat]
      | a :: b :: rest, hshort => exact absurd rfl (hshort a b rest)

/-- In a sorted list the first repeat is the least of the elements that stand in it twice. -/
theorem firstRepeat_eq_some {l : List String} {a : String} (h : l.Pairwise (· ≤ ·))
    (ha : firstRepeat l = some a) : 1 < l.count a ∧ ∀ b, 1 < l.count b → a ≤ b := by
  induction l using firstRepeat.induct with
  | case1 c rest =>
      obtain rfl : c = a := by simpa [firstRepeat] using ha
      refine ⟨by simp, fun b hb => ?_⟩
      have hmem : b ∈ c :: c :: rest := List.count_pos_iff.mp (by omega)
      rcases List.mem_cons.mp hmem with rfl | hmem
      · exact le_rfl
      · exact (List.pairwise_cons.mp h).1 b hmem
  | case2 c d rest hne ih =>
      rw [firstRepeat, if_neg hne] at ha
      obtain ⟨hcount, hleast⟩ := ih h.of_cons ha
      refine ⟨hcount.trans_le (List.count_le_count_cons ..), fun b hb => ?_⟩
      rw [List.count_cons] at hb
      by_cases hc : c = b
      · -- the head stands nowhere else
        subst hc
        rw [if_pos (by simp)] at hb
        have hmem : c ∈ d :: rest := List.count_pos_iff.mp (by omega)
        rw [List.pairwise_cons, List.pairwise_cons] at h
        rcases List.mem_cons.mp hmem with rfl | hmem
        · exact absurd rfl hne
        · exact absurd (le_antisymm (h.1 d (by simp)) (h.2.1 c hmem)) hne
      · rw [if_neg (by simpa using hc)] at hb
        exact hleast b hb
  | case3 l hshort =>
      match l, hshort with
      | [], _ => simp [firstRepeat] at ha
      | [c], _ => simp [firstRepeat] at ha
      | c :: d :: rest, hshort => exact absurd rfl (hshort c d rest)

section Routed

variable {κ : Type} {dm : DatamancerInner κ} {instrument : Instrument} {kind : EventKind}
  {surfaces : List Surface}

open DatamancerInner

/-- The builder accepts registrations exactly if the ids are distinct, changes nothing of them,
and otherwise names the least id that is registered twice. -/
theorem build_spec (dm : DatamancerInner κ) :
    ((dm.providers.map Provider.id).Nodup → build dm = .ok dm) ∧
    (¬ (dm.providers.map Provider.id).Nodup → ∃ a,
      build dm = .error (.config ("duplicate provider id: " ++ a)) ∧
      1 < (dm.providers.map Provider.id).count a ∧
      ∀ b, 1 < (dm.providers.map Provider.id).count b → a ≤ b) := by
  have hsorted := List.pairwise_insertionSort (· ≤ ·) (dm.providers.map Provider.id)
  have hperm := List.perm_insertionSort (· ≤ ·) (dm.providers.map Provider.id)
  constructor
  · intro hnodup
    rw [build, (firstRepeat_eq_none_iff hsorted).mpr (hperm.nodup_iff.mpr hnodup)]
  · intro hdup
    cases hfirst : firstRepeat ((dm.providers.map Provider.id).insertionSort (· ≤ ·)) with
    | none => exact absurd (hperm.nodup_iff.mp ((firstRepeat_eq_none_iff hsorted).mp hfirst)) hdup
    | some a =>
        obtain ⟨hcount, hleast⟩ := firstRepeat_eq_some hsorted hfirst
        refine ⟨a, by rw [build, hfirst], by rwa [hperm.count_eq] at hcount, fun b hb => ?_⟩
        exact hleast b (by rwa [hperm.count_eq])

/-! ### Routing -/

/-- The provider may be routed to: it is the pinned one, if there is a pin, and answers for every
surface. -/
def Eligible (dm : DatamancerInner κ) (instrument : Instrument) (kind : EventKind)
    (surfaces : List Surface) (p : Provider κ) : Prop :=
  (∀ id, dm.pinned instrument = some id → p.id = id) ∧
    ∀ s ∈ surfaces, p.supports instrument kind s = true

/-- Nobody serves the surface. -/
def Unserved (dm : DatamancerInner κ) (instrument : Instrument) (kind : EventKind) (s : Surface) :
    Prop :=
  ∀ p ∈ dm.providers, p.supports instrument kind s = false

/-- The test the search is made by. -/
def candidate? (dm : DatamancerInner κ) (instrument : Instrument) (kind : EventKind)
    (surfaces : List Surface) (p : Provider κ) : Bool :=
  (dm.pinned instrument).all (fun id => p.id = id) && servesAll instrument kind surfaces p

theorem candidate?_iff {p : Provider κ} :
    candidate? dm instrument kind surfaces p = true ↔ Eligible dm instrument kind surfaces p := by
  simp [candidate?, Eligible, servesAll, Option.all_eq_true]

theorem route_eq (dm : DatamancerInner κ) (instrument : Instrument) (kind : EventKind)
    (surfaces : List Surface) :
    dm.route instrument kind surfaces =
      match dm.providers.find? (candidate? dm instrument kind surfaces) with
      | some p => .ok p
      | none =>
          .error (.unsupportedEventKind kind instrument (dm.missing instrument kind surfaces)) := by
  rw [route]
  cases hpin : dm.pinned instrument with
  | none =>
      have hsame : candidate? dm instrument kind surfaces = servesAll instrument kind surfaces := by
        funext p
        simp [candidate?, hpin]
      rw [hsame]
      rfl
  | some id =>
      have hsame : candidate? dm instrument kind surfaces
          = fun p => p.id = id && servesAll instrument kind surfaces p := by
        funext p
        simp [candidate?, hpin]
      rw [hsame]
      rfl

/-- What a failed request is told: the first surface that nobody serves and, if each is served by
somebody, the first one requested. -/
theorem missing_spec (h : surfaces ≠ []) :
    (∃ before s after, surfaces = before ++ s :: after ∧ Unserved dm instrument kind s ∧
      (∀ t ∈ before, ¬ Unserved dm instrument kind t) ∧
      dm.missing instrument kind surfaces = s) ∨
    ((∀ s ∈ surfaces, ¬ Unserved dm instrument kind s) ∧
      surfaces.head? = some (dm.missing instrument kind surfaces)) := by
  have hunserved : ∀ s, (!dm.providers.any fun p => p.supports instrument kind s) = true ↔
      Unserved dm instrument kind s := by
    intro s
    simp [Unserved]
  rw [missing]
  cases hfind : surfaces.find? fun s => !dm.providers.any fun p => p.supports instrument kind s with
  | none =>
      refine .inr ⟨fun s hs hnone => ?_, ?_⟩
      · exact List.find?_eq_none.mp hfind s hs ((hunserved s).mpr hnone)
      · cases surfaces with
        | nil => exact absurd rfl h
        | cons s rest => rfl
  | some s =>
      obtain ⟨hs, before, after, hsplit, hbefore⟩ := List.find?_eq_some_iff_append.mp hfind
      refine .inl ⟨before, s, after, hsplit, (hunserved s).mp hs, fun t ht hnone => ?_, rfl⟩
      have hnot := hbefore t ht
      rw [(hunserved t).mpr hnone] at hnot
      cases hnot

theorem route_eq_ok_iff {p : Provider κ} :
    dm.route instrument kind surfaces = .ok p ↔
      ∃ before after, dm.providers = before ++ p :: after ∧
        Eligible dm instrument kind surfaces p ∧
        ∀ q ∈ before, ¬ Eligible dm instrument kind surfaces q := by
  have hbefore : ∀ before : List (Provider κ),
      (∀ q ∈ before, (!candidate? dm instrument kind surfaces q) = true) ↔
        ∀ q ∈ before, ¬ Eligible dm instrument kind surfaces q := by
    intro before
    refine forall₂_congr fun q _ => ?_
    rw [← candidate?_iff, Bool.not_eq_true', Bool.not_eq_true]
  have hfind : dm.route instrument kind surfaces = .ok p ↔
      dm.providers.find? (candidate? dm instrument kind surfaces) = some p := by
    rw [route_eq]
    cases dm.providers.find? (candidate? dm instrument kind surfaces) <;> simp
  rw [hfind, List.find?_eq_some_iff_append, candidate?_iff]
  constructor
  · rintro ⟨helig, before, after, hsplit, hfirst⟩
    exact ⟨before, after, hsplit, helig, (hbefore before).mp hfirst⟩
  · rintro ⟨before, after, hsplit, helig, hfirst⟩
    exact ⟨helig, before, after, hsplit, (hbefore before).mpr hfirst⟩

theorem route_eq_error_iff {e : Error} :
    dm.route instrument kind surfaces = .error e ↔
      (∀ p ∈ dm.providers, ¬ Eligible dm instrument kind surfaces p) ∧
        e = .unsupportedEventKind kind instrument (dm.missing instrument kind surfaces) := by
  have hnone : dm.providers.find? (candidate? dm instrument kind surfaces) = none ↔
      ∀ p ∈ dm.providers, ¬ Eligible dm instrument kind surfaces p := by
    rw [List.find?_eq_none]
    exact forall₂_congr fun p _ => not_congr candidate?_iff
  rw [route_eq, ← hnone]
  cases dm.providers.find? (candidate? dm instrument kind surfaces) with
  | none => simp [eq_comm]
  | some p => simp

/-! ### Providers that do not overlap -/

/-- No surface of a pair is claimed by two of the registrations. -/
def NoOverlap (providers : List (Provider κ)) : Prop :=
  providers.Pairwise fun p q => ∀ instrument kind s,
    ¬ (p.supports instrument kind s = true ∧ q.supports instrument kind s = true)

theorem NoOverlap.perm {providers providers' : List (Provider κ)} (h : NoOverlap providers)
    (hperm : providers.Perm providers') : NoOverlap providers' :=
  (hperm.pairwise_iff fun hpq i k s hboth => hpq i k s hboth.symm).mp h

/-- Of providers that do not overlap, one is eligible. -/
theorem eligible_unique {p q : Provider κ} (h : NoOverlap dm.providers) (hne : surfaces ≠ [])
    (hp : p ∈ dm.providers) (hq : q ∈ dm.providers)
    (hpe : Eligible dm instrument kind surfaces p) (hqe : Eligible dm instrument kind surfaces q) :
    p = q := by
  obtain ⟨s, rest, rfl⟩ := List.exists_cons_of_ne_nil hne
  by_contra hdiff
  have : Std.Symm fun p q : Provider κ => ∀ instrument kind s,
      ¬ (p.supports instrument kind s = true ∧ q.supports instrument kind s = true) :=
    ⟨fun _ _ hpq i k s hboth => hpq i k s hboth.symm⟩
  exact List.Pairwise.forall h hp hq hdiff instrument kind s
    ⟨hpe.2 s (by simp), hqe.2 s (by simp)⟩

/-- So a request has the one answer there is, wherever its provider stands. -/
theorem route_of_eligible {p : Provider κ} (h : NoOverlap dm.providers) (hne : surfaces ≠ [])
    (hp : p ∈ dm.providers) (helig : Eligible dm instrument kind surfaces p) :
    dm.route instrument kind surfaces = .ok p := by
  cases hroute : dm.route instrument kind surfaces with
  | error e =>
      exact absurd helig ((route_eq_error_iff.mp hroute).1 p hp)
  | ok q =>
      obtain ⟨before, after, hsplit, hqelig, -⟩ := route_eq_ok_iff.mp hroute
      have hq : q ∈ dm.providers := by simp [hsplit]
      rw [eligible_unique h hne hp hq helig hqelig]

/-- Registered in whatever order, providers that do not overlap are routed to alike, and a failed
request is told the same. -/
theorem route_perm (dm dm' : DatamancerInner κ) (instrument : Instrument) (kind : EventKind)
    (surfaces : List Surface) (h : NoOverlap dm.providers)
    (hperm : dm.providers.Perm dm'.providers) (hpins : dm'.pins = dm.pins) (hne : surfaces ≠ []) :
    dm'.route instrument kind surfaces = dm.route instrument kind surfaces := by
  have hpinned : dm'.pinned instrument = dm.pinned instrument := by simp [pinned, hpins]
  have helig : ∀ {p}, Eligible dm' instrument kind surfaces p ↔
      Eligible dm instrument kind surfaces p := by simp [Eligible, hpinned]
  cases hroute : dm.route instrument kind surfaces with
  | ok p =>
      obtain ⟨before, after, hsplit, hp, -⟩ := route_eq_ok_iff.mp hroute
      exact route_of_eligible (h.perm hperm) hne (hperm.mem_iff.mp (by simp [hsplit]))
        (helig.mpr hp)
  | error e =>
      obtain ⟨hnone, rfl⟩ := route_eq_error_iff.mp hroute
      refine route_eq_error_iff.mpr
        ⟨fun p hp hpelig => hnone p (hperm.mem_iff.mpr hp) (helig.mp hpelig), ?_⟩
      have hmissing : dm'.missing instrument kind surfaces
          = dm.missing instrument kind surfaces := by
        have hany : ∀ s, (dm'.providers.any fun p => p.supports instrument kind s)
            = dm.providers.any fun p => p.supports instrument kind s := fun s =>
          Bool.eq_iff_iff.mpr (by simp [hperm.mem_iff])
        simp only [missing, hany]
      rw [hmissing]

/-- A session is started on a provider that may be routed to. -/
theorem eligible_of_session {p : Provider κ} {scope : Scope} {options : PersistenceOptions}
    (h : dm.session instrument kind scope options = .ok p) :
    p ∈ dm.providers ∧ Eligible dm instrument kind (scopeSurfaces scope) p := by
  rw [session] at h
  split_ifs at h
  obtain ⟨before, after, hsplit, helig, -⟩ := route_eq_ok_iff.mp h
  exact ⟨by simp [hsplit], helig⟩

/-- What is not pinned is accepted where some provider answers for it all. -/
theorem exists_session_iff {scope : Scope} {options : PersistenceOptions}
    (hpinned : dm.pinned instrument = none)
    (hcache : options.usesCache = true → dm.historicalCache = true)
    (htap : options.writeTapLog = true → dm.tapLog = true) :
    (∃ p, dm.session instrument kind scope options = .ok p) ↔
      ∃ p ∈ dm.providers, ∀ s ∈ scopeSurfaces scope, p.supports instrument kind s = true := by
  constructor
  · rintro ⟨p, hp⟩
    obtain ⟨hin, -, hserves⟩ := eligible_of_session hp
    exact ⟨p, hin, hserves⟩
  · rintro ⟨p, hin, hserves⟩
    have hsession : dm.session instrument kind scope options
        = dm.route instrument kind (scopeSurfaces scope) := by
      rw [session, if_neg (by cases h : options.usesCache <;> simp_all),
        if_neg (by cases h : options.writeTapLog <;> simp_all)]
    rw [hsession]
    cases hroute : dm.route instrument kind (scopeSurfaces scope) with
    | ok q => exact ⟨q, rfl⟩
    | error e =>
        refine absurd ⟨fun id hid => ?_, hserves⟩ ((route_eq_error_iff.mp hroute).1 p hin)
        cases hpinned.symm.trans hid

/-- A request goes to the first provider registered that may be routed to, which alone answers for
every surface of it. It fails when there is none, and is told the first surface that nobody serves
or, if each is served by somebody, the first one it asked for. Where providers do not overlap, the
order of the registrations makes no difference. -/
theorem route_spec (dm : DatamancerInner κ) (instrument : Instrument) (kind : EventKind)
    (surfaces : List Surface) (hne : surfaces ≠ []) :
    (∀ p, dm.route instrument kind surfaces = .ok p ↔
      ∃ before after, dm.providers = before ++ p :: after ∧
        Eligible dm instrument kind surfaces p ∧
        ∀ q ∈ before, ¬ Eligible dm instrument kind surfaces q) ∧
    (∀ e, dm.route instrument kind surfaces = .error e →
      (∀ p ∈ dm.providers, ¬ Eligible dm instrument kind surfaces p) ∧
      ∃ s, e = .unsupportedEventKind kind instrument s ∧
        ((∃ before after, surfaces = before ++ s :: after ∧ Unserved dm instrument kind s ∧
            ∀ t ∈ before, ¬ Unserved dm instrument kind t) ∨
          ((∀ t ∈ surfaces, ¬ Unserved dm instrument kind t) ∧ surfaces.head? = some s))) ∧
    (NoOverlap dm.providers → ∀ dm' : DatamancerInner κ, dm.providers.Perm dm'.providers →
      dm'.pins = dm.pins →
      dm'.route instrument kind surfaces = dm.route instrument kind surfaces) := by
  refine ⟨fun p => route_eq_ok_iff, fun e he => ?_, fun h dm' hperm hpins =>
    route_perm dm dm' instrument kind surfaces h hperm hpins hne⟩
  obtain ⟨hnone, rfl⟩ := route_eq_error_iff.mp he
  refine ⟨hnone, _, rfl, (missing_spec hne).imp_left ?_⟩
  rintro ⟨before, s, after, hsplit, hunserved, hbefore, rfl⟩
  exact ⟨before, after, hsplit, hunserved, hbefore⟩

/-! ### The catalog -/

theorem mem_enumerate (kind : EventKind) : kind ∈ EventKind.enumerate := by
  rcases kind with _ | _ | (_ | _ | _ | _ | _ | _) <;> decide

/-- A row lists the kinds the provider answers for, surface by surface. -/
theorem mem_row (p : Provider κ) (entry : InstrumentEntry κ) (kind : EventKind) :
    (kind ∈ (row p entry).liveKinds ↔ p.supports entry.instrument kind .live = true) ∧
    (kind ∈ (row p entry).historyKinds ↔ p.supports entry.instrument kind .history = true) := by
  simp [row, InstrumentInfo.new, mem_enumerate]

/-- Questions asked in turn are all answered, each by its own answer. -/
theorem mapM_ok_iff {α β : Type} {f : α → Except Error β} {l : List α} {rs : List β} :
    l.mapM f = .ok rs ↔ List.Forall₂ (fun a r => f a = .ok r) l rs := by
  induction l generalizing rs with
  | nil =>
      rw [List.mapM_nil, List.forall₂_nil_left_iff]
      exact ⟨fun h => by cases h; rfl, fun h => by rw [h]; rfl⟩
  | cons a l ih =>
      rw [List.mapM_cons, List.forall₂_cons_left_iff]
      constructor
      · intro h
        cases ha : f a with
        | error e => simp [ha, bind, Except.bind] at h
        | ok r =>
            cases hrest : l.mapM f with
            | error e => simp [ha, hrest, bind, Except.bind] at h
            | ok rs' =>
                obtain rfl : r :: rs' = rs := by
                  simpa [ha, hrest, bind, Except.bind, pure, Except.pure] using h
                exact ⟨r, rs', rfl, ih.mp hrest, rfl⟩
      · rintro ⟨r, rs', ha, hrest, rfl⟩
        rw [ha, ih.mpr hrest]
        rfl

/-- Or the first of them that fails is the answer. -/
theorem mapM_error {α β : Type} {f : α → Except Error β} {l : List α} {e : Error}
    (h : l.mapM f = .error e) :
    ∃ before a after, l = before ++ a :: after ∧ f a = .error e ∧
      ∀ b ∈ before, ∃ r, f b = .ok r := by
  induction l with
  | nil => cases h
  | cons a l ih =>
      rw [List.mapM_cons] at h
      cases ha : f a with
      | error e' =>
          obtain rfl : e' = e := by simpa [ha, bind, Except.bind] using h
          exact ⟨[], a, l, rfl, ha, by simp⟩
      | ok r =>
          cases hrest : l.mapM f with
          | ok rs => simp [ha, hrest, bind, Except.bind, pure, Except.pure] at h
          | error e' =>
              obtain rfl : e' = e := by simpa [ha, hrest, bind, Except.bind] using h
              obtain ⟨before, b, after, rfl, hb, hbefore⟩ := ih hrest
              exact ⟨a :: before, b, after, rfl, hb, by simpa [ha] using hbefore⟩

theorem forall₂_mem_left {α β : Type} {R : α → β → Prop} {l : List α} {rs : List β}
    (h : List.Forall₂ R l rs) {a : α} (ha : a ∈ l) : ∃ r ∈ rs, R a r := by
  induction h with
  | nil => cases ha
  | cons hhead _ ih =>
      rcases List.mem_cons.mp ha with rfl | ha
      · exact ⟨_, by simp, hhead⟩
      · obtain ⟨r, hr, hR⟩ := ih ha
        exact ⟨r, by simp [hr], hR⟩

theorem forall₂_mem_right {α β : Type} {R : α → β → Prop} {l : List α} {rs : List β}
    (h : List.Forall₂ R l rs) {r : β} (hr : r ∈ rs) : ∃ a ∈ l, R a r :=
  forall₂_mem_left h.flip hr

/-- The rows of one provider. -/
def rowsOf (p : Provider κ) : Except Error (List (InstrumentInfo κ)) :=
  p.listInstruments.map fun entries => entries.map (row p)

theorem instrumentCatalog_none (dm : DatamancerInner κ) :
    dm.instrumentCatalog none
      = ((dm.providers.filter Provider.enabled).mapM rowsOf).map List.flatten := by
  have hrows : (fun p : Provider κ => do return (← p.listInstruments).map (row p)) = rowsOf := by
    funext p
    cases hp : p.listInstruments <;> simp [rowsOf, hp, bind, Except.bind, Except.map, pure, Except.pure]
  rw [instrumentCatalog]
  simp only [hrows]
  cases hall : (dm.providers.filter Provider.enabled).mapM rowsOf <;>
    simp [hall, bind, Except.bind, Except.map, pure, Except.pure]

/-- The unfiltered catalog is the listings of the enabled providers, row by row: a disabled one is
absent and fails nothing. Where providers do not overlap, an instrument that is not pinned
elsewhere is routed, for each kind and surface its row lists and for no other, to the provider
that listed it. -/
theorem catalog_routes (dm : DatamancerInner κ) :
    (∀ rows, dm.instrumentCatalog none = .ok rows →
      (∀ p ∈ dm.providers, p.enabled = true →
        ∃ entries, p.listInstruments = .ok entries ∧ ∀ entry ∈ entries, row p entry ∈ rows) ∧
      ∀ r ∈ rows, ∃ p ∈ dm.providers, p.enabled = true ∧
        (∃ entries, p.listInstruments = .ok entries ∧ ∃ entry ∈ entries, r = row p entry) ∧
        (NoOverlap dm.providers → (∀ id, dm.pinned r.instrument = some id → p.id = id) → ∀ kind,
          (kind ∈ r.liveKinds ↔ dm.route r.instrument kind [.live] = .ok p) ∧
          (kind ∈ r.historyKinds ↔ dm.route r.instrument kind [.history] = .ok p) ∧
          (kind ∈ r.liveKinds ∧ kind ∈ r.historyKinds ↔
            dm.route r.instrument kind [.live, .history] = .ok p))) ∧
    (∀ e, dm.instrumentCatalog none = .error e →
      ∃ p ∈ dm.providers, p.enabled = true ∧ p.listInstruments = .error e) := by
  rw [instrumentCatalog_none]
  constructor
  · intro rows hrows
    cases hall : (dm.providers.filter Provider.enabled).mapM rowsOf with
    | error e => simp [hall, Except.map] at hrows
    | ok lists =>
        obtain rfl : lists.flatten = rows := by simpa [hall, Except.map] using hrows
        have hanswers := mapM_ok_iff.mp hall
        have hrowsOf : ∀ {p : Provider κ} {list}, rowsOf p = .ok list →
            ∃ entries, p.listInstruments = .ok entries ∧ list = entries.map (row p) := by
          intro p list hlist
          cases hp : p.listInstruments with
          | error e => simp [rowsOf, hp, Except.map] at hlist
          | ok entries =>
              exact ⟨entries, rfl, by simpa [rowsOf, hp, Except.map, eq_comm] using hlist⟩
        constructor
        · intro p hp henabled
          obtain ⟨list, hlist, hp'⟩ := forall₂_mem_left hanswers (List.mem_filter.mpr ⟨hp, henabled⟩)
          obtain ⟨entries, hentries, rfl⟩ := hrowsOf hp'
          refine ⟨entries, hentries, fun entry hentry => List.mem_flatten.mpr ⟨_, hlist, ?_⟩⟩
          exact List.mem_map.mpr ⟨entry, hentry, rfl⟩
        · intro r hr
          obtain ⟨list, hlist, hr⟩ := List.mem_flatten.mp hr
          obtain ⟨p, hp, hp'⟩ := forall₂_mem_right hanswers hlist
          obtain ⟨entries, hentries, rfl⟩ := hrowsOf hp'
          obtain ⟨entry, hentry, rfl⟩ := List.mem_map.mp hr
          obtain ⟨hin, henabled⟩ := List.mem_filter.mp hp
          refine ⟨p, hin, henabled, ⟨entries, hentries, entry, hentry, rfl⟩, fun h hpin kind => ?_⟩
          have hiff : ∀ surfaces, surfaces ≠ [] →
              (dm.route entry.instrument kind surfaces = .ok p ↔
                ∀ s ∈ surfaces, p.supports entry.instrument kind s = true) := by
            intro surfaces hne
            constructor
            · intro hroute
              obtain ⟨_, _, -, helig, -⟩ := route_eq_ok_iff.mp hroute
              exact helig.2
            · intro hserves
              exact route_of_eligible h hne hin ⟨hpin, hserves⟩
          obtain ⟨hlive, hhistory⟩ := mem_row p entry kind
          show (kind ∈ (row p entry).liveKinds ↔ dm.route entry.instrument kind [.live] = .ok p) ∧
            (kind ∈ (row p entry).historyKinds ↔
              dm.route entry.instrument kind [.history] = .ok p) ∧
            (kind ∈ (row p entry).liveKinds ∧ kind ∈ (row p entry).historyKinds ↔
              dm.route entry.instrument kind [.live, .history] = .ok p)
          rw [hlive, hhistory, hiff _ (by simp), hiff _ (by simp), hiff _ (by simp)]
          simp
  · intro e he
    cases hall : (dm.providers.filter Provider.enabled).mapM rowsOf with
    | ok lists => simp [hall, Except.map] at he
    | error e' =>
        obtain rfl : e' = e := by simpa [hall, Except.map] using he
        obtain ⟨before, p, after, hsplit, hp, -⟩ := mapM_error hall
        have hmem : p ∈ dm.providers.filter Provider.enabled := by simp [hsplit]
        obtain ⟨hin, henabled⟩ := List.mem_filter.mp hmem
        refine ⟨p, hin, henabled, ?_⟩
        cases hlist : p.listInstruments with
        | ok entries => simp [rowsOf, hlist, Except.map] at hp
        | error e => simpa [rowsOf, hlist, Except.map] using hp

end Routed

/-! ### The two providers there are -/

section Alpaca

open Alpaca DatamancerInner

variable {κ : Type}

/-- A market's provider, as the routing layer sees it. -/
def marketProvider (m : Market) (enabled : Bool)
    (listInstruments : Except Error (List (InstrumentEntry κ)))
    (capabilities : Instrument → Except Error (Option (InstrumentEntry κ))) : Provider κ :=
  ⟨m.providerId, enabled, m.supports, listInstruments, capabilities⟩

theorem supports_disjoint (instrument : Instrument) (kind : EventKind) (s s' : Surface) :
    ¬ (Market.stock.supports instrument kind s = true ∧
      Market.crypto.supports instrument kind s' = true) := by
  rintro ⟨hstock, hcrypto⟩
  obtain ⟨provider, assetClass, symbol⟩ := instrument
  cases assetClass <;> simp [Market.supports, supports, cryptoSupports] at hstock hcrypto

/-- What stocks are served: history but of one-second bars, and what is streamed. -/
theorem stock_supports_iff {instrument : Instrument} {kind : EventKind} {s : Surface}
    (h : instrument.assetClass ≠ .crypto) :
    Market.stock.supports instrument kind s = true ↔
      match s with
      | .history => kind ≠ .bar .oneSecond
      | .live => Streamed kind := by
  obtain ⟨provider, assetClass, symbol⟩ := instrument
  have hclass : assetClass = .equity ∨ assetClass = .etf := by
    cases assetClass <;> simp at h ⊢
  cases s <;> rcases kind with _ | _ | (_ | _ | _ | _ | _ | _) <;>
    simp [Market.supports, supports, hclass, Streamed]

/-- What crypto is served: what is streamed, and no history. -/
theorem crypto_supports_iff {instrument : Instrument} {kind : EventKind} {s : Surface}
    (h : instrument.assetClass = .crypto) :
    Market.crypto.supports instrument kind s = true ↔ s = .live ∧ Streamed kind := by
  cases s <;> rcases kind with _ | _ | (_ | _ | _ | _ | _ | _) <;>
    simp [Market.supports, cryptoSupports, h, Streamed]

/-- A history that is promised has an endpoint. -/
theorem fetched_of_supports {instrument : Instrument} {kind : EventKind}
    (h : Market.stock.supports instrument kind .history = true) (rest : MarketDataClient)
    (feed : RestFeed) (rx f t : Timestamp) (adjustment : Adjustment) :
    ∀ k i s, (fetchHistoryVia rest feed rx ⟨instrument, kind, f, t, adjustment⟩).joined
      ≠ .err (.unsupportedEventKind k i s) := by
  have hsend : ∀ {R : Type} (endpoint : String) (toEvent : R → MarketEvent) answer k i s,
      (sendAll endpoint toEvent answer).joined ≠ .err (.unsupportedEventKind k i s) := by
    intro R endpoint toEvent answer k i s
    cases answer <;> simp [sendAll]
  intro k i s
  cases kind with
  | trade => exact hsend _ _ _ k i s
  | quote => exact hsend _ _ _ k i s
  | bar interval =>
      cases hframe : timeframe interval with
      | some tf =>
          rw [fetchHistoryVia]
          simp only [hframe]
          exact hsend _ _ _ k i s
      | none =>
          cases interval <;> simp [timeframe] at hframe
          simp [Market.supports, supports] at h

/-- A stream that is promised is one the subscription set has a field for. -/
theorem subscribed_of_streamed {instrument : Instrument} {kind : EventKind} (h : Streamed kind)
    (list : StockSubscriptionList) :
    ∃ symbols, fieldOf (applyPairToList list (instrument, kind) true) kind = some symbols ∧
      instrument.symbol ∈ symbols := by
  have hmem : instrument.symbol
      ∈ (fieldOf (applyPairToList list (instrument, kind) true) kind).getD [] := by
    rw [fieldOf_applyPairToList h]
    exact mem_mutateField_add.mpr (.inr rfl)
  cases hfield : fieldOf (applyPairToList list (instrument, kind) true) kind with
  | none => simp [hfield] at hmem
  | some symbols => exact ⟨symbols, rfl, by simpa [hfield] using hmem⟩

/-- What one of the two answers for. -/
theorem served_iff (instrument : Instrument) (kind : EventKind) (scope : Scope) :
    ((∀ s ∈ scopeSurfaces scope, Market.stock.supports instrument kind s = true) ∨
        ∀ s ∈ scopeSurfaces scope, Market.crypto.supports instrument kind s = true) ↔
      if instrument.assetClass = .crypto then scope = .live none ∧ Streamed kind
      else (Surface.history ∈ scopeSurfaces scope → kind ≠ .bar .oneSecond) ∧
        (Surface.live ∈ scopeSurfaces scope → Streamed kind) := by
  split_ifs with hclass
  · have hno : ∀ s, Market.stock.supports instrument kind s = false := by
      intro s
      simp [Market.supports, supports, hclass]
    simp only [hno, crypto_supports_iff hclass]
    cases scope with
    | historical _ _ => simp [scopeSurfaces]
    | live backfill =>
        cases backfill with
        | none => simp [scopeSurfaces]
        | some _ =>
            simp only [scopeSurfaces, List.forall_mem_cons]
            simp
  · have hno : ∀ s, Market.crypto.supports instrument kind s = false := by
      intro s
      simp [Market.supports, cryptoSupports, hclass]
    simp only [hno, stock_supports_iff hclass]
    cases scope with
    | historical _ _ => simp [scopeSurfaces]
    | live backfill =>
        cases backfill with
        | none => simp [scopeSurfaces]
        | some _ =>
            simp only [scopeSurfaces, List.forall_mem_cons]
            simp [and_comm]

/-- With the two providers registered, in either order and under any pins, a session that is
accepted asks nothing its provider would refuse: the history it needs has an endpoint, and the
stream it needs a field in the subscription set. What is not pinned is accepted by a table, once
the stores its options ask for are configured: crypto is live only and never backfilled, stocks
are anything but one-second history. -/
theorem alpaca_sessions (dm : DatamancerInner κ) {stock crypto : Provider κ}
    (hstock : stock.supports = Market.stock.supports)
    (hcrypto : crypto.supports = Market.crypto.supports)
    (hperm : dm.providers.Perm [stock, crypto]) (instrument : Instrument) (kind : EventKind)
    (scope : Scope) (options : PersistenceOptions) :
    (∀ p, dm.session instrument kind scope options = .ok p →
      (Surface.history ∈ scopeSurfaces scope → p = stock ∧
        ∀ rest feed rx f t adjustment k i s,
          (fetchHistoryVia rest feed rx ⟨instrument, kind, f, t, adjustment⟩).joined
            ≠ .err (.unsupportedEventKind k i s)) ∧
      (Surface.live ∈ scopeSurfaces scope → ∀ list, ∃ symbols,
        fieldOf (applyPairToList list (instrument, kind) true) kind = some symbols ∧
          instrument.symbol ∈ symbols)) ∧
    (dm.pinned instrument = none →
      (options.usesCache = true → dm.historicalCache = true) →
      (options.writeTapLog = true → dm.tapLog = true) →
      ((∃ p, dm.session instrument kind scope options = .ok p) ↔
        if instrument.assetClass = .crypto then scope = .live none ∧ Streamed kind
        else (Surface.history ∈ scopeSurfaces scope → kind ≠ .bar .oneSecond) ∧
          (Surface.live ∈ scopeSurfaces scope → Streamed kind))) := by
  have hmem : ∀ {p}, p ∈ dm.providers ↔ p = stock ∨ p = crypto := by simp [hperm.mem_iff]
  constructor
  · intro p hp
    obtain ⟨hin, -, hserves⟩ := eligible_of_session hp
    constructor
    · intro hhistory
      have hpromise := hserves .history hhistory
      rcases hmem.mp hin with rfl | rfl
      · rw [hstock] at hpromise
        exact ⟨rfl, fun rest feed rx f t adjustment =>
          fetched_of_supports hpromise rest feed rx f t adjustment⟩
      · rw [hcrypto] at hpromise
        simp [Market.supports, cryptoSupports] at hpromise
    · intro hlive list
      have hpromise := hserves .live hlive
      refine subscribed_of_streamed ?_ list
      rcases hmem.mp hin with rfl | rfl
      · rw [hstock] at hpromise
        exact streamed_of_supports hpromise
      · rw [hcrypto] at hpromise
        exact streamed_of_supports hpromise
  · intro hpinned hcache htap
    rw [exists_session_iff hpinned hcache htap, ← served_iff, ← hstock, ← hcrypto]
    simp [hmem]

theorem noOverlap_markets {stock crypto : Provider κ}
    (hstock : stock.supports = Market.stock.supports)
    (hcrypto : crypto.supports = Market.crypto.supports) : NoOverlap [stock, crypto] := by
  rw [NoOverlap, List.pairwise_pair, hstock, hcrypto]
  exact fun instrument kind s => supports_disjoint instrument kind s s

/-- A daemon that lists one stock, and whose crypto provider is parked. -/
def listed : Instrument := ⟨"alpaca", .equity, "ABC"⟩

def parked : DatamancerInner Unit where
  providers :=
    [marketProvider .stock true (.ok [.bare listed]) fun i => .ok (some (.bare i)),
      marketProvider .crypto false (.error .sessionClosed) fun _ => .ok none]
  pins := []
  historicalCache := true
  tapLog := false

/-- A stock is routed past the parked provider, whichever is registered first. -/
theorem route_spec_parked :
    { parked with providers := parked.providers.reverse }.route listed .trade [.live, .history] =
      parked.route listed .trade [.live, .history] ∧
    ∃ p ∈ parked.providers, parked.route listed .trade [.live, .history] = .ok p ∧
      p.enabled = true := by
  obtain ⟨hroute, -, hperm⟩ := route_spec parked listed .trade [.live, .history] (by simp)
  have hback : parked.providers.Perm parked.providers.reverse := (List.reverse_perm _).symm
  refine ⟨hperm (noOverlap_markets rfl rfl) { parked with providers := parked.providers.reverse }
    hback rfl, _, List.mem_cons_self,
    (hroute _).mpr ⟨[], _, rfl, ⟨fun id hid => ?_, ?_⟩, ?_⟩, rfl⟩
  · cases hid
  · decide
  · simp

/-- The parked provider fails nothing, and a listed kind is routed to the provider listing it. -/
theorem catalog_routes_parked :
    ∃ rows, parked.instrumentCatalog none = .ok rows ∧
      (∀ r ∈ rows, ∃ p ∈ parked.providers, p.enabled = true ∧
        (.trade ∈ r.liveKinds ↔ parked.route r.instrument .trade [.live] = .ok p)) ∧
      rows.map InstrumentInfo.instrument = [listed] := by
  refine ⟨_, rfl, fun r hr => ?_, rfl⟩
  obtain ⟨p, hp, henabled, -, hrouted⟩ := ((catalog_routes parked).1 _ rfl).2 r hr
  exact ⟨p, hp, henabled,
    (hrouted (noOverlap_markets rfl rfl) (fun id hid => by cases hid) .trade).1⟩

/-- A stock is backfilled by minute bars, and not by five-minute bars, which are not streamed. -/
theorem alpaca_sessions_parked :
    (∃ p, parked.session listed (.bar .oneMinute) (.live (some ⟨0⟩)) .cached = .ok p) ∧
      ¬ ∃ p, parked.session listed (.bar .fiveMinute) (.live (some ⟨0⟩)) .cached = .ok p := by
  have htable := fun kind => (alpaca_sessions parked rfl rfl (.refl _) listed kind
    (.live (some ⟨0⟩)) .cached).2 rfl (fun _ => rfl) (by decide)
  rw [htable, htable]
  simp [listed, DatamancerInner.scopeSurfaces, Streamed]

end Alpaca

end Routing

end Datamancer
