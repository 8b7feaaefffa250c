import Mathlib.Data.List.Basic

/-!
# Datamancer.Daemon.StorePaths

The collision check of the configuration's two embedded stores (`Config::validate` and
`lexically_normalize` of `config.rs`), and what it is for: two paths denote one file where
following their segments from the working directory ends at one place (`resolve`).

A path is a climb above where it begins and the names below that (`Route`). Resolving keeps
both; the normalization keeps the names and, of a relative path, forgets the climb
(`normalize_eq`). So it is right between paths that climb alike, and between others only
where their names rule a collision out (`agrees_iff`).
-/

namespace Datamancer

namespace StorePaths

/-! ### Paths -/

/-- `std::path::Component`, without the prefixes of other systems. -/
inductive Component
  | rootDir
  | curDir
  | parentDir
  | normal (name : String)
  deriving DecidableEq, Repr

def isAbsolute (path : String) : Bool := path.toList.head? = some '/'

/-- The texts between the separators, empty ones too. -/
def segments (path : String) : List String := (path.toList.splitOn '/').map String.ofList

/-- The component of a segment; repeated separators and `.` leave none. -/
def component (segment : String) : Option Component :=
  if segment = "" ∨ segment = "." then none
  else if segment = ".." then some .parentDir
  else some (.normal segment)

/-- `Path::components`: a root, or a `.` that begins the path, and the components after it. -/
def components (path : String) : List Component :=
  (if isAbsolute path then [.rootDir]
    else if (segments path).head? = some "." then [.curDir]
    else []) ++ (segments path).filterMap component

/-- `PathBuf::pop`: the parent, of a path that has one. -/
def pop (out : List Component) : List Component :=
  if out.getLast? = some .rootDir then out else out.dropLast

/-- `PathBuf::push`: a root replaces the path, a name goes below it. -/
def push (out : List Component) : Component → List Component
  | .rootDir => [.rootDir]
  | c => out ++ [c]

/-- The body of the normalization's loop. -/
def absorb (out : List Component) (comp : Component) : List Component :=
  match comp with
  | .curDir => out
  | .parentDir => pop out
  | other => push out other

/-- Lexical normalization; equal paths are paths of equal components. -/
def lexicallyNormalize (path : String) : List Component := (components path).foldl absorb []

/-! ### The check -/

inductive StorageBackend
  | embedded
  | memory
  deriving DecidableEq, Repr

structure StorageConfig where
  backend : StorageBackend
  path : Option String
  deriving DecidableEq, Repr

/-- `DaemonError::ConfigInvalid`, by what its text is made from. -/
inductive ConfigInvalid
  | noPath (sectionName : String)
  | sameFile (cachePath : String)
  | other (text : String)
  deriving DecidableEq, Repr

/-- `Path::join` of a file name. -/
def join (dir fileName : String) : String :=
  if dir = "" ∨ dir.toList.getLast? = some '/' then dir ++ fileName else dir ++ "/" ++ fileName

/-- The explicit path, or the file in the data directory of the platform, if it has one. -/
def embeddedPath (dataDir : Option String) (cfg : StorageConfig) (sectionName fileName : String) :
    Except ConfigInvalid String :=
  match cfg.path, dataDir with
  | some path, _ => .ok path
  | none, some dir => .ok (join dir fileName)
  | none, none => .error (.noPath sectionName)

def cacheDbPath (dataDir : Option String) (cfg : StorageConfig) : Except ConfigInvalid String :=
  embeddedPath dataDir cfg "cache" "cache.db"

def tapDbPath (dataDir : Option String) (cfg : StorageConfig) : Except ConfigInvalid String :=
  embeddedPath dataDir cfg "tap_log" "taplog.db"

/-- `Config::validate`: the check of two embedded stores, and then the rest of it. -/
def validate (dataDir : Option String) (cache tapLog : Option StorageConfig)
    (rest : Except ConfigInvalid Unit) : Except ConfigInvalid Unit :=
  match cache, tapLog with
  | some cacheCfg, some tapCfg =>
      if cacheCfg.backend = .embedded ∧ tapCfg.backend = .embedded then
        match cacheDbPath dataDir cacheCfg, tapDbPath dataDir tapCfg with
        | .error e, _ => .error e
        | .ok _, .error e => .error e
        | .ok cachePath, .ok tapPath =>
            if lexicallyNormalize cachePath = lexicallyNormalize tapPath then
              .error (.sameFile cachePath)
            else rest
      else rest
  | _, _ => rest

/-! ### What a path denotes -/

/-- One segment followed from a directory, the root being its own parent. -/
def follow (dir : List String) (segment : String) : List String :=
  if segment = "" ∨ segment = "." then dir
  else if segment = ".." then dir.dropLast
  else dir ++ [segment]

/-- The place a path leads to, from the root or from the working directory, with no symbolic
link on the way. -/
def resolve (cwd : List String) (path : String) : List String :=
  (segments path).foldl follow (if isAbsolute path then [] else cwd)

def SameFile (cwd : List String) (p q : String) : Prop := resolve cwd p = resolve cwd q

/-- How far a path climbs above where it begins, and the names below that. -/
structure Route where
  climbs : Nat
  names : List String
  deriving DecidableEq, Repr

def Route.step (r : Route) (segment : String) : Route :=
  if segment = "" ∨ segment = "." then r
  else if segment = ".." then
    if r.names = [] then { r with climbs := r.climbs + 1 } else { r with names := r.names.dropLast }
  else { r with names := r.names ++ [segment] }

def route (path : String) : Route := (segments path).foldl Route.step ⟨0, []⟩

/-! ### Normalizing keeps the names -/

/-- What the normalization has of a route: the root, if any, and the names. -/
def Route.normal (root : List Component) (r : Route) : List Component :=
  root ++ r.names.map .normal

theorem pop_normal {root : List Component} (hroot : root = [] ∨ root = [.rootDir])
    (names : List String) :
    pop (root ++ names.map .normal) = root ++ names.dropLast.map .normal := by
  rcases List.eq_nil_or_concat names with rfl | ⟨init, last, rfl⟩
  · rcases hroot with rfl | rfl <;> rfl
  · rw [List.concat_eq_append, List.map_append, ← List.append_assoc, pop]
    simp

/-- A segment does to the route what its component, if any, does to the normalized path. -/
theorem Route.normal_step {root : List Component} (hroot : root = [] ∨ root = [.rootDir])
    (r : Route) (segment : String) :
    ((component segment).toList.foldl absorb (r.normal root)) = (r.step segment).normal root := by
  rw [component, Route.step]
  split_ifs with hstay hup hnames
  · rfl
  · change pop (r.normal root) = _
    rw [Route.normal, pop_normal hroot, hnames]
    simp [Route.normal]
  · change pop (r.normal root) = _
    rw [Route.normal, pop_normal hroot]
    rfl
  · change r.normal root ++ [.normal segment] = _
    simp [Route.normal]

theorem normal_route {root : List Component} (hroot : root = [] ∨ root = [.rootDir])
    (segs : List String) (r : Route) :
    (segs.filterMap component).foldl absorb (r.normal root)
      = (segs.foldl Route.step r).normal root := by
  induction segs generalizing r with
  | nil => rfl
  | cons segment segs ih =>
      rw [List.foldl_cons, ← ih, ← Route.normal_step hroot]
      cases hcomp : component segment with
      | none => rw [List.filterMap_cons_none hcomp]; rfl
      | some c => rw [List.filterMap_cons_some hcomp]; rfl

/-- The root of an absolute path. -/
def rootOf (path : String) : List Component := if isAbsolute path then [.rootDir] else []

theorem rootOf_eq (path : String) : rootOf path = [] ∨ rootOf path = [.rootDir] := by
  rw [rootOf]
  split_ifs
  · exact .inr rfl
  · exact .inl rfl

/-- A path is normalized to its root and the names of its route. -/
theorem normalize_eq (path : String) :
    lexicallyNormalize path = rootOf path ++ (route path).names.map .normal := by
  have hstart : (if isAbsolute path then [Component.rootDir]
      else if (segments path).head? = some "." then [.curDir] else []).foldl absorb []
      = (⟨0, []⟩ : Route).normal (rootOf path) := by
    rw [rootOf]
    split_ifs <;> rfl
  rw [lexicallyNormalize, components, List.foldl_append, hstart, normal_route (rootOf_eq path)]
  rfl

/-! ### Resolving keeps the climb -/

/-- Where a route leads to from a directory. -/
def Route.leadsTo (r : Route) (cwd : List String) : List String :=
  cwd.take (cwd.length - r.climbs) ++ r.names

theorem dropLast_take {α : Type} (l : List α) {n : Nat} (h : n ≤ l.length) :
    (l.take n).dropLast = l.take (n - 1) := by
  rw [List.dropLast_eq_take, List.take_take, List.length_take, Nat.min_eq_left h]
  congr 1
  omega

/-- A segment followed from where the route leads is followed by the route; a climb above the
root ends there for both. -/
theorem Route.follow_leadsTo (cwd : List String) (r : Route) (segment : String) :
    follow (r.leadsTo cwd) segment = (r.step segment).leadsTo cwd := by
  rw [follow, Route.step]
  split_ifs with hstay hup hnames
  · rfl
  · rw [leadsTo, leadsTo, hnames, List.append_nil, List.append_nil,
      dropLast_take cwd (Nat.sub_le _ _), Nat.sub_sub]
  · rw [leadsTo, leadsTo, List.dropLast_append_of_ne_nil hnames]
  · rw [leadsTo, leadsTo, List.append_assoc]

theorem foldl_follow (cwd segs : List String) (r : Route) :
    segs.foldl follow (r.leadsTo cwd) = (segs.foldl Route.step r).leadsTo cwd := by
  induction segs generalizing r with
  | nil => rfl
  | cons segment segs ih => rw [List.foldl_cons, List.foldl_cons, Route.follow_leadsTo, ih]

/-- A path leads where its route does. -/
theorem resolve_eq (cwd : List String) (path : String) :
    resolve cwd path = (route path).leadsTo (if isAbsolute path then [] else cwd) := by
  have hstart : ∀ dir : List String, (⟨0, []⟩ : Route).leadsTo dir = dir := fun dir => by
    rw [Route.leadsTo, Nat.sub_zero, List.take_length, List.append_nil]
  rw [resolve, route, ← foldl_follow, hstart]

theorem resolve_of_absolute {path : String} (h : isAbsolute path = true) (cwd : List String) :
    resolve cwd path = (route path).names := by
  rw [resolve_eq, if_pos h, Route.leadsTo, List.take_nil, List.nil_append]

theorem resolve_of_relative {path : String} (h : isAbsolute path = false) (cwd : List String) :
    resolve cwd path = (route path).leadsTo cwd := by
  rw [resolve_eq, h]
  rfl

/-! ### Agreement -/

/-- A working directory the path does not climb above. -/
def DeepEnough (cwd : List String) (path : String) : Prop :=
  isAbsolute path = false → (route path).climbs ≤ cwd.length

theorem map_normal_injective : Function.Injective (List.map Component.normal) :=
  List.map_injective_iff.mpr fun _ _ h => Component.normal.inj h

/-- Between two absolute paths or two relative ones the normalization compares the names. -/
theorem normalize_eq_iff {p q : String} (h : isAbsolute p = isAbsolute q) :
    lexicallyNormalize p = lexicallyNormalize q ↔ (route p).names = (route q).names := by
  have hroot : rootOf p = rootOf q := by rw [rootOf, rootOf, h]
  rw [normalize_eq, normalize_eq, hroot, List.append_cancel_left_eq]
  exact map_normal_injective.eq_iff

/-- The names of the two routes differ, and those of the one that climbs more are not those of
the other below as many names as it climbs more. -/
def KeptApart (less more : Route) : Prop :=
  less.names ≠ more.names ∧ ∀ above : List String, above.length = more.climbs - less.climbs →
    more.names ≠ above ++ less.names

/-- What the check knows of two paths is enough: the root, a climb alike, or names that no
working directory brings together. -/
def Comparable (p q : String) : Prop :=
  isAbsolute p = true ∨ (route p).climbs = (route q).climbs
    ∨ ((route p).climbs < (route q).climbs ∧ KeptApart (route p) (route q))
    ∨ ((route q).climbs < (route p).climbs ∧ KeptApart (route q) (route p))

/-- From every working directory deep enough the check takes the two for one file exactly where
they are. -/
def Agrees (p q : String) : Prop :=
  ∀ cwd, DeepEnough cwd p → DeepEnough cwd q →
    (lexicallyNormalize p = lexicallyNormalize q ↔ SameFile cwd p q)

theorem Comparable.symm {p q : String} (h : isAbsolute p = isAbsolute q) (hpq : Comparable p q) :
    Comparable q p := by
  rcases hpq with habs | heq | hlt | hgt
  · exact .inl (h ▸ habs)
  · exact .inr (.inl heq.symm)
  · exact .inr (.inr (.inr hlt))
  · exact .inr (.inr (.inl hgt))

theorem Agrees.symm {p q : String} (h : Agrees p q) : Agrees q p := by
  intro cwd hq hp
  have hpq := h cwd hp hq
  rw [eq_comm, hpq]
  exact eq_comm

/-- The directory a deeper climb ends in, and the names passed over from there to where a lesser
one does. -/
theorem leadsTo_split {less more : Route} {cwd : List String} (hlt : less.climbs < more.climbs)
    (hdeep : more.climbs ≤ cwd.length) :
    ∃ above : List String, above.length = more.climbs - less.climbs
      ∧ less.leadsTo cwd = cwd.take (cwd.length - more.climbs) ++ (above ++ less.names) := by
  refine ⟨(cwd.take (cwd.length - less.climbs)).drop (cwd.length - more.climbs), ?_, ?_⟩
  · rw [List.length_drop, List.length_take]
    omega
  · have hsplit := List.take_append_drop (cwd.length - more.climbs)
      (cwd.take (cwd.length - less.climbs))
    rw [List.take_take, Nat.min_eq_left (by omega)] at hsplit
    rw [← List.append_assoc, hsplit, Route.leadsTo]

/-- Of two relative paths the one that climbs less is compared rightly exactly where the names
keep the two apart. -/
theorem agrees_iff_of_lt {p q : String} (hp : isAbsolute p = false) (hq : isAbsolute q = false)
    (hlt : (route p).climbs < (route q).climbs) :
    Agrees p q ↔ KeptApart (route p) (route q) := by
  have hnames := normalize_eq_iff (hp.trans hq.symm)
  constructor
  · intro h
    -- Below a directory of which `above` is what the lesser climb passes over.
    have hbelow : ∀ above : List String, above.length = (route q).climbs - (route p).climbs →
        ((route p).names = (route q).names ↔ above ++ (route p).names = (route q).names) := by
      intro above hover
      have hlen : (above ++ List.replicate (route p).climbs "d").length = (route q).climbs := by
        rw [List.length_append, List.length_replicate]
        omega
      have hcwd := h (above ++ List.replicate (route p).climbs "d") (fun _ => by omega)
        (fun _ => by omega)
      have hless : resolve (above ++ List.replicate (route p).climbs "d") p
          = above ++ (route p).names := by
        rw [resolve_of_relative hp, Route.leadsTo, hlen, ← hover, List.take_left]
      have hmore : resolve (above ++ List.replicate (route p).climbs "d") q = (route q).names := by
        rw [resolve_of_relative hq, Route.leadsTo, hlen, Nat.sub_self, List.take_zero,
          List.nil_append]
      rwa [hnames, SameFile, hless, hmore] at hcwd
    -- With something passed over, the names and the names below it are never both equal.
    have hnever : ∀ above : List String, above.length = (route q).climbs - (route p).climbs →
        (route p).names = (route q).names → above ++ (route p).names ≠ (route q).names := by
      intro above hover heq hover'
      have hlen := congrArg List.length (heq.trans hover'.symm)
      rw [List.length_append] at hlen
      omega
    refine ⟨fun heq => ?_, fun above hover heq => ?_⟩
    · have hover : (List.replicate ((route q).climbs - (route p).climbs) "d").length
          = (route q).climbs - (route p).climbs := List.length_replicate
      exact hnever _ hover heq ((hbelow _ hover).mp heq)
    · exact hnever above hover ((hbelow above hover).mpr heq.symm) heq.symm
  · rintro ⟨hne, hover⟩ cwd - hdeep
    obtain ⟨above, hlen, hless⟩ := leadsTo_split hlt (hdeep hq)
    rw [hnames, SameFile, resolve_of_relative hp, resolve_of_relative hq, hless, Route.leadsTo,
      List.append_cancel_left_eq]
    exact ⟨fun h => absurd h hne, fun h => absurd h.symm (hover above hlen)⟩

/-- Where both climb alike, or not at all from a root, the check is right. -/
theorem agrees_of_level {p q : String} (h : isAbsolute p = isAbsolute q)
    (hlevel : isAbsolute p = true ∨ (route p).climbs = (route q).climbs) : Agrees p q := by
  intro cwd _ _
  rw [normalize_eq_iff h, SameFile]
  by_cases habs : isAbsolute p = true
  · rw [resolve_of_absolute habs, resolve_of_absolute (h ▸ habs)]
  · have hp : isAbsolute p = false := Bool.eq_false_iff.mpr habs
    rw [resolve_of_relative hp, resolve_of_relative (h ▸ hp), Route.leadsTo, Route.leadsTo,
      hlevel.resolve_left habs, List.append_cancel_left_eq]

theorem comparable_iff_of_lt {p q : String} (hp : isAbsolute p = false)
    (hlt : (route p).climbs < (route q).climbs) :
    Comparable p q ↔ KeptApart (route p) (route q) := by
  constructor
  · rintro (habs | heq | ⟨-, hkept⟩ | ⟨hgt, -⟩)
    · rw [hp] at habs
      cases habs
    · omega
    · exact hkept
    · omega
  · intro hkept
    exact .inr (.inr (.inl ⟨hlt, hkept⟩))

/-- The normalization is right about two absolute paths, or two relative ones, if and only if
they are comparable. -/
theorem agrees_iff {p q : String} (h : isAbsolute p = isAbsolute q) :
    Agrees p q ↔ Comparable p q := by
  by_cases hlevel : isAbsolute p = true ∨ (route p).climbs = (route q).climbs
  · exact ⟨fun _ => hlevel.elim .inl fun heq => .inr (.inl heq), fun _ => agrees_of_level h hlevel⟩
  · rw [not_or] at hlevel
    have hp : isAbsolute p = false := Bool.eq_false_iff.mpr hlevel.1
    have hq : isAbsolute q = false := h ▸ hp
    rcases Nat.lt_or_gt_of_ne hlevel.2 with hlt | hgt
    · rw [agrees_iff_of_lt hp hq hlt, comparable_iff_of_lt hp hlt]
    · have hswap : Agrees q p ↔ Comparable q p := by
        rw [agrees_iff_of_lt hq hp hgt, comparable_iff_of_lt hq hgt]
      exact ⟨fun hpq => (hswap.mp hpq.symm).symm h.symm, fun hpq => (hswap.mpr (hpq.symm h)).symm⟩

/-! ### The verdict -/

/-- Whatever else there is to check, the two stores are refused for sharing a file. -/
def Refuses (dataDir : Option String) (cache tapLog : StorageConfig) : Prop :=
  ∀ rest, ∃ path, validate dataDir (some cache) (some tapLog) rest = .error (.sameFile path)

/-- The two sections, embedded, of which the stores' files are `p` and `q`. -/
structure Stores (dataDir : Option String) (cache tapLog : StorageConfig) (p q : String) :
    Prop where
  embedded : cache.backend = .embedded ∧ tapLog.backend = .embedded
  cachePath : cacheDbPath dataDir cache = .ok p
  tapPath : tapDbPath dataDir tapLog = .ok q

theorem refuses_iff {dataDir : Option String} {cache tapLog : StorageConfig} {p q : String}
    (h : Stores dataDir cache tapLog p q) :
    Refuses dataDir cache tapLog ↔ lexicallyNormalize p = lexicallyNormalize q := by
  have hvalidate : ∀ rest, validate dataDir (some cache) (some tapLog) rest
      = if lexicallyNormalize p = lexicallyNormalize q then .error (.sameFile p) else rest := by
    intro rest
    simp only [validate, if_pos h.embedded, h.cachePath, h.tapPath]
  constructor
  · intro hrefuses
    obtain ⟨path, hpath⟩ := hrefuses (.ok ())
    rw [hvalidate] at hpath
    by_contra hne
    rw [if_neg hne] at hpath
    cases hpath
  · intro heq rest
    exact ⟨p, by rw [hvalidate, if_pos heq]⟩

/-- Of two absolute paths, or two relative ones, from every working directory deep enough: the
normalization takes the two for one file exactly where they are, and the configuration of two
stores there is refused exactly where they collide, if and only if the two are comparable. -/
theorem collision_iff (p q : String) (h : isAbsolute p = isAbsolute q) :
    (Agrees p q ↔ Comparable p q)
    ∧ ∀ dataDir cache tapLog, Stores dataDir cache tapLog p q →
      ((∀ cwd, DeepEnough cwd p → DeepEnough cwd q →
        (Refuses dataDir cache tapLog ↔ SameFile cwd p q)) ↔ Comparable p q) := by
  refine ⟨agrees_iff h, fun dataDir cache tapLog hstores => ?_⟩
  rw [← agrees_iff h, refuses_iff hstores]
  rfl

theorem collision_spelled : (Agrees "./cache.db" "a/../cache.db"
      ↔ Comparable "./cache.db" "a/../cache.db")
    ∧ ∀ dataDir cache tapLog, Stores dataDir cache tapLog "./cache.db" "a/../cache.db" →
      ((∀ cwd, DeepEnough cwd "./cache.db" → DeepEnough cwd "a/../cache.db" →
        (Refuses dataDir cache tapLog ↔ SameFile cwd "./cache.db" "a/../cache.db"))
          ↔ Comparable "./cache.db" "a/../cache.db") :=
  collision_iff "./cache.db" "a/../cache.db" (by decide +kernel)

/-- A file of the working directory and one above it are taken for one. -/
theorem above_not_agrees : ¬ Agrees "db" "../db" := by
  intro h
  have hcwd := h ["srv", "datamancer"] (fun _ => by decide +kernel) (fun _ => by decide +kernel)
  exact absurd (hcwd.mp (by decide +kernel)) (by unfold SameFile; decide +kernel)

end StorePaths

end Datamancer
