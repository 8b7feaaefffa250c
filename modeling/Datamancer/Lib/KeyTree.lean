import Mathlib.Data.List.Destutter
import Mathlib.Data.List.Sort
import Mathlib.Data.List.TakeWhile
import Mathlib.Data.String.Basic

/-!
# Datamancer.Lib.KeyTree

Values built of scalars and objects, the way a settings file is read, and the difference of two
of them as the list of the dotted paths at which they differ.

A scalar is told by the keys on the way to it (`at`), and the ways to all of them (`leaves`)
determine the value: two trees that agree at each other's leaves are equal (`eq_of_leaves`), and
below one key they are equal as soon as they agree at the leaves below it (`get_eq_of_leaves`).
Written with dots between the keys a way is still told apart from every other, as long as no key
has a dot in it or is empty (`segments_dotted`).

Objects are kept with their keys in increasing order, so that equal objects are equal lists.
-/

section

universe u

mutual

/-- A scalar, or an object of named values. -/
inductive KeyTree (α : Type u) : Type u
  | leaf (a : α)
  | node (fields : KeyFields α)

inductive KeyFields (α : Type u) : Type u
  | nil
  | cons (key : String) (value : KeyTree α) (rest : KeyFields α)

end

deriving instance DecidableEq for KeyTree, KeyFields

variable {α : Type u}

/-! ### Ways into a tree -/

def KeyFields.get : KeyFields α → String → Option (KeyTree α)
  | nil, _ => none
  | cons key value rest, k => if key = k then some value else rest.get k

def KeyTree.get : KeyTree α → String → Option (KeyTree α)
  | leaf _, _ => none
  | node fields, k => fields.get k

/-- What the keys lead to, one after the other. -/
def KeyTree.at : KeyTree α → List String → Option (KeyTree α)
  | t, [] => some t
  | t, k :: path => (t.get k).bind fun u => u.at path

def KeyFields.ofList : List (String × KeyTree α) → KeyFields α
  | [] => nil
  | (k, t) :: rest => cons k t (ofList rest)

mutual

/-- The ways to the scalars. -/
def KeyTree.leaves : KeyTree α → List (List String)
  | .leaf _ => [[]]
  | .node fields => fields.leaves

def KeyFields.leaves : KeyFields α → List (List String)
  | .nil => []
  | .cons key value rest => value.leaves.map (key :: ·) ++ rest.leaves

end

/-- A key that stands for itself in a dotted path. -/
structure KeyTree.IsSegment (key : String) : Prop where
  ne_empty : key ≠ ""
  no_dot : '.' ∉ key.toList

mutual

/-- No object is empty, and keys are segments in increasing order. -/
def KeyTree.Keyed : KeyTree α → Prop
  | .leaf _ => True
  | .node fields => (∃ k, fields.get k ≠ none) ∧ fields.Keyed

def KeyFields.Keyed : KeyFields α → Prop
  | .nil => True
  | .cons key value rest =>
      KeyTree.IsSegment key ∧ value.Keyed ∧ (∀ k, rest.get k ≠ none → key < k) ∧ rest.Keyed

end

theorem KeyFields.keyed_of_get {fields : KeyFields α} (h : fields.Keyed) {k : String}
    {t : KeyTree α} (hk : fields.get k = some t) : KeyTree.IsSegment k ∧ t.Keyed := by
  match fields with
  | .nil => cases hk
  | .cons key value rest =>
      obtain ⟨hseg, hvalue, -, hrest⟩ := h
      rw [get] at hk
      split_ifs at hk with heq
      · obtain rfl := Option.some.inj hk
        exact ⟨heq ▸ hseg, hvalue⟩
      · exact keyed_of_get hrest hk

/-- Objects with the same values under every key are equal. -/
theorem KeyFields.ext_get {fields fields' : KeyFields α} (h : fields.Keyed) (h' : fields'.Keyed)
    (heq : ∀ k, fields.get k = fields'.get k) : fields = fields' := by
  match fields, fields' with
  | .nil, .nil => rfl
  | .nil, .cons key value rest => simpa [get] using heq key
  | .cons key value rest, .nil => simpa [get] using heq key
  | .cons key value rest, .cons key' value' rest' =>
      obtain ⟨-, -, hlt, hrest⟩ := h
      obtain ⟨-, -, hlt', hrest'⟩ := h'
      -- the least key of either is a key of the other
      have hkey : key = key' := by
        by_contra hne
        have hin : rest.get key' ≠ none := by
          have := heq key'
          rw [get, get, if_neg hne, if_pos rfl] at this
          rw [this]
          exact Option.some_ne_none _
        have hin' : rest'.get key ≠ none := by
          have := heq key
          rw [get, get, if_pos rfl, if_neg (Ne.symm hne)] at this
          rw [← this]
          exact Option.some_ne_none _
        exact lt_asymm (hlt key' hin) (hlt' key hin')
      subst hkey
      have hvalue : value = value' := by
        have := heq key
        rw [get, get, if_pos rfl, if_pos rfl] at this
        exact Option.some.inj this
      have hfields : rest = rest' := by
        refine ext_get hrest hrest' fun k => ?_
        by_cases hk : key = k
        · subst hk
          have hnone : ∀ {fields : KeyFields α}, (∀ k, fields.get k ≠ none → key < k) →
              fields.get key = none := fun hlt => by
            by_contra hne
            exact lt_irrefl key (hlt key hne)
          rw [hnone hlt, hnone hlt']
        · have := heq k
          rwa [get, get, if_neg hk, if_neg hk] at this
      rw [hvalue, hfields]

/-! ### Leaves -/

theorem KeyFields.mem_leaves {fields : KeyFields α} (h : fields.Keyed) {p : List String} :
    p ∈ fields.leaves ↔ ∃ k t q, p = k :: q ∧ fields.get k = some t ∧ q ∈ t.leaves := by
  match fields with
  | .nil => simp [leaves, get]
  | .cons key value rest =>
      obtain ⟨-, -, hlt, hrest⟩ := h
      have hfresh : rest.get key = none := by
        by_contra hne
        exact lt_irrefl key (hlt key hne)
      rw [leaves, List.mem_append, mem_leaves hrest, List.mem_map]
      constructor
      · rintro (⟨q, hq, rfl⟩ | ⟨k, t, q, rfl, hk, hq⟩)
        · exact ⟨key, value, q, rfl, by rw [get, if_pos rfl], hq⟩
        · have hne : key ≠ k := by
            rintro rfl
            rw [hfresh] at hk
            cases hk
          exact ⟨k, t, q, rfl, by rw [get, if_neg hne, hk], hq⟩
      · rintro ⟨k, t, q, rfl, hk, hq⟩
        rw [get] at hk
        split_ifs at hk with heq
        · obtain rfl := Option.some.inj hk
          exact .inl ⟨q, hq, by rw [heq]⟩
        · exact .inr ⟨k, t, q, rfl, hk, hq⟩

mutual

/-- A tree has a leaf. -/
theorem KeyTree.leaves_ne_nil : (t : KeyTree α) → t.Keyed → t.leaves ≠ []
  | .leaf _, _ => by simp [KeyTree.leaves]
  | .node fields, ⟨⟨k, hk⟩, _⟩ => KeyFields.leaves_ne_nil fields hk ‹_›

theorem KeyFields.leaves_ne_nil : (fields : KeyFields α) → {k : String} → fields.get k ≠ none →
    fields.Keyed → fields.leaves ≠ []
  | .nil, _, hk, _ => absurd rfl hk
  | .cons _ value _, _, _, ⟨_, hvalue, _, _⟩ => by
      have hne := KeyTree.leaves_ne_nil value hvalue
      simp [KeyFields.leaves, hne]

end

/-- At a leaf there is a scalar. -/
theorem KeyTree.at_of_mem_leaves {p : List String} {t : KeyTree α} (h : t.Keyed)
    (hp : p ∈ t.leaves) : ∃ a, t.at p = some (.leaf a) := by
  induction p generalizing t with
  | nil =>
      cases t with
      | leaf a => exact ⟨a, rfl⟩
      | node fields =>
          obtain ⟨k, u, q, heq, -⟩ := (KeyFields.mem_leaves h.2).mp hp
          cases heq
  | cons k q ih =>
      cases t with
      | leaf a => simp [leaves] at hp
      | node fields =>
          obtain ⟨k', u, q', heq, hk, hq⟩ := (KeyFields.mem_leaves h.2).mp hp
          obtain ⟨rfl, rfl⟩ := List.cons.inj heq
          obtain ⟨a, ha⟩ := ih (KeyFields.keyed_of_get h.2 hk).2 hq
          exact ⟨a, by rw [KeyTree.at, get, hk]; exact ha⟩

/-- Two trees agree at each other's leaves. -/
def KeyTree.AgreeAtLeaves (t t' : KeyTree α) : Prop :=
  ∀ p, p ∈ t.leaves ∨ p ∈ t'.leaves → t.at p = t'.at p

/-- Two objects agree at each other's leaves below one key. -/
def KeyFields.AgreeBelow (fields fields' : KeyFields α) (k : String) : Prop :=
  ∀ p, k :: p ∈ fields.leaves ∨ k :: p ∈ fields'.leaves →
    (KeyTree.node fields).at (k :: p) = (KeyTree.node fields').at (k :: p)

/-- Below one key the objects are told by their leaves, where the value under it is. -/
theorem KeyFields.get_eq_of_told {fields fields' : KeyFields α} (h : fields.Keyed)
    (h' : fields'.Keyed) {k : String} (htold : ∀ t, fields.get k = some t → ∀ t', t.Keyed →
      t'.Keyed → t.AgreeAtLeaves t' → t = t') (hagree : fields.AgreeBelow fields' k) :
    fields.get k = fields'.get k := by
  -- a value has a leaf, and there it is seen to be there
  have hleaf : ∀ {fields : KeyFields α} {t : KeyTree α}, fields.Keyed → fields.get k = some t →
      ∃ q a, k :: q ∈ fields.leaves ∧ (KeyTree.node fields).at (k :: q) = some (.leaf a) := by
    intro fields t h ht
    obtain ⟨-, hkeyed⟩ := keyed_of_get h ht
    obtain ⟨q, hq⟩ := List.exists_mem_of_ne_nil _ (t.leaves_ne_nil hkeyed)
    have hmem : k :: q ∈ fields.leaves := (mem_leaves h).mpr ⟨k, t, q, rfl, ht, hq⟩
    obtain ⟨a, ha⟩ := KeyTree.at_of_mem_leaves hkeyed hq
    exact ⟨q, a, hmem, by rw [KeyTree.at, KeyTree.get, ht]; exact ha⟩
  cases ht : fields.get k with
  | none =>
      cases ht' : fields'.get k with
      | none => rfl
      | some t' =>
          obtain ⟨q, a, hmem, hat⟩ := hleaf h' ht'
          have hq := hagree q (.inr hmem)
          rw [hat, KeyTree.at, KeyTree.get, ht] at hq
          cases hq
  | some t =>
      cases ht' : fields'.get k with
      | none =>
          obtain ⟨q, a, hmem, hat⟩ := hleaf h ht
          have hq := hagree q (.inl hmem)
          rw [hat, KeyTree.at, KeyTree.get, ht'] at hq
          cases hq
      | some t' =>
          refine congrArg some (htold t ht t' (keyed_of_get h ht).2 (keyed_of_get h' ht').2 ?_)
          intro q hq
          have hmem : k :: q ∈ fields.leaves ∨ k :: q ∈ fields'.leaves :=
            hq.imp (fun hq => (mem_leaves h).mpr ⟨k, t, q, rfl, ht, hq⟩)
              (fun hq => (mem_leaves h').mpr ⟨k, t', q, rfl, ht', hq⟩)
          have hat := hagree q hmem
          rwa [KeyTree.at, KeyTree.at, KeyTree.get, KeyTree.get, ht, ht'] at hat

mutual

/-- Trees that agree at each other's leaves are equal. -/
theorem KeyTree.eq_of_leaves : (t t' : KeyTree α) → t.Keyed → t'.Keyed → t.AgreeAtLeaves t' →
    t = t'
  | .leaf _, _, _, _, h => Option.some.inj (h [] (.inl (by simp [KeyTree.leaves])))
  | .node _, .leaf _, _, _, h => Option.some.inj (h [] (.inr (by simp [KeyTree.leaves])))
  | .node fields, .node _, ⟨_, hkeyed⟩, ⟨_, hkeyed'⟩, h =>
      congrArg KeyTree.node (KeyFields.ext_get hkeyed hkeyed' fun k =>
        KeyFields.get_eq_of_told hkeyed hkeyed' (fun t ht => KeyFields.told fields ht)
          fun q hq => h (k :: q) hq)

theorem KeyFields.told : (fields : KeyFields α) → {k : String} → {t : KeyTree α} →
    fields.get k = some t → ∀ t', t.Keyed → t'.Keyed → t.AgreeAtLeaves t' → t = t'
  | .nil, _, _, hk => by cases hk
  | .cons key value rest, k, t, hk => by
      rw [KeyFields.get] at hk
      split_ifs at hk with heq
      · obtain rfl := Option.some.inj hk
        exact KeyTree.eq_of_leaves value
      · exact KeyFields.told rest hk

end

/-- Objects that agree at each other's leaves below one key have the same value under it. -/
theorem KeyFields.get_eq_of_leaves {fields fields' : KeyFields α} (h : fields.Keyed)
    (h' : fields'.Keyed) {k : String} (hagree : fields.AgreeBelow fields' k) :
    fields.get k = fields'.get k :=
  get_eq_of_told h h' (fun t _ => t.eq_of_leaves) hagree

/-! ### Objects from lists -/

theorem KeyFields.get_ofList (l : List (String × KeyTree α)) (k : String) :
    (ofList l).get k = (l.find? fun x => x.1 = k).map Prod.snd := by
  induction l with
  | nil => rfl
  | cons x l ih =>
      rw [ofList, get]
      by_cases hk : x.1 = k
      · rw [if_pos hk, List.find?_cons_of_pos (by simpa using hk)]
        rfl
      · rw [if_neg hk, List.find?_cons_of_neg (by simpa using hk), ih]

theorem KeyFields.keyed_ofList {l : List (String × KeyTree α)}
    (hlt : (l.map Prod.fst).Pairwise (· < ·))
    (h : ∀ x ∈ l, KeyTree.IsSegment x.1 ∧ x.2.Keyed) : (ofList l).Keyed := by
  induction l with
  | nil => trivial
  | cons x l ih =>
      obtain ⟨⟨hseg, hvalue⟩, hrest⟩ := List.forall_mem_cons.mp h
      obtain ⟨hfirst, hlt⟩ := List.pairwise_cons.mp hlt
      refine ⟨hseg, hvalue, fun k hk => ?_, ih hlt hrest⟩
      rw [get_ofList] at hk
      cases hy : l.find? fun x => x.1 = k with
      | none =>
          rw [hy] at hk
          exact absurd rfl hk
      | some y =>
          have hkey : y.1 = k := by simpa using List.find?_some hy
          exact hkey ▸ hfirst y.1 (List.mem_map_of_mem (List.mem_of_find?_eq_some hy))

/-! ### Dotted paths -/

/-- The keys with dots between them. -/
def KeyTree.dotted (p : List String) : String := ".".intercalate p

/-- The parts of a path between its dots. -/
def KeyTree.segments (path : String) : List String := (path.toList.splitOn '.').map String.ofList

theorem KeyTree.toList_dotted (p : List String) :
    (dotted p).toList = ['.'].intercalate (p.map String.toList) := by
  rw [dotted, String.toList_intercalate]
  rfl

/-- The keys are read back from the path. -/
theorem KeyTree.segments_dotted {p : List String} (hne : p ≠ []) (h : ∀ k ∈ p, IsSegment k) :
    segments (dotted p) = p := by
  have hparts : ∀ l ∈ p.map String.toList, '.' ∉ l := by
    intro l hl
    obtain ⟨k, hk, rfl⟩ := List.mem_map.mp hl
    exact (h k hk).no_dot
  rw [segments, toList_dotted, List.splitOn_intercalate '.' hparts (by simpa using hne),
    List.map_map]
  exact List.map_id'' (fun k => String.ofList_toList) p

/-- A path to a key is the key, after the path to where the key is and a dot. -/
theorem KeyTree.dotted_concat {p : List String} (h : ∀ k ∈ p, IsSegment k) (k : String) :
    dotted (p ++ [k]) = if dotted p = "" then k else dotted p ++ "." ++ k := by
  cases p with
  | nil => rfl
  | cons key p =>
      have hne : dotted (key :: p) ≠ "" := by
        intro hempty
        have hsegs := segments_dotted (List.cons_ne_nil key p) h
        rw [hempty] at hsegs
        obtain ⟨rfl, -⟩ := List.cons.inj hsegs
        exact (h "" List.mem_cons_self).ne_empty rfl
      rw [if_neg hne, dotted, String.intercalate_append_of_ne_nil (List.cons_ne_nil _ _) (by simp),
        String.intercalate_singleton]
      rfl

/-- Before its first dot a path has its first key. -/
theorem KeyTree.takeWhile_dotted {k : String} (hk : IsSegment k) (p : List String) :
    (dotted (k :: p)).toList.takeWhile (· ≠ '.') = k.toList := by
  have hkeep : ∀ c ∈ k.toList, (c ≠ '.' : Bool) := fun c hc => by
    simp only [ne_eq, decide_eq_true_eq]
    rintro rfl
    exact hk.no_dot hc
  rw [toList_dotted]
  cases p with
  | nil =>
      rw [List.map_cons, List.map_nil, List.intercalate_singleton]
      exact List.takeWhile_eq_self_iff.mpr hkeep
  | cons k' p =>
      rw [List.map_cons, List.intercalate_cons_of_ne_nil (by simp), List.append_assoc,
        List.takeWhile_append_of_pos hkeep]
      simp

/-- The ways to the leaves go through segments. -/
theorem KeyTree.isSegment_of_mem_leaves {p : List String} {t : KeyTree α} (h : t.Keyed)
    (hp : p ∈ t.leaves) : ∀ k ∈ p, IsSegment k := by
  induction p generalizing t with
  | nil => exact fun k hk => absurd hk List.not_mem_nil
  | cons key p ih =>
      cases t with
      | leaf a => simp [leaves] at hp
      | node fields =>
          obtain ⟨k', u, q', heq, hk, hq⟩ := (KeyFields.mem_leaves h.2).mp hp
          obtain ⟨rfl, rfl⟩ := List.cons.inj heq
          obtain ⟨hseg, hu⟩ := KeyFields.keyed_of_get h.2 hk
          exact List.forall_mem_cons.mpr ⟨hseg, ih hu hq⟩

end
