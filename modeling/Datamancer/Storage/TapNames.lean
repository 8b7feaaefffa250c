import Datamancer.Core.Event
import Datamancer.Storage.Turso

/-!
# Datamancer.Storage.TapNames

The names of the tap log's database: the tags of kinds and asset classes, the record id of a
stream and the names of shard tables. Each can be read back: the tags by their inverses, the
id since each of its parts says its length (`registryId_injective`), a shard's name as its
ordinal (`shardOrdinal_shardName`).
-/

namespace Datamancer

namespace TapLog

/-! ### Tags -/

def kindTag : EventKind → String
  | .trade => "trade"
  | .quote => "quote"
  | .bar .oneSecond => "bar_1s"
  | .bar .oneMinute => "bar_1m"
  | .bar .fiveMinute => "bar_5m"
  | .bar .fifteenMinute => "bar_15m"
  | .bar .oneHour => "bar_1h"
  | .bar .oneDay => "bar_1d"

def kindFromTag (tag : String) : Option EventKind :=
  if tag = "trade" then some .trade
  else if tag = "quote" then some .quote
  else if tag = "bar_1s" then some (.bar .oneSecond)
  else if tag = "bar_1m" then some (.bar .oneMinute)
  else if tag = "bar_5m" then some (.bar .fiveMinute)
  else if tag = "bar_15m" then some (.bar .fifteenMinute)
  else if tag = "bar_1h" then some (.bar .oneHour)
  else if tag = "bar_1d" then some (.bar .oneDay)
  else none

@[simp] theorem kindFromTag_kindTag (kind : EventKind) :
    kindFromTag (kindTag kind) = some kind := by
  cases kind with
  | trade => decide
  | quote => decide
  | bar i => cases i <;> decide

def assetClassFromTag (tag : String) : Option AssetClass :=
  if tag = "equity" then some .equity
  else if tag = "etf" then some .etf
  else if tag = "crypto" then some .crypto
  else none

@[simp] theorem assetClassFromTag_tag (asset : AssetClass) :
    assetClassFromTag (TursoCache.assetClassTag asset) = some asset := by
  cases asset <;> decide

/-! ### Record ids -/

/-- One part of a record id: its length in bytes, a colon, and its bytes. -/
def idPart (part : String) : List Char :=
  Nat.toDigits 10 part.utf8ByteSize ++ ':' :: part.toList

def registryId (instrument : Instrument) (kind : EventKind) : List Char :=
  idPart instrument.provider ++ (idPart (TursoCache.assetClassTag instrument.assetClass)
    ++ (idPart instrument.symbol ++ idPart (kindTag kind)))

theorem toDigits_injective {m n : Nat} (h : Nat.toDigits 10 m = Nat.toDigits 10 n) : m = n := by
  rw [← Nat.ofDigitChars_ten_toDigits (n := m), h, Nat.ofDigitChars_ten_toDigits]

/-- A list is split at the first element that is not as the ones before. -/
theorem append_cons_inj {α : Type*} {p : α → Prop} {a : α} (ha : ¬ p a) {xs ys xs' ys' : List α}
    (hxs : ∀ x ∈ xs, p x) (hxs' : ∀ x ∈ xs', p x) (h : xs ++ a :: ys = xs' ++ a :: ys') :
    xs = xs' ∧ ys = ys' := by
  induction xs generalizing xs' with
  | nil =>
      cases xs' with
      | nil => exact ⟨rfl, (List.cons.inj h).2⟩
      | cons x xs' => exact absurd (hxs' a ((List.cons.inj h).1 ▸ List.mem_cons_self)) ha
  | cons x xs ih =>
      cases xs' with
      | nil => exact absurd (hxs a ((List.cons.inj h).1 ▸ List.mem_cons_self)) ha
      | cons x' xs' =>
          obtain ⟨rfl, hrest⟩ := List.cons.inj h
          obtain ⟨rfl, rfl⟩ := ih (fun y hy => hxs y (List.mem_cons_of_mem _ hy))
            (fun y hy => hxs' y (List.mem_cons_of_mem _ hy)) hrest
          exact ⟨rfl, rfl⟩

/-- The bytes of a text, one character after the other. -/
def byteSize (cs : List Char) : Nat := (cs.map Char.utf8Size).sum

theorem utf8ByteSize_ofList (cs : List Char) : (String.ofList cs).utf8ByteSize = byteSize cs := by
  induction cs with
  | nil => rfl
  | cons c cs ih =>
      have happend : String.ofList (c :: cs) = String.singleton c ++ String.ofList cs := by
        rw [← String.toList_inj]
        simp
      rw [happend, String.utf8ByteSize_append, String.utf8ByteSize_singleton, ih]
      rfl

theorem byteSize_toList (s : String) : byteSize s.toList = s.utf8ByteSize := by
  rw [← utf8ByteSize_ofList, String.ofList_toList]

/-- Of two texts of one size that begin a text, neither goes on after the other. -/
theorem append_inj_of_byteSize {cs ds xs ys : List Char} (hsize : byteSize cs = byteSize ds)
    (h : cs ++ xs = ds ++ ys) : cs = ds ∧ xs = ys := by
  induction cs generalizing ds with
  | nil =>
      cases ds with
      | nil => exact ⟨rfl, h⟩
      | cons d ds =>
          have := d.utf8Size_pos
          simp [byteSize] at hsize
          omega
  | cons c cs ih =>
      cases ds with
      | nil =>
          have := c.utf8Size_pos
          simp [byteSize] at hsize
          omega
      | cons d ds =>
          obtain ⟨rfl, hrest⟩ := List.cons.inj h
          obtain ⟨rfl, rfl⟩ := ih (by simpa [byteSize] using hsize) hrest
          exact ⟨rfl, rfl⟩

/-- The first part of an id is read back, whatever follows it. -/
theorem idPart_append_inj {s t : String} {xs ys : List Char}
    (h : idPart s ++ xs = idPart t ++ ys) : s = t ∧ xs = ys := by
  have hdigits : ∀ n, ∀ c ∈ Nat.toDigits 10 n, c.isDigit := fun n c hc =>
    Nat.isDigit_of_mem_toDigits (by decide) (by decide) hc
  rw [idPart, idPart, List.append_assoc, List.append_assoc] at h
  obtain ⟨hsize, hrest⟩ := append_cons_inj (p := fun c => c.isDigit = true) (by decide)
    (hdigits _) (hdigits _) h
  obtain ⟨hchars, htail⟩ := append_inj_of_byteSize
    (by rw [byteSize_toList, byteSize_toList, toDigits_injective hsize]) hrest
  exact ⟨String.toList_inj.mp hchars, htail⟩

theorem assetClassTag_injective : Function.Injective TursoCache.assetClassTag := fun a b h =>
  Option.some.inj (by rw [← assetClassFromTag_tag, h, assetClassFromTag_tag])

theorem kindTag_injective : Function.Injective kindTag := fun a b h =>
  Option.some.inj (by rw [← kindFromTag_kindTag, h, kindFromTag_kindTag])

/-- No two streams have one record. -/
theorem registryId_injective {i j : Instrument} {k l : EventKind}
    (h : registryId i k = registryId j l) : i = j ∧ k = l := by
  obtain ⟨hprovider, h⟩ := idPart_append_inj h
  obtain ⟨hasset, h⟩ := idPart_append_inj h
  obtain ⟨hsymbol, h⟩ := idPart_append_inj h
  have hlast : idPart (kindTag k) ++ [] = idPart (kindTag l) ++ [] := by simpa using h
  obtain ⟨hkind, -⟩ := idPart_append_inj hlast
  obtain ⟨provider, asset, symbol⟩ := i
  obtain ⟨provider', asset', symbol'⟩ := j
  obtain rfl := assetClassTag_injective hasset
  cases hprovider
  cases hsymbol
  exact ⟨rfl, kindTag_injective hkind⟩

/-! ### Shard names -/

def tapMark : List Char := ['t', 'a', 'p', '_']

/-- `{ordinal:06}`. -/
def padded (ordinal : Nat) : List Char :=
  List.replicate (6 - (Nat.toDigits 10 ordinal).length) '0' ++ Nat.toDigits 10 ordinal

/-- `tap_{ordinal:06}`. -/
def shardName (ordinal : Nat) : String := String.ofList (tapMark ++ padded ordinal)

/-- `name.strip_prefix("tap_")`. -/
def stripTap (name : String) : Option (List Char) :=
  if tapMark <+: name.toList then some (name.toList.drop tapMark.length) else none

/-- The parse of a `u64`: digits, after a sign at most. -/
def parseU64 (cs : List Char) : Option Nat :=
  let digits := if cs.head? = some '+' then cs.drop 1 else cs
  if digits ≠ [] ∧ digits.all Char.isDigit ∧ Nat.ofDigitChars 10 digits 0 < 2 ^ 64 then
    some (Nat.ofDigitChars 10 digits 0)
  else none

def shardOrdinal (name : String) : Option Nat := (stripTap name).bind parseU64

def isValidShardName (name : String) : Bool :=
  (stripTap name).any fun digits => digits ≠ [] ∧ digits.all Char.isDigit

theorem stripTap_shardName (n : Nat) : stripTap (shardName n) = some (padded n) := by
  rw [stripTap, shardName, String.toList_ofList, if_pos (List.prefix_append _ _),
    List.drop_left]

theorem padded_ne_nil (n : Nat) : padded n ≠ [] :=
  List.append_ne_nil_of_right_ne_nil _ Nat.toDigits_ne_nil

theorem isDigit_of_mem_padded {n : Nat} {c : Char} (hc : c ∈ padded n) : c.isDigit = true := by
  rcases List.mem_append.mp hc with hc | hc
  · obtain rfl := List.eq_of_mem_replicate hc
    decide
  · exact Nat.isDigit_of_mem_toDigits (by decide) (by decide) hc

theorem ofDigitChars_padded (n : Nat) : Nat.ofDigitChars 10 (padded n) 0 = n := by
  rw [padded, Nat.ofDigitChars_append, Nat.ofDigitChars_replicate_zero, Nat.mul_zero,
    Nat.ofDigitChars_ten_toDigits]

@[simp] theorem isValidShardName_shardName (n : Nat) : isValidShardName (shardName n) = true := by
  rw [isValidShardName, stripTap_shardName, Option.any_some, decide_eq_true_iff]
  exact ⟨padded_ne_nil n, List.all_eq_true.mpr fun _ hc => isDigit_of_mem_padded hc⟩

theorem shardOrdinal_shardName {n : Nat} (h : n < 2 ^ 64) :
    shardOrdinal (shardName n) = some n := by
  -- the first character is a digit, and no sign
  have hsign : (padded n).head? ≠ some '+' := fun hplus =>
    absurd (isDigit_of_mem_padded (List.mem_of_mem_head? hplus)) (by decide)
  rw [shardOrdinal, stripTap_shardName, Option.bind_some, parseU64]
  simp only [if_neg hsign, ofDigitChars_padded]
  exact if_pos ⟨padded_ne_nil n, List.all_eq_true.mpr fun _ hc => isDigit_of_mem_padded hc, h⟩

theorem shardName_injective {m n : Nat} (hm : m < 2 ^ 64) (hn : n < 2 ^ 64)
    (h : shardName m = shardName n) : m = n :=
  Option.some.inj (by rw [← shardOrdinal_shardName hm, h, shardOrdinal_shardName hn])

end TapLog

end Datamancer
