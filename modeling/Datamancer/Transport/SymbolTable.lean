import Mathlib.Data.List.Nodup
import Mathlib.Logic.Function.Basic
import Datamancer.Core.Error

/-!
# Datamancer.Transport.SymbolTable

Sink-local symbol interning (`symbol_table.rs`). The data plane carries a compact
`SymbolId` in place of an `Instrument`; a `SymbolTable` assigns the ids at the source
and produces the announcements from which a subscriber's `SymbolResolver` rebuilds the
reverse mapping.

An announcement carries the instrument as bytes in a fixed-capacity string of a
dependency. That string refuses what exceeds its capacity and whatever else its own
check (`accepts`, a parameter) refuses.
-/

namespace Datamancer

namespace Transport

/-- Maximum encoded instrument-tuple length, in bytes. -/
def symbolStringCapacity : Nat := 64

/-- A per-service compaction handle for an instrument on the wire. -/
structure SymbolId where
  val : UInt32
  deriving DecidableEq, Repr

/-- `SymbolId::CONNECTION`: reserved for connection-scoped controls. -/
def SymbolId.connection : SymbolId := ⟨UInt32.ofNat (2 ^ 32 - 1)⟩

inductive SymbolDecodeError
  | malformedTuple
  | unknownAssetClass
  | invalidUtf8
  deriving DecidableEq, Repr

/-! ### The encoded tuple -/

/-- The separator, as the character it is in the text and the byte it is encoded as. -/
def sep : Char := '\x1f'

def encodeInstrument (i : Instrument) : ByteArray :=
  i.provider.toUTF8 ++ (String.singleton sep).toUTF8 ++ i.assetClass.display.toUTF8
    ++ (String.singleton sep).toUTF8 ++ i.symbol.toUTF8

def parseAssetClass (s : String) : Except SymbolDecodeError AssetClass :=
  if s = "equity" then .ok .equity
  else if s = "etf" then .ok .etf
  else if s = "crypto" then .ok .crypto
  else .error .unknownAssetClass

def decodeInstrument (bytes : ByteArray) : Except SymbolDecodeError Instrument :=
  match String.fromUTF8? bytes with
  | none => .error .invalidUtf8
  | some text =>
      match text.toList.splitOn sep with
      | [provider, assetClass, symbol] =>
          (parseAssetClass (String.ofList assetClass)).map fun asset =>
            ⟨String.ofList provider, asset, String.ofList symbol⟩
      | _ => .error .malformedTuple

theorem parseAssetClass_display (a : AssetClass) : parseAssetClass a.display = .ok a := by
  cases a <;> rfl

/-- The text an instrument is encoded as. -/
def tupleText (i : Instrument) : String :=
  i.provider ++ String.singleton sep ++ i.assetClass.display ++ String.singleton sep ++ i.symbol

theorem encodeInstrument_eq (i : Instrument) : encodeInstrument i = (tupleText i).toUTF8 := by
  simp [encodeInstrument, tupleText, String.toByteArray_append]

theorem fromUTF8?_toUTF8 (s : String) : String.fromUTF8? s.toUTF8 = some s := by
  have hvalid : s.toUTF8.IsValidUTF8 := s.isValidUTF8
  rw [String.fromUTF8?, dif_pos hvalid]
  rfl

theorem toList_tupleText (i : Instrument) : (tupleText i).toList
    = [sep].intercalate [i.provider.toList, i.assetClass.display.toList, i.symbol.toList] := by
  simp [tupleText, List.intercalate]

theorem sep_not_mem_display (a : AssetClass) : sep ∉ a.display.toList := by
  cases a <;> decide

/-- A tuple none of whose texts contains the separator decodes to itself. -/
theorem decode_encode {i : Instrument} (hp : sep ∉ i.provider.toList)
    (hs : sep ∉ i.symbol.toList) : decodeInstrument (encodeInstrument i) = .ok i := by
  have hsplit : (tupleText i).toList.splitOn sep
      = [i.provider.toList, i.assetClass.display.toList, i.symbol.toList] := by
    rw [toList_tupleText]
    refine List.splitOn_intercalate _ (by simp [hp, hs, sep_not_mem_display]) (by simp)
  rw [decodeInstrument, encodeInstrument_eq, fromUTF8?_toUTF8]
  simp [hsplit, parseAssetClass_display, Except.map]

theorem length_splitOn (c : Char) (l : List Char) : (l.splitOn c).length = l.count c + 1 := by
  induction l with
  | nil => simp
  | cons x l ih =>
      rw [List.splitOn_cons_eq_if_modifyHead]
      by_cases hx : x = c
      · simp [hx, ih]
      · simp [hx, ih]

/-- A tuple that decodes at all has no separator in one of its texts. -/
theorem sep_not_mem_of_decode {i j : Instrument}
    (h : decodeInstrument (encodeInstrument i) = .ok j) :
    sep ∉ i.provider.toList ∧ sep ∉ i.symbol.toList := by
  have hcount : ((tupleText i).toList.splitOn sep).length
      = i.provider.toList.count sep + i.symbol.toList.count sep + 3 := by
    have hclass : i.assetClass.display.toList.count sep = 0 :=
      List.count_eq_zero.mpr (sep_not_mem_display _)
    rw [length_splitOn, toList_tupleText]
    simp [List.intercalate, hclass]
    omega
  have hlen : ((tupleText i).toList.splitOn sep).length = 3 := by
    rw [decodeInstrument, encodeInstrument_eq, fromUTF8?_toUTF8] at h
    simp only at h
    split at h
    · rename_i hsplit
      simp [hsplit]
    · cases h
  exact ⟨List.count_eq_zero.mp (by omega), List.count_eq_zero.mp (by omega)⟩

/-- A tuple that decodes at all decodes to itself: a separator in one of its texts makes
the tuple malformed, never another instrument's. -/
theorem eq_of_decode_encode {i j : Instrument} (h : decodeInstrument (encodeInstrument i) = .ok j) :
    j = i := by
  obtain ⟨hp, hs⟩ := sep_not_mem_of_decode h
  rw [decode_encode hp hs] at h
  exact (Except.ok.inj h).symm

/-! ### Announcements -/

/-- The dependency's fixed-capacity string. -/
structure SymbolString where
  bytes : ByteArray
  fits : bytes.size ≤ symbolStringCapacity

/-- `SymbolString::from_bytes(..).ok()`. -/
def SymbolString.fromBytes (accepts : ByteArray → Bool) (bytes : ByteArray) :
    Option SymbolString :=
  if h : bytes.size ≤ symbolStringCapacity then
    if accepts bytes then some ⟨bytes, h⟩ else none
  else none

theorem SymbolString.bytes_of_fromBytes {accepts : ByteArray → Bool} {bytes : ByteArray}
    {s : SymbolString} (h : fromBytes accepts bytes = some s) : s.bytes = bytes := by
  rw [fromBytes] at h
  split_ifs at h
  obtain rfl := Option.some.inj h
  rfl

/-- Maps a `SymbolId` to its encoded instrument tuple. -/
structure SymbolAnnouncement where
  id : SymbolId
  tuple : SymbolString

def SymbolAnnouncement.instrument (a : SymbolAnnouncement) :
    Except SymbolDecodeError Instrument := decodeInstrument a.tuple.bytes

/-! ### The source-side interner -/

/-- Ids are assigned densely in first-seen order, and never the reserved one; a tuple too
long to announce gets none. -/
structure SymbolTable where
  forward : Instrument → Option SymbolId
  reverse : List Instrument
  forward_iff : ∀ i id, forward i = some id ↔ reverse[id.val.toNat]? = some i
  bounded : reverse.length < 2 ^ 32
  announceable : ∀ i ∈ reverse, (encodeInstrument i).size ≤ symbolStringCapacity

/-- Why an instrument is not interned: its tuple is too long to announce, or the id
space is exhausted (where the source panics). -/
inductive InternError
  | tooLong (encodedLen : Nat)
  | exhausted
  deriving DecidableEq, Repr

namespace SymbolTable

def new : SymbolTable where
  forward _ := none
  reverse := []
  forward_iff := by simp
  bounded := by decide
  announceable := by simp

/-- The id the next new instrument gets. -/
def nextId (t : SymbolTable) : SymbolId := ⟨UInt32.ofNat t.reverse.length⟩

@[simp] theorem nextId_toNat (t : SymbolTable) : t.nextId.val.toNat = t.reverse.length :=
  UInt32.toNat_ofNat_of_lt' t.bounded

theorem forward_of_getElem? {t : SymbolTable} {i : Instrument} {n : Nat}
    (h : t.reverse[n]? = some i) : t.forward i = some ⟨UInt32.ofNat n⟩ := by
  have hn : n < t.reverse.length := (List.getElem?_eq_some_iff.mp h).1
  rw [t.forward_iff, UInt32.toNat_ofNat_of_lt' (hn.trans t.bounded)]
  exact h

theorem forward_eq_none_iff {t : SymbolTable} {i : Instrument} :
    t.forward i = none ↔ i ∉ t.reverse := by
  constructor
  · intro hnone hmem
    obtain ⟨n, hn⟩ := List.getElem?_of_mem hmem
    rw [forward_of_getElem? hn] at hnone
    cases hnone
  · intro hnot
    cases hid : t.forward i with
    | none => rfl
    | some id => exact absurd (List.mem_of_getElem? ((t.forward_iff i id).mp hid)) hnot

/-- Add an instrument that has no id yet, where the id space has room. -/
def push (t : SymbolTable) (i : Instrument) (hnew : t.forward i = none)
    (hlen : (encodeInstrument i).size ≤ symbolStringCapacity)
    (hroom : t.reverse.length + 1 < 2 ^ 32) : SymbolTable where
  forward := Function.update t.forward i (some t.nextId)
  reverse := t.reverse ++ [i]
  forward_iff := by
    intro j id
    -- an instrument that is listed has an id
    have hnot : i ∉ t.reverse := forward_eq_none_iff.mp hnew
    by_cases hj : j = i
    · subst hj
      rw [Function.update_self, Option.some.injEq]
      constructor
      · rintro rfl
        simp
      · intro h
        rw [List.getElem?_append] at h
        split_ifs at h with hlt
        · exact absurd (List.mem_of_getElem? h) hnot
        · have hle : id.val.toNat - t.reverse.length < 1 := by
            simpa using (List.getElem?_eq_some_iff.mp h).1
          have hval : t.nextId.val.toNat = id.val.toNat := by
            rw [nextId_toNat]
            omega
          obtain ⟨v⟩ := id
          exact congrArg SymbolId.mk (UInt32.toNat_inj.mp hval)
    · rw [Function.update_of_ne hj, t.forward_iff, List.getElem?_append]
      split_ifs with hlt
      · rfl
      · constructor
        · intro h
          exact absurd (List.getElem?_eq_some_iff.mp h).1 hlt
        · intro h
          have hmem := List.mem_of_getElem? h
          exact absurd (List.mem_singleton.mp hmem) hj
  bounded := by simpa using hroom
  announceable := by
    intro j hj
    rcases List.mem_append.mp hj with hj | hj
    · exact t.announceable j hj
    · rwa [List.mem_singleton.mp hj]

def intern (t : SymbolTable) (i : Instrument) : Except InternError (SymbolId × SymbolTable) :=
  match h : t.forward i with
  | some id => .ok (id, t)
  | none =>
      if hlen : (encodeInstrument i).size ≤ symbolStringCapacity then
        if hroom : t.reverse.length + 1 < 2 ^ 32 then .ok (t.nextId, t.push i h hlen hroom)
        else .error .exhausted
      else .error (.tooLong (encodeInstrument i).size)

/-- The announcement of an interned id, unless the string type refuses the tuple. -/
def announcement (accepts : ByteArray → Bool) (t : SymbolTable) (id : SymbolId) :
    Option SymbolAnnouncement := do
  let instrument ← t.reverse[id.val.toNat]?
  let tuple ← SymbolString.fromBytes accepts (encodeInstrument instrument)
  some ⟨id, tuple⟩

/-- Announcements for every interned instrument, for a full-table republish. -/
def announcements (accepts : ByteArray → Bool) (t : SymbolTable) : List SymbolAnnouncement :=
  (List.range t.reverse.length).filterMap fun n => t.announcement accepts ⟨UInt32.ofNat n⟩

/-! ### What interning does -/

/-- The instrument an id stands for. -/
def lookup (t : SymbolTable) (id : SymbolId) : Option Instrument := t.reverse[id.val.toNat]?

/-- A later table knows what an earlier one knew. -/
def Extends (t t' : SymbolTable) : Prop := t.reverse <+: t'.reverse

theorem Extends.refl (t : SymbolTable) : Extends t t := List.prefix_rfl

theorem Extends.trans {t t' t'' : SymbolTable} (h : Extends t t') (h' : Extends t' t'') :
    Extends t t'' := List.IsPrefix.trans h h'

theorem Extends.lookup {t t' : SymbolTable} (h : Extends t t') {id : SymbolId} {i : Instrument}
    (hid : t.lookup id = some i) : t'.lookup id = some i := by
  obtain ⟨rest, hrest⟩ := h
  rw [SymbolTable.lookup, ← hrest, List.getElem?_append_left (List.getElem?_eq_some_iff.mp hid).1]
  exact hid

/-- No instrument has the reserved id. -/
theorem lookup_connection (t : SymbolTable) : t.lookup .connection = none := by
  have hval : SymbolId.connection.val.toNat = 2 ^ 32 - 1 := rfl
  have hlt := t.bounded
  rw [lookup, hval, List.getElem?_eq_none_iff]
  omega

theorem intern_spec {t t' : SymbolTable} {i : Instrument} {id : SymbolId}
    (h : t.intern i = .ok (id, t')) : Extends t t' ∧ t'.lookup id = some i := by
  rw [intern] at h
  split at h
  · rename_i id' hid
    cases h
    exact ⟨.refl t, (t.forward_iff i id).mp hid⟩
  · split_ifs at h with hlen hroom
    cases h
    refine ⟨List.prefix_append _ _, ?_⟩
    rw [lookup, nextId_toNat]
    simp [push]

/-- The instrument has an id, or its tuple can be announced and there is an id left for it. -/
def Encodes (t : SymbolTable) (i : Instrument) : Prop :=
  i ∈ t.reverse
    ∨ (encodeInstrument i).size ≤ symbolStringCapacity ∧ t.reverse.length + 1 < 2 ^ 32

/-- These are the instruments the table takes. -/
theorem intern_ok_iff {t : SymbolTable} {i : Instrument} :
    (∃ r, t.intern i = .ok r) ↔ t.Encodes i := by
  rw [intern, Encodes]
  split
  · rename_i id hid
    have hmem : i ∈ t.reverse := List.mem_of_getElem? ((t.forward_iff i id).mp hid)
    exact iff_of_true ⟨_, rfl⟩ (.inl hmem)
  · rename_i hnone
    rw [or_iff_right (forward_eq_none_iff.mp hnone)]
    split_ifs with hlen hroom
    · exact iff_of_true ⟨_, rfl⟩ ⟨hlen, hroom⟩
    · exact iff_of_false (fun h => by obtain ⟨_, h⟩ := h; cases h) fun h => hroom h.2
    · exact iff_of_false (fun h => by obtain ⟨_, h⟩ := h; cases h) fun h => hlen h.1

/-- An interned instrument whose tuple the string takes can be announced. -/
theorem exists_announcement {accepts : ByteArray → Bool} {t : SymbolTable} {id : SymbolId}
    {i : Instrument} (h : t.lookup id = some i) (ha : accepts (encodeInstrument i) = true) :
    ∃ a, t.announcement accepts id = some a := by
  have hlen := t.announceable i (List.mem_of_getElem? h)
  refine ⟨⟨id, ⟨encodeInstrument i, hlen⟩⟩, ?_⟩
  have hbytes : SymbolString.fromBytes accepts (encodeInstrument i) = some ⟨_, hlen⟩ := by
    rw [SymbolString.fromBytes, dif_pos hlen, if_pos ha]
  rw [lookup] at h
  simp [announcement, h, hbytes]

/-- An announcement that decodes names the instrument its id stands for. -/
theorem instrument_of_announcement {accepts : ByteArray → Bool} {t : SymbolTable} {id : SymbolId}
    {a : SymbolAnnouncement} (h : t.announcement accepts id = some a) :
    a.id = id ∧ ∀ i, a.instrument = .ok i → t.lookup id = some i := by
  simp only [announcement, bind, Option.bind_eq_some_iff, Option.some.injEq] at h
  obtain ⟨i, hi, tuple, htuple, rfl⟩ := h
  refine ⟨rfl, fun j hj => ?_⟩
  rw [SymbolAnnouncement.instrument, SymbolString.bytes_of_fromBytes htuple] at hj
  rw [eq_of_decode_encode hj]
  exact hi

end SymbolTable

end Transport

end Datamancer
