import Datamancer.Lib.Text

/-!
# Datamancer.Transport.Naming

The versioned service names of the data plane (`naming.rs`): the configured prefix, the prefix
scoped to one daemon process, and the name of one client's data service, displayed by the
daemon and parsed by the consumer.

What a `ServiceName` may be is iceoryx2's to say (`valid`), and the parser asks it of the
prefix the name was made with. A displayed name parses back to itself, the last marker being
the one the parser finds (`fromStr_display`). The parser accepts exactly the displayed names,
but for the ids it takes with leading zeros (`grammar_iff`). With iceoryx2's own rule no name
of a validated prefix is refused (`serviceNames_eq`).
-/

namespace Datamancer

namespace Transport

/-- Version of the wire format, within every name. -/
def wireVersion : Nat := 3

/-! ### Prefixes -/

/-- `TransportError::BadServiceName`, by what its text is made from. -/
inductive BadServiceName
  | emptyPrefix
  | invalid (pre longest : String)
  | notADataServiceName (name : String)
  deriving DecidableEq, Repr

/-- iceoryx2's internal namespace. -/
def reserved : String := "iox2://"

/-- What iceoryx2 takes for a `ServiceName`: a name of at most `maxLen` bytes outside its
internal namespace. -/
def isServiceName (maxLen : Nat) (name : String) : Bool :=
  decide (name.utf8ByteSize ≤ maxLen) && !reserved.toList.isPrefixOf name.toList

/-- `{prefix}/v{WIRE_VERSION}/symbols/{client_id}`. -/
def announcementString (pre : String) (clientId : UInt64) : String :=
  pre ++ "/v" ++ toString wireVersion ++ "/symbols/" ++ toString clientId.toNat

/-- What `ServicePrefix::new` asks for: not empty, and fit for the longest name. -/
def isServicePrefix (valid : String → Bool) (pre : String) : Bool :=
  !pre.isEmpty && valid (announcementString pre (UInt64.ofNat (2 ^ 64 - 1)))

/-- A `[server].service_prefix`, validated. -/
structure ServicePrefix (valid : String → Bool) where
  str : String
  ok : isServicePrefix valid str = true
  deriving DecidableEq

variable {valid : String → Bool}

def ServicePrefix.new (valid : String → Bool) (pre : String) :
    Except BadServiceName (ServicePrefix valid) :=
  if h : isServicePrefix valid pre = true then .ok ⟨pre, h⟩
  else if pre.isEmpty then .error .emptyPrefix
  else .error (.invalid pre (announcementString pre (UInt64.ofNat (2 ^ 64 - 1))))

/-- A prefix scoped to one daemon process. -/
structure BootScopedPrefix (valid : String → Bool) where
  inner : ServicePrefix valid
  deriving DecidableEq

/-- `{prefix}/{unix_secs}-{pid}`, validated again. -/
def ServicePrefix.bootScoped (p : ServicePrefix valid) (unixSecs : UInt64) (pid : UInt32) :
    Except BadServiceName (BootScopedPrefix valid) :=
  (ServicePrefix.new valid
    (p.str ++ "/" ++ toString unixSecs.toNat ++ "-" ++ toString pid.toNat)).map BootScopedPrefix.mk

@[simp] theorem ServicePrefix.new_str (p : ServicePrefix valid) :
    ServicePrefix.new valid p.str = .ok p := by
  rw [ServicePrefix.new, dif_pos p.ok]

theorem ServicePrefix.str_of_new {pre : String} {p : ServicePrefix valid}
    (h : ServicePrefix.new valid pre = .ok p) : p.str = pre := by
  rw [ServicePrefix.new] at h
  split_ifs at h
  cases h
  rfl

/-! ### Names -/

/-- The name of one client's data service. -/
structure DataServiceName (valid : String → Bool) where
  pre : ServicePrefix valid
  clientId : UInt64
  deriving DecidableEq

namespace DataServiceName

def new (pre : BootScopedPrefix valid) (clientId : UInt64) : DataServiceName valid :=
  ⟨pre.inner, clientId⟩

/-- `/v{WIRE_VERSION}/data/`. -/
def marker : String := "/v" ++ toString wireVersion ++ "/data/"

/-- `Display`. -/
def display (n : DataServiceName valid) : String :=
  n.pre.str ++ marker ++ toString n.clientId.toNat

/-- `str::parse::<u64>` of digits. -/
def parseId (digits : List Char) : Option UInt64 :=
  if Nat.ofDigitChars 10 digits 0 < 2 ^ 64 then some (UInt64.ofNat (Nat.ofDigitChars 10 digits 0))
  else none

/-- `FromStr`: the last marker splits the name. -/
def fromStr (valid : String → Bool) (name : String) :
    Except BadServiceName (DataServiceName valid) :=
  match rfind marker.toList name.toList with
  | none => .error (.notADataServiceName name)
  | some pos =>
      let id := name.toList.drop (pos + marker.toList.length)
      if IsNumeral id then
        match parseId id with
        | none => .error (.notADataServiceName name)
        | some clientId =>
            match ServicePrefix.new valid (String.ofList (name.toList.take pos)) with
            | .error _ => .error (.notADataServiceName name)
            | .ok pre => .ok ⟨pre, clientId⟩
      else .error (.notADataServiceName name)

/-! ### The last marker -/

theorem marker_toList : marker.toList = ['/', 'v', '3', '/', 'd', 'a', 't', 'a', '/'] := by
  decide +kernel

/-- No occurrence of the marker begins within it and runs into an id. -/
theorem not_infix_tail {id : List Char} (h : '/' ∉ id) :
    ¬ marker.toList <:+: (marker.toList ++ id).tail := by
  have hrest : ∀ l : List Char, '/' ∈ l → ¬ l <:+: id := fun l hl hin => h (hin.mem hl)
  have hlast : ¬ ['v', '3', '/', 'd', 'a', 't', 'a', '/'] <+: id := fun hpre =>
    h (hpre.mem (by decide))
  have hid := hrest ['/', 'v', '3', '/', 'd', 'a', 't', 'a', '/'] (by decide)
  rw [marker_toList]
  simp [List.infix_cons_iff, hid, hlast]

theorem display_toList (n : DataServiceName valid) :
    n.display.toList
      = n.pre.str.toList ++ (marker.toList ++ Nat.toDigits 10 n.clientId.toNat) := by
  rw [display, String.toList_append, String.toList_append, List.append_assoc]
  congr 2
  exact Nat.toList_repr

theorem not_mem_digits {ds : List Char} (h : IsNumeral ds) : '/' ∉ ds := fun hmem =>
  absurd (h.digits '/' hmem) (by decide)

/-- The last marker of a prefix, a marker and an id is the one before the id. -/
theorem rfind_marker (pre : List Char) {id : List Char} (h : IsNumeral id) :
    rfind marker.toList (pre ++ (marker.toList ++ id)) = some pre.length :=
  rfind_append pre (by rw [marker_toList]; exact List.cons_ne_nil _ _)
    (not_infix_tail (not_mem_digits h))

/-- What the parser makes of a prefix, a marker and an id. -/
theorem fromStr_of_split {name : String} {pre id : List Char}
    (hname : name.toList = pre ++ (marker.toList ++ id)) (hid : IsNumeral id) :
    fromStr valid name
      = match parseId id with
        | none => .error (.notADataServiceName name)
        | some clientId =>
            match ServicePrefix.new valid (String.ofList pre) with
            | .error _ => .error (.notADataServiceName name)
            | .ok pre => .ok ⟨pre, clientId⟩ := by
  have hdrop : (pre ++ (marker.toList ++ id)).drop (pre.length + marker.toList.length) = id := by
    rw [← List.append_assoc, ← List.length_append, List.drop_left]
  rw [fromStr, hname, rfind_marker pre hid]
  simp only [hdrop, List.take_left, if_pos hid]

/-- What the parser accepts: a prefix, a marker and a numeral of 64 bits. -/
theorem split_of_fromStr {name : String} {n : DataServiceName valid}
    (h : fromStr valid name = .ok n) : ∃ id, IsNumeral id ∧ parseId id = some n.clientId
      ∧ name.toList = n.pre.str.toList ++ (marker.toList ++ id) := by
  rw [fromStr] at h
  split at h
  · cases h
  · rename_i pos hpos
    have hsplit := eq_of_rfind hpos
    dsimp only at h
    split_ifs at h with hid
    split at h
    · cases h
    · rename_i clientId hclient
      split at h
      · cases h
      · rename_i pre hpre
        cases h
        refine ⟨_, hid, hclient, ?_⟩
        rw [ServicePrefix.str_of_new hpre, String.toList_ofList, ← List.append_assoc]
        exact hsplit

/-! ### The grammar -/

theorem parseId_toDigits (clientId : UInt64) :
    parseId (Nat.toDigits 10 clientId.toNat) = some clientId := by
  rw [parseId, Nat.ofDigitChars_ten_toDigits, if_pos clientId.toNat_lt, UInt64.ofNat_toNat]

theorem toNat_of_parseId {digits : List Char} {clientId : UInt64}
    (h : parseId digits = some clientId) : clientId.toNat = Nat.ofDigitChars 10 digits 0 := by
  rw [parseId] at h
  split_ifs at h with hlt
  cases h
  exact UInt64.toNat_ofNat_of_lt' hlt

theorem parseId_of_lt {digits : List Char} (h : Nat.ofDigitChars 10 digits 0 < 2 ^ 64) :
    ∃ clientId, parseId digits = some clientId :=
  ⟨_, if_pos h⟩

/-- A displayed name parses back to itself, whatever markers its prefix has. -/
theorem fromStr_display (n : DataServiceName valid) : fromStr valid n.display = .ok n := by
  rw [fromStr_of_split n.display_toList (isNumeral_toDigits _), parseId_toDigits,
    String.ofList_toList, ServicePrefix.new_str]

/-- The parser takes the name exactly where a data-service name is displayed as it, and what it
reads is that one. -/
def Grammar (valid : String → Bool) (name : String) : Prop :=
  ((∃ n, fromStr valid name = .ok n) ↔ ∃ n : DataServiceName valid, n.display = name)
    ∧ ∀ n, fromStr valid name = .ok n → n.display = name

/-- A valid prefix, the marker, and an id of 64 bits with a zero in front. -/
def PaddedId (valid : String → Bool) (name : String) : Prop :=
  ∃ (pre : ServicePrefix valid) (id : List Char),
    name.toList = pre.str.toList ++ (marker.toList ++ id) ∧ IsNumeral id ∧ IsPadded id
      ∧ Nat.ofDigitChars 10 id 0 < 2 ^ 64

/-- A parsed name is displayed as it was where its id has no zero in front. -/
theorem display_of_fromStr {name : String} {n : DataServiceName valid}
    (h : fromStr valid name = .ok n) : n.display = name ∨ PaddedId valid name := by
  obtain ⟨id, hid, hparse, hname⟩ := split_of_fromStr h
  have hclient := toNat_of_parseId hparse
  by_cases hpad : IsPadded id
  · exact .inr ⟨n.pre, id, hname, hid, hpad, hclient ▸ n.clientId.toNat_lt⟩
  · refine .inl (String.toList_inj.mp ?_)
    rw [display_toList, hname, hclient, (toDigits_ofDigitChars_iff hid).mpr hpad]

/-- A name with a padded id is taken, and is not what is displayed of it. -/
theorem fromStr_of_padded {name : String} (h : PaddedId valid name) :
    ∃ n, fromStr valid name = .ok n ∧ n.display ≠ name := by
  obtain ⟨pre, id, hname, hid, hpad, hlt⟩ := h
  obtain ⟨clientId, hparse⟩ := parseId_of_lt hlt
  refine ⟨⟨pre, clientId⟩, ?_, fun hdisplay => ?_⟩
  · rw [fromStr_of_split hname hid, hparse, String.ofList_toList, ServicePrefix.new_str]
  · have hchars := congrArg String.toList hdisplay
    rw [display_toList, hname] at hchars
    have hdigits := List.append_cancel_left (List.append_cancel_left hchars)
    rw [toNat_of_parseId hparse] at hdigits
    exact (toDigits_ofDigitChars_iff hid).mp hdigits hpad

/-- Every name parses back from what it is displayed as; the parser takes what can be displayed
and nothing else exactly but for the padded ids. -/
theorem grammar_iff (valid : String → Bool) :
    (∀ n : DataServiceName valid, fromStr valid n.display = .ok n)
    ∧ ∀ name, Grammar valid name ↔ ¬ PaddedId valid name := by
  refine ⟨fromStr_display, fun name => ⟨fun hgrammar hpadded => ?_, fun hnot => ⟨?_, ?_⟩⟩⟩
  · obtain ⟨n, hn, hne⟩ := fromStr_of_padded hpadded
    exact hne (hgrammar.2 n hn)
  · constructor
    · rintro ⟨n, hn⟩
      exact ⟨n, (display_of_fromStr hn).resolve_right hnot⟩
    · rintro ⟨n, rfl⟩
      exact ⟨n, fromStr_display n⟩
  · intro n hn
    exact (display_of_fromStr hn).resolve_right hnot

/-- An id with two zeros in front is taken for the id without them. -/
theorem padded_not_grammar :
    ¬ Grammar (isServiceName 255) "datamancerd/1729600000-4321/v3/data/007" := by
  have hpadded : PaddedId (isServiceName 255) "datamancerd/1729600000-4321/v3/data/007" :=
    ⟨⟨"datamancerd/1729600000-4321", by decide +kernel⟩, ['0', '0', '7'], by decide +kernel,
      by decide, ⟨'0', ['7'], rfl⟩, by decide⟩
  intro hgrammar
  obtain ⟨n, hn, hne⟩ := fromStr_of_padded hpadded
  exact hne (hgrammar.2 n hn)

/-! ### The services of a name -/

/-- The names of the data service and of its announcement service; `none` is the `expect` on a
name that is not valid. -/
def serviceNames (n : DataServiceName valid) : Option (String × String) :=
  let announcement := announcementString n.pre.str n.clientId
  if valid n.display && valid announcement then some (n.display, announcement) else none

theorem utf8ByteSize_digits {ds : List Char} (h : ∀ c ∈ ds, c.isDigit = true) :
    (String.ofList ds).utf8ByteSize = ds.length := by
  induction ds with
  | nil => rfl
  | cons c cs ih =>
      have hcons : String.ofList (c :: cs) = String.singleton c ++ String.ofList cs := by
        apply String.toList_inj.mp
        simp
      have hsize : c.utf8Size = 1 := by
        obtain ⟨-, hhi⟩ := Char.isDigit_iff_toNat.mp (h c List.mem_cons_self)
        rw [Char.utf8Size_eq_one_iff, UInt32.le_iff_toNat_le]
        exact hhi.trans (by decide)
      rw [hcons, String.utf8ByteSize_append, String.utf8ByteSize_singleton, hsize,
        ih fun d hd => h d (List.mem_cons_of_mem _ hd), List.length_cons, Nat.add_comm]

/-- An id is displayed in at most as many bytes as the largest is. -/
theorem utf8ByteSize_id (clientId : UInt64) :
    (toString clientId.toNat).utf8ByteSize ≤ 20
      ∧ (toString (UInt64.ofNat (2 ^ 64 - 1)).toNat).utf8ByteSize = 20 := by
  refine ⟨?_, by decide +kernel⟩
  have hdigits := (isNumeral_toDigits clientId.toNat).digits
  rw [Nat.toString_eq_ofList_toDigits, utf8ByteSize_digits hdigits,
    Nat.length_toDigits_le_iff (by decide) (by decide)]
  exact clientId.toNat_lt.trans (by decide)

/-- What begins a name and lacks one of its characters begins what stands before that. -/
theorem isPrefix_of_not_mem {l pre rest : List Char} {c : Char} (hl : c ∉ l)
    (h : l <+: pre ++ c :: rest) : l <+: pre := by
  rcases List.prefix_or_prefix_of_prefix h (List.prefix_append pre (c :: rest)) with h' | h'
  · exact h'
  · obtain ⟨m, rfl⟩ := h'
    cases m with
    | nil => rw [List.append_nil]
    | cons d ds =>
        rw [List.prefix_append_right_inj] at h
        obtain ⟨t, ht⟩ := h
        obtain rfl := (List.cons.inj ht).1
        exact absurd (List.mem_append_right pre List.mem_cons_self) hl

/-- A name of a prefix, a slash, a version and no more after it than the longest name has is valid where the
longest name is. -/
theorem isServiceName_of_longest {maxLen : Nat} {pre name : String} {r : List Char}
    (hlongest : isServiceName maxLen (announcementString pre (UInt64.ofNat (2 ^ 64 - 1))) = true)
    (hname : name.toList = pre.toList ++ '/' :: 'v' :: r)
    (hsize : name.utf8ByteSize ≤ pre.utf8ByteSize + 32) : isServiceName maxLen name = true := by
  obtain ⟨hlen, hreserved⟩ := Bool.and_eq_true_iff.mp hlongest
  have hmax := (utf8ByteSize_id 0).2
  have hbytes : (announcementString pre (UInt64.ofNat (2 ^ 64 - 1))).utf8ByteSize
      = pre.utf8ByteSize + 32 := by
    have hversion : ("/v" ++ toString wireVersion ++ "/symbols/").utf8ByteSize = 12 := by
      decide +kernel
    simp only [String.utf8ByteSize_append] at hversion
    simp only [announcementString, String.utf8ByteSize_append, hmax]
    omega
  refine Bool.and_eq_true_iff.mpr ⟨?_, ?_⟩
  · have hle := of_decide_eq_true hlen
    exact decide_eq_true (by omega)
  · rw [Bool.not_eq_true', Bool.eq_false_iff] at hreserved ⊢
    intro hpre
    have hpre' := List.isPrefixOf_iff_prefix.mp hpre
    rw [hname, ← List.singleton_append, ← List.append_assoc] at hpre'
    -- the reserved prefix may end with the slash, and then the longest name has it too
    have hin : reserved.toList <+: pre.toList ++ ['/'] := isPrefix_of_not_mem (by decide) hpre'
    refine hreserved (List.isPrefixOf_iff_prefix.mpr (hin.trans ?_))
    have hslash : "/v".toList = ['/'] ++ ['v'] := by decide
    simp only [announcementString, String.toList_append, hslash, List.append_assoc]
    rw [List.prefix_append_right_inj]
    exact List.prefix_append _ _

/-- Neither name of a validated prefix can be refused. -/
theorem serviceNames_eq {maxLen : Nat} (h : ∀ name, valid name = isServiceName maxLen name)
    (n : DataServiceName valid) :
    n.serviceNames = some (n.display, announcementString n.pre.str n.clientId) := by
  have hlongest : isServiceName maxLen
      (announcementString n.pre.str (UInt64.ofNat (2 ^ 64 - 1))) = true :=
    (h _).symm.trans (Bool.and_eq_true_iff.mp n.pre.ok).2
  have hid := (utf8ByteSize_id n.clientId).1
  have hdata : valid n.display = true := by
    rw [h]
    refine isServiceName_of_longest hlongest (n.display_toList.trans (by rw [marker_toList]; rfl))
      ?_
    have hmarker : marker.utf8ByteSize = 9 := by decide +kernel
    simp only [display, String.utf8ByteSize_append, hmarker]
    omega
  have hsymbols : valid (announcementString n.pre.str n.clientId) = true := by
    have hmiddle : ("/v" ++ toString wireVersion ++ "/symbols/").toList
        = '/' :: 'v' :: ['3', '/', 's', 'y', 'm', 'b', 'o', 'l', 's', '/'] := by decide +kernel
    have hversion : ("/v" ++ toString wireVersion ++ "/symbols/").utf8ByteSize = 12 := by
      decide +kernel
    rw [h]
    refine isServiceName_of_longest hlongest (r := ['3', '/', 's', 'y', 'm', 'b', 'o', 'l', 's',
      '/'] ++ (toString n.clientId.toNat).toList) ?_ ?_
    · rw [← List.cons_append, ← List.cons_append, ← hmiddle]
      simp only [announcementString, String.toList_append, List.append_assoc]
    · simp only [String.utf8ByteSize_append] at hversion
      simp only [announcementString, String.utf8ByteSize_append]
      omega
  rw [serviceNames, hdata, hsymbols]
  rfl

end DataServiceName

end Transport

end Datamancer
