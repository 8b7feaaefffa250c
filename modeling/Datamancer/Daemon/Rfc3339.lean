import Datamancer.Core.Event
import Datamancer.Lib.Calendar
import Datamancer.Lib.Text

/-!
# Datamancer.Daemon.Rfc3339

The timestamp parser of the daemon's configuration (`parse_rfc3339_nanos` and
`days_from_civil` of `config.rs`). Two ways to give no timestamp are kept apart: the `None` the
function answers, and an `i64` operation without a check that leaves its range.

A text that names a date and a time is read exactly (`fields_iff`), and the day number is the
calendar's (`daysFromCivil_eq`). What goes wrong is at the two ends: the day number of a year
far enough off overflows before any check, and in the earliest second of the range the whole
second is refused although the instant within it fits (`exact_iff`).
-/

namespace Datamancer

namespace Rfc3339

/-! ### Arithmetic -/

/-- The two ways to stop without a timestamp. -/
inductive Stop
  | rejected
  | overflowed
  deriving DecidableEq, Repr

/-- The values of `i64`. -/
def FitsI64 (x : Int) : Prop := -2 ^ 63 ≤ x ∧ x < 2 ^ 63

instance (x : Int) : Decidable (FitsI64 x) := inferInstanceAs (Decidable (_ ∧ _))

/-- The result of an `i64` operation without a check. -/
def i64 (x : Int) : Except Stop Int := if FitsI64 x then .ok x else .error .overflowed

/-- The result of a `checked_` operation and its `?`. -/
def checked (x : Int) : Except Stop Int := if FitsI64 x then .ok x else .error .rejected

/-! ### Texts -/

/-- `str::parse::<i64>`: a sign or none, and digits. -/
def parseI64 (s : List Char) : Option Int :=
  match s with
  | '-' :: ds => signed (-1) ds
  | '+' :: ds => signed 1 ds
  | ds => signed 1 ds
where
  signed (sign : Int) (ds : List Char) : Option Int :=
    if IsNumeral ds ∧ FitsI64 (sign * Nat.ofDigitChars 10 ds 0) then
      some (sign * Nat.ofDigitChars 10 ds 0)
    else none

/-- Three numbers and no more, split at `sep`. -/
def threeNumbers (sep : Char) (s : List Char) : Option (Int × Int × Int) :=
  match s.splitOn sep with
  | [x, y, z] => do
      let x ← parseI64 x
      let y ← parseI64 y
      let z ← parseI64 z
      some (x, y, z)
  | _ => none

/-- What the text is split into; the fraction stays a text. -/
structure Fields where
  year : Int
  month : Int
  day : Int
  hour : Int
  minute : Int
  second : Int
  frac : Option (List Char)
  deriving DecidableEq, Repr

/-- `strip_suffix`. -/
def stripSuffix (c : Char) (s : List Char) : Option (List Char) :=
  if s.getLast? = some c then some s.dropLast else none

/-- The time and the text of its fraction. -/
def splitFrac (time : List Char) : List Char × Option (List Char) :=
  match splitOnce '.' time with
  | some (hms, frac) => (hms, some frac)
  | none => (time, none)

/-- The reading of `YYYY-MM-DDTHH:MM:SS[.frac]Z`, before any check of a range. -/
def fields (s : String) : Option Fields := do
  let s ← stripSuffix 'Z' s.toList
  let (date, time) ← splitOnce 'T' s
  let (year, month, day) ← threeNumbers '-' date
  let (hms, frac) := splitFrac time
  let (hour, minute, second) ← threeNumbers ':' hms
  some { year, month, day, hour, minute, second, frac }

/-- The nanoseconds of a fraction of one to nine digits, padded to nine. -/
def fracNanos : Option (List Char) → Except Stop Int
  | none => .ok 0
  | some f =>
      if f = [] ∨ 9 < f.length ∨ f.all Char.isDigit = false then .error .rejected
      else
        match parseI64 (f ++ List.replicate (9 - f.length) '0') with
        | some n => .ok n
        | none => .error .rejected

/-! ### Dates -/

/-- The longest day of a month, by a leap year or not. -/
def maxDay (leap : Bool) (month : Int) : Option Int :=
  if month ∈ [1, 3, 5, 7, 8, 10, 12] then some 31
  else if month ∈ [4, 6, 9, 11] then some 30
  else if month = 2 then some (if leap then 29 else 28)
  else none

/-- `if month <= 2 { year - 1 } else { year }`. -/
def marchYear (year month : Int) : Except Stop Int :=
  if month ≤ 2 then i64 (year - 1) else .ok year

/-- `if y >= 0 { y } else { y - 399 } / 400`, the division rounding to zero. -/
def eraOf (y : Int) : Except Stop Int :=
  (if 0 ≤ y then .ok y else i64 (y - 399)).map fun n => n.tdiv 400

/-- Days since the Unix epoch of a civil date. -/
def daysFromCivil (year month day : Int) : Except Stop Int := do
  if ¬ (1 ≤ month ∧ month ≤ 12) then .error .rejected
  else
    let leap := year.tmod 4 = 0 && (year.tmod 100 ≠ 0 || year.tmod 400 = 0)
    match maxDay leap month with
    | none => .error .rejected
    | some max =>
        if ¬ (1 ≤ day ∧ day ≤ max) then .error .rejected
        else do
          let y ← marchYear year month
          let era ← eraOf y
          let yoe ← i64 (era * 400) >>= fun years => i64 (y - years)
          let mp ← (i64 (month + 9)).map fun n => n.tmod 12
          let doy ← i64 (153 * mp) >>= fun n => i64 (n + 2) >>= fun n => i64 (n.tdiv 5 + day)
            >>= fun n => i64 (n - 1)
          let doe ← i64 (yoe * 365) >>= fun n => i64 (n + yoe.tdiv 4)
            >>= fun n => i64 (n - yoe.tdiv 100) >>= fun n => i64 (n + doy)
          i64 (era * 146097) >>= fun n => i64 (n + doe) >>= fun n => i64 (n - 719468)

/-- Parse a timestamp into epoch nanoseconds. -/
def parseRfc3339Nanos (s : String) : Except Stop Timestamp :=
  match fields s with
  | none => .error .rejected
  | some f =>
      if ¬ ((0 ≤ f.hour ∧ f.hour ≤ 23) ∧ (0 ≤ f.minute ∧ f.minute ≤ 59)
          ∧ (0 ≤ f.second ∧ f.second ≤ 59)) then .error .rejected
      else do
        let nanosFrac ← fracNanos f.frac
        let days ← daysFromCivil f.year f.month f.day
        let secs ← checked (days * 86400)
        let clock ← i64 (f.hour * 3600) >>= fun hours => i64 (f.minute * 60)
          >>= fun minutes => i64 (hours + minutes) >>= fun n => i64 (n + f.second)
        let secs ← checked (secs + clock)
        let nanos ← checked (secs * 1000000000)
        let nanos ← checked (nanos + nanosFrac)
        .ok ⟨Int64.ofInt nanos⟩

example : parseRfc3339Nanos "2000-01-01T00:00:00Z" = .ok ⟨946684800000000000⟩ := by
  decide +kernel

/-! ### The day number -/

theorem i64_of_fits {x : Int} (h : FitsI64 x) : i64 x = .ok x := if_pos h

theorem ok_bind {α β : Type} (x : α) (f : α → Except Stop β) : (.ok x >>= f) = f x := rfl

theorem maxDay_eq (leap : Bool) {month : Nat} (h : 1 ≤ month ∧ month ≤ 12) :
    maxDay leap month = some (Calendar.daysInMonth leap month : Int) := by
  obtain ⟨hlo, hhi⟩ := h
  cases leap <;> interval_cases month <;> rfl

theorem daysInMonth_le (leap : Bool) (month : Nat) : Calendar.daysInMonth leap month ≤ 31 := by
  rw [Calendar.daysInMonth.eq_def]
  split <;> first | omega | (split_ifs <;> omega)

theorem tmod_eq_zero (year n : Nat) : (year : Int).tmod n = 0 ↔ year % n = 0 := by
  rw [Int.tmod_eq_emod_of_nonneg (Int.natCast_nonneg year)]
  omega

theorem isLeap_tmod (year : Nat) : (decide ((year : Int).tmod 4 = 0)
    && (decide ((year : Int).tmod 100 ≠ 0) || decide ((year : Int).tmod 400 = 0)))
    = Calendar.isLeap year := by
  have h4 := tmod_eq_zero year 4
  have h100 := tmod_eq_zero year 100
  have h400 := tmod_eq_zero year 400
  push_cast at h4 h100 h400
  simp [Calendar.isLeap, h4, h100, h400]

/-- The era is the number of whole eras, before the year zero too. -/
theorem eraOf_eq {y : Int} (h : -400 ≤ y ∧ y < 2 ^ 63) : eraOf y = .ok (y / 400) := by
  rw [eraOf]
  split_ifs with hy
  · exact congrArg Except.ok (Int.tdiv_eq_ediv_of_nonneg hy)
  · rw [i64_of_fits ⟨by omega, by omega⟩]
    refine congrArg Except.ok ?_
    change (y - 399).tdiv 400 = y / 400
    have hneg : (y - 399).tdiv 400 = -((399 - y).tdiv 400) := by
      rw [← Int.neg_tdiv, neg_sub]
    rw [hneg, Int.tdiv_eq_ediv_of_nonneg (by omega)]
    omega

/-- The days of the year before the day, the year begun in March. -/
theorem doy_eq {mp : Int} (day : Int) (hmp : 0 ≤ mp ∧ mp ≤ 11) (hday : 1 ≤ day ∧ day ≤ 31) :
    (i64 (153 * mp) >>= fun n => i64 (n + 2) >>= fun n => i64 (n.tdiv 5 + day)
      >>= fun n => i64 (n - 1)) = .ok ((153 * mp + 2) / 5 + day - 1) := by
  have hdiv : (153 * mp + 2).tdiv 5 = (153 * mp + 2) / 5 := Int.tdiv_eq_ediv_of_nonneg (by omega)
  rw [i64_of_fits ⟨by omega, by omega⟩, ok_bind, i64_of_fits ⟨by omega, by omega⟩,
    ok_bind, hdiv, i64_of_fits ⟨by omega, by omega⟩, ok_bind,
    i64_of_fits ⟨by omega, by omega⟩]

/-- The days of the era before the day. -/
theorem doe_eq (yoe : Int) {doy : Int} (hyoe : 0 ≤ yoe ∧ yoe < 400) (hdoy : 0 ≤ doy ∧ doy < 400) :
    (i64 (yoe * 365) >>= fun n => i64 (n + yoe.tdiv 4)
      >>= fun n => i64 (n - yoe.tdiv 100) >>= fun n => i64 (n + doy))
      = .ok (yoe * 365 + yoe / 4 - yoe / 100 + doy) := by
  have h4 : yoe.tdiv 4 = yoe / 4 := Int.tdiv_eq_ediv_of_nonneg hyoe.1
  have h100 : yoe.tdiv 100 = yoe / 100 := Int.tdiv_eq_ediv_of_nonneg hyoe.1
  rw [h4, h100, i64_of_fits ⟨by omega, by omega⟩, ok_bind, i64_of_fits ⟨by omega, by omega⟩,
    ok_bind, i64_of_fits ⟨by omega, by omega⟩, ok_bind,
    i64_of_fits ⟨by omega, by omega⟩]

/-- The eras and the days of the last: the only step whose range the inputs can leave. -/
theorem days_eq (era doe : Int) (hera : -1 ≤ era) (hdoe : 0 ≤ doe) (hlt : doe < 2 ^ 62) :
    (i64 (era * 146097) >>= fun n => i64 (n + doe) >>= fun n => i64 (n - 719468))
      = if FitsI64 (era * 146097 + doe) then .ok (era * 146097 + doe - 719468)
        else .error .overflowed := by
  split_ifs with hfits
  · obtain ⟨hlo, hhi⟩ := hfits
    rw [i64_of_fits ⟨by omega, by omega⟩, ok_bind, i64_of_fits ⟨by omega, by omega⟩,
      ok_bind, i64_of_fits ⟨by omega, by omega⟩]
  · by_cases heras : FitsI64 (era * 146097)
    · rw [i64_of_fits heras, ok_bind, i64, if_neg hfits]
      rfl
    · rw [i64, if_neg heras]
      rfl

/-- The day number of a date is the calendar's, unless the eras before it are too many. -/
theorem daysFromCivil_of_date {year month day : Nat} (hyear : (year : Int) < 2 ^ 63)
    (h : Calendar.IsDate year month day) :
    daysFromCivil year month day
      = if FitsI64 (Calendar.dayNumber year month day + 719468) then
          .ok (Calendar.dayNumber year month day)
        else .error .overflowed := by
  have hleap := isLeap_tmod year
  have hnumber := Calendar.dayNumber_eq h rfl
  obtain ⟨hm, hd⟩ := h
  have hmax := maxDay_eq (Calendar.isLeap year) hm
  have hday : (1 : Int) ≤ day ∧ (day : Int) ≤ Calendar.daysInMonth (Calendar.isLeap year) month :=
    ⟨by exact_mod_cast hd.1, by exact_mod_cast hd.2⟩
  have hle := daysInMonth_le (Calendar.isLeap year) month
  -- The year begun in March, and its era.
  have hmarch : marchYear year month = .ok (if month ≤ 2 then (year : Int) - 1 else year) := by
    rw [marchYear]
    by_cases hjan : month ≤ 2
    · rw [if_pos hjan, if_pos (by exact_mod_cast hjan), i64_of_fits ⟨by omega, by omega⟩]
    · rw [if_neg hjan, if_neg (by exact_mod_cast hjan)]
  have hy : -1 ≤ (if month ≤ 2 then (year : Int) - 1 else year)
      ∧ (if month ≤ 2 then (year : Int) - 1 else year) < 2 ^ 63 := by
    split_ifs <;> omega
  generalize (if month ≤ 2 then (year : Int) - 1 else year) = y at hnumber hmarch hy
  have hera := eraOf_eq (y := y) ⟨by omega, by omega⟩
  have hyears : i64 (y / 400 * 400) = .ok (y / 400 * 400) :=
    i64_of_fits ⟨by omega, by omega⟩
  have hyoe : i64 (y - y / 400 * 400) = .ok (y % 400) := by
    have heq : y - y / 400 * 400 = y % 400 := by omega
    rw [heq]
    exact i64_of_fits ⟨by omega, by omega⟩
  -- The month of the year begun in March.
  have hmp : (i64 ((month : Int) + 9)).map (fun n => n.tmod 12)
      = .ok (((month : Int) + 9) % 12) := by
    rw [i64_of_fits ⟨by omega, by omega⟩]
    exact congrArg Except.ok (Int.tmod_eq_emod_of_nonneg (by omega))
  have hmp' : 0 ≤ ((month : Int) + 9) % 12 ∧ ((month : Int) + 9) % 12 ≤ 11 := by omega
  generalize ((month : Int) + 9) % 12 = mp at hnumber hmp hmp'
  have hdoy := doy_eq day hmp' ⟨by omega, by omega⟩
  have hdoy' : 0 ≤ (153 * mp + 2) / 5 + (day : Int) - 1
      ∧ (153 * mp + 2) / 5 + (day : Int) - 1 < 400 := by omega
  generalize (153 * mp + 2) / 5 + (day : Int) - 1 = doy at hnumber hdoy hdoy'
  have hdoe := doe_eq (y % 400) ⟨by omega, by omega⟩ hdoy'
  have hdays := days_eq (y / 400) (y % 400 * 365 + y % 400 / 4 - y % 400 / 100 + doy)
    (by omega) (by omega) (by omega)
  have hsum : y / 400 * 146097 + (y % 400 * 365 + y % 400 / 4 - y % 400 / 100 + doy)
      = Calendar.dayNumber year month day + 719468 := by
    rw [hnumber]
    exact (Int.sub_add_cancel _ _).symm
  rw [hsum, Int.add_sub_cancel] at hdays
  have hmonth : ¬ ¬ (1 ≤ (month : Int) ∧ (month : Int) ≤ 12) := not_not.mpr (by omega)
  rw [daysFromCivil, if_neg hmonth, hleap]
  dsimp only
  rw [hmax]
  dsimp only
  rw [if_neg (not_not.mpr hday), hmarch, ok_bind, hera, ok_bind, hyears, ok_bind, hyoe, ok_bind,
    hmp, ok_bind, hdoy, ok_bind, hdoe, ok_bind]
  exact hdays

/-- What is no day of the calendar is refused. -/
theorem daysFromCivil_of_not {year month day : Int} (hyear : 0 ≤ year)
    (h : ¬ Calendar.IsDate year.toNat month.toNat day.toNat) :
    daysFromCivil year month day = .error .rejected := by
  rw [daysFromCivil]
  by_cases hmonth : 1 ≤ month ∧ month ≤ 12
  · rw [if_neg (not_not.mpr hmonth)]
    lift year to Nat using hyear
    lift month to Nat using by omega
    have hm : 1 ≤ month ∧ month ≤ 12 := by omega
    rw [isLeap_tmod]
    dsimp only
    rw [maxDay_eq _ hm]
    refine if_pos fun hday => h ⟨hm, ?_⟩
    simp only [Int.toNat_natCast]
    omega
  · exact if_pos hmonth

/-! ### The texts -/

/-- What a number is written with. -/
theorem parseI64_chars {s : List Char} {n : Int} (h : parseI64 s = some n) {c : Char}
    (hc : c ∈ s) : c.isDigit = true ∨ c = '+' ∨ c = '-' := by
  have hsigned : ∀ sign ds, parseI64.signed sign ds = some n → c ∈ ds → c.isDigit = true := by
    intro sign ds hds hmem
    rw [parseI64.signed] at hds
    split_ifs at hds with hnum
    exact hnum.1.digits c hmem
  rw [parseI64.eq_def] at h
  split at h
  · exact (List.mem_cons.mp hc).elim (fun h' => .inr (.inr h')) fun h' => .inl (hsigned _ _ h h')
  · exact (List.mem_cons.mp hc).elim (fun h' => .inr (.inl h')) fun h' => .inl (hsigned _ _ h h')
  · exact .inl (hsigned _ _ h hc)

/-- A number written without a minus is not negative. -/
theorem parseI64_nonneg {s : List Char} {n : Int} (h : parseI64 s = some n) (hs : '-' ∉ s) :
    0 ≤ n := by
  have hsigned : ∀ ds, parseI64.signed 1 ds = some n → 0 ≤ n := by
    intro ds hds
    rw [parseI64.signed] at hds
    split_ifs at hds with hnum
    have hn := Option.some.inj hds
    omega
  rw [parseI64.eq_def] at h
  split at h
  · exact absurd List.mem_cons_self hs
  · exact hsigned _ h
  · exact hsigned _ h

theorem fits_of_parseI64 {s : List Char} {n : Int} (h : parseI64 s = some n) : FitsI64 n := by
  have hsigned : ∀ sign ds, parseI64.signed sign ds = some n → FitsI64 n := by
    intro sign ds hds
    rw [parseI64.signed] at hds
    split_ifs at hds with hnum
    exact Option.some.inj hds ▸ hnum.2
  rw [parseI64.eq_def] at h
  split at h <;> exact hsigned _ _ h

theorem parseI64_digits {ds : List Char} (h : IsNumeral ds)
    (hfits : FitsI64 (Nat.ofDigitChars 10 ds 0)) :
    parseI64 ds = some (Nat.ofDigitChars 10 ds 0 : Int) := by
  have hone : (1 : Int) * (Nat.ofDigitChars 10 ds 0 : Int) = Nat.ofDigitChars 10 ds 0 := one_mul _
  rw [parseI64.eq_def]
  split
  · exact absurd (h.digits '-' List.mem_cons_self) (by decide)
  · exact absurd (h.digits '+' List.mem_cons_self) (by decide)
  · rw [parseI64.signed, hone, if_pos ⟨h, hfits⟩]

/-- Three numbers with the separator between them and in none. -/
def ThreeWritten (sep : Char) (s : List Char) (n : Int × Int × Int) : Prop :=
  ∃ x y z, s = x ++ sep :: (y ++ sep :: z) ∧ (sep ∉ x ∧ sep ∉ y ∧ sep ∉ z)
    ∧ parseI64 x = some n.1 ∧ parseI64 y = some n.2.1 ∧ parseI64 z = some n.2.2

theorem threeNumbers_iff {sep : Char} {s : List Char} {n : Int × Int × Int} :
    threeNumbers sep s = some n ↔ ThreeWritten sep s n := by
  constructor
  · intro h
    rw [threeNumbers] at h
    split at h
    · rename_i x y z hsplit
      obtain ⟨hs, hnot⟩ := splitOn_eq_three.mp hsplit
      simp only [bind, Option.bind_eq_some_iff, Option.some.injEq] at h
      obtain ⟨a, ha, b, hb, c, hc, rfl⟩ := h
      exact ⟨x, y, z, hs, hnot, ha, hb, hc⟩
    · cases h
  · rintro ⟨x, y, z, hs, hnot, ha, hb, hc⟩
    rw [threeNumbers, splitOn_eq_three.mpr ⟨hs, hnot⟩]
    simp only [ha, hb, hc, bind, Option.bind_some]

/-- Nothing but digits, signs and the separator. -/
theorem ThreeWritten.not_mem {sep c : Char} {s : List Char} {n : Int × Int × Int}
    (h : ThreeWritten sep s n) (hsep : c ≠ sep)
    (hc : ¬ (c.isDigit = true ∨ c = '+' ∨ c = '-')) : c ∉ s := by
  obtain ⟨x, y, z, rfl, -, hx, hy, hz⟩ := h
  have hpart : ∀ {part n}, parseI64 part = some n → c ∉ part := fun hp hmem =>
    hc (parseI64_chars hp hmem)
  simp [hsep, hpart hx, hpart hy, hpart hz]

/-- The text of a fraction, after the seconds. -/
def fracText : Option (List Char) → List Char
  | none => []
  | some ds => '.' :: ds

/-- The text names the fields: a date, a time and perhaps a fraction. -/
def Written (s : String) (f : Fields) : Prop :=
  ∃ date hms, s.toList = date ++ 'T' :: (hms ++ fracText f.frac) ++ ['Z']
    ∧ ThreeWritten '-' date (f.year, f.month, f.day)
    ∧ ThreeWritten ':' hms (f.hour, f.minute, f.second)

theorem stripSuffix_iff {c : Char} {s t : List Char} :
    stripSuffix c s = some t ↔ s = t ++ [c] := by
  rw [stripSuffix]
  constructor
  · intro h
    split_ifs at h with hlast
    obtain rfl := Option.some.inj h
    exact (List.dropLast_append_getLast? c hlast).symm
  · rintro rfl
    simp

/-- A time without a point and its fraction. -/
theorem splitFrac_append {hms : List Char} (frac : Option (List Char)) (hdot : '.' ∉ hms) :
    splitFrac (hms ++ fracText frac) = (hms, frac) := by
  cases frac with
  | none => rw [splitFrac, fracText, List.append_nil, splitOnce_eq_none.mpr hdot]
  | some ds => rw [splitFrac, fracText, splitOnce_append ds hdot]

theorem eq_of_splitFrac (time : List Char) :
    time = (splitFrac time).1 ++ fracText (splitFrac time).2 := by
  rw [splitFrac]
  split
  · rename_i hms frac hsplit
    exact (eq_of_splitOnce hsplit).1
  · exact (List.append_nil time).symm

/-- The fields are read off exactly the texts that name them. -/
theorem fields_iff {s : String} {f : Fields} : fields s = some f ↔ Written s f := by
  constructor
  · intro h
    simp only [fields, bind, Option.bind_eq_some_iff] at h
    obtain ⟨body, hbody, ⟨date, time⟩, htime, ⟨year, month, day⟩, hdate, ⟨hour, minute, second⟩,
      hclock, hf⟩ := h
    obtain rfl := Option.some.inj hf
    refine ⟨date, (splitFrac time).1, ?_, threeNumbers_iff.mp hdate, threeNumbers_iff.mp hclock⟩
    rw [stripSuffix_iff.mp hbody, (eq_of_splitOnce htime).1, ← eq_of_splitFrac]
  · rintro ⟨date, hms, hs, hdate, hclock⟩
    have hT : 'T' ∉ date := hdate.not_mem (by decide) (by decide)
    have hdot : '.' ∉ hms := hclock.not_mem (by decide) (by decide)
    simp only [fields, stripSuffix_iff.mpr hs, splitOnce_append _ hT, splitFrac_append _ hdot,
      threeNumbers_iff.mpr hdate, threeNumbers_iff.mpr hclock, bind, Option.bind_some]

/-! ### The instant -/

/-- The nanoseconds a fraction of at most nine digits names. -/
def fracValue : Option (List Char) → Int
  | none => 0
  | some ds => Nat.ofDigitChars 10 ds 0 * 10 ^ (9 - ds.length)

/-- The day, counted by the calendar. -/
def Fields.days (f : Fields) : Int :=
  Calendar.dayNumber f.year.toNat f.month.toNat f.day.toNat

/-- The whole seconds from the epoch. -/
def Fields.seconds (f : Fields) : Int :=
  f.days * 86400 + f.hour * 3600 + f.minute * 60 + f.second

/-- The nanoseconds from the epoch: the exact instant, whatever its size. -/
def Fields.instant (f : Fields) : Int := f.seconds * 1000000000 + fracValue f.frac

/-- A day of the calendar, a time of the clock, and a fraction of one to nine digits. -/
structure Fields.InRange (f : Fields) : Prop where
  date : Calendar.IsDate f.year.toNat f.month.toNat f.day.toNat
  clock : (0 ≤ f.hour ∧ f.hour ≤ 23) ∧ (0 ≤ f.minute ∧ f.minute ≤ 59)
    ∧ (0 ≤ f.second ∧ f.second ≤ 59)
  frac : ∀ ds, f.frac = some ds → IsNumeral ds ∧ ds.length ≤ 9

/-- The padded fraction is read as the nanoseconds. -/
theorem fracNanos_eq {ds : List Char} (h : IsNumeral ds) (hlen : ds.length ≤ 9) :
    fracNanos (some ds) = .ok (fracValue (some ds)) := by
  have hpadded : IsNumeral (ds ++ List.replicate (9 - ds.length) '0') := by
    refine ⟨fun hnil => h.ne_nil (List.append_eq_nil_iff.mp hnil).1, fun c hc => ?_⟩
    rcases List.mem_append.mp hc with hc | hc
    · exact h.digits c hc
    · rw [(List.mem_replicate.mp hc).2]
      decide
  have hvalue : Nat.ofDigitChars 10 (ds ++ List.replicate (9 - ds.length) '0') 0
      = Nat.ofDigitChars 10 ds 0 * 10 ^ (9 - ds.length) := by
    rw [Nat.ofDigitChars_append, Nat.ofDigitChars_replicate_zero, Nat.mul_comm]
  have hlt := ofDigitChars_lt hpadded.digits
  have hnine : (ds ++ List.replicate (9 - ds.length) '0').length = 9 := by
    rw [List.length_append, List.length_replicate]
    omega
  rw [hnine] at hlt
  have hread := parseI64_digits hpadded ⟨by omega, by omega⟩
  have hok : ¬ (ds = [] ∨ 9 < ds.length ∨ ds.all Char.isDigit = false) := by
    rintro (hnil | hlong | hdigits)
    · exact h.ne_nil hnil
    · omega
    · rw [List.all_eq_true.mpr h.digits] at hdigits
      cases hdigits
  rw [fracNanos, if_neg hok, hread]
  dsimp only
  rw [hvalue, fracValue]
  push_cast
  rfl

/-- A fraction is refused where it is not one to nine digits. -/
theorem fracNanos_of_not {ds : List Char} (h : ¬ (IsNumeral ds ∧ ds.length ≤ 9)) :
    fracNanos (some ds) = .error .rejected := by
  rw [fracNanos, if_pos]
  by_contra hok
  rw [not_or, not_or, Bool.not_eq_false] at hok
  exact h ⟨⟨hok.1, List.all_eq_true.mp hok.2.2⟩, by omega⟩

theorem fracNanos_of_inRange {f : Fields} (h : f.InRange) :
    fracNanos f.frac = .ok (fracValue f.frac) := by
  cases hfrac : f.frac with
  | none => rfl
  | some ds =>
      obtain ⟨hnum, hlen⟩ := h.frac ds hfrac
      exact fracNanos_eq hnum hlen

theorem fracValue_range {f : Fields} (h : f.InRange) :
    0 ≤ fracValue f.frac ∧ fracValue f.frac < 1000000000 := by
  cases hfrac : f.frac with
  | none => exact ⟨le_refl _, by decide⟩
  | some ds =>
      obtain ⟨hnum, hlen⟩ := h.frac ds hfrac
      have hlt := ofDigitChars_lt hnum.digits
      have hpow : 10 ^ ds.length * 10 ^ (9 - ds.length) = 10 ^ 9 := by
        rw [← Nat.pow_add]
        congr 1
        omega
      have hmul := Nat.mul_lt_mul_of_pos_right hlt (Nat.pow_pos (n := 9 - ds.length)
        (by decide : 0 < 10))
      rw [hpow] at hmul
      have hcast : fracValue (some ds)
          = ((Nat.ofDigitChars 10 ds 0 * 10 ^ (9 - ds.length) : Nat) : Int) := by
        rw [fracValue]
        push_cast
        rfl
      rw [hcast]
      exact ⟨Int.natCast_nonneg _, by exact_mod_cast hmul⟩

/-- The seconds of the clock never leave the range. -/
theorem clock_eq {hour minute second : Int} (h : (0 ≤ hour ∧ hour ≤ 23)
    ∧ (0 ≤ minute ∧ minute ≤ 59) ∧ (0 ≤ second ∧ second ≤ 59)) :
    (i64 (hour * 3600) >>= fun hours => i64 (minute * 60)
      >>= fun minutes => i64 (hours + minutes) >>= fun n => i64 (n + second))
      = .ok (hour * 3600 + minute * 60 + second) := by
  obtain ⟨hh, hm, hs⟩ := h
  rw [i64_of_fits ⟨by omega, by omega⟩, ok_bind, i64_of_fits ⟨by omega, by omega⟩, ok_bind,
    i64_of_fits ⟨by omega, by omega⟩, ok_bind, i64_of_fits ⟨by omega, by omega⟩]

/-- Fields out of range are refused. -/
theorem parse_of_not_inRange {s : String} {f : Fields} (hf : fields s = some f)
    (hyear : 0 ≤ f.year) (h : ¬ f.InRange) : parseRfc3339Nanos s = .error .rejected := by
  rw [parseRfc3339Nanos, hf]
  dsimp only
  by_cases hclock : (0 ≤ f.hour ∧ f.hour ≤ 23) ∧ (0 ≤ f.minute ∧ f.minute ≤ 59)
      ∧ (0 ≤ f.second ∧ f.second ≤ 59)
  · rw [if_neg (not_not.mpr hclock)]
    by_cases hfrac : ∀ ds, f.frac = some ds → IsNumeral ds ∧ ds.length ≤ 9
    · have hdate : ¬ Calendar.IsDate f.year.toNat f.month.toNat f.day.toNat := fun hdate =>
        h ⟨hdate, hclock, hfrac⟩
      have hnanos : ∃ n, fracNanos f.frac = .ok n := by
        cases hds : f.frac with
        | none => exact ⟨0, rfl⟩
        | some ds =>
            obtain ⟨hnum, hlen⟩ := hfrac ds hds
            exact ⟨_, fracNanos_eq hnum hlen⟩
      obtain ⟨n, hn⟩ := hnanos
      rw [hn, ok_bind, daysFromCivil_of_not hyear hdate]
      rfl
    · push Not at hfrac
      obtain ⟨ds, hds, hbad⟩ := hfrac
      rw [hds, fracNanos_of_not fun hgood => absurd hgood.2 (not_le.mpr (hbad hgood.1))]
      rfl
  · exact if_pos hclock

theorem checked_of_fits {x : Int} (h : FitsI64 x) : checked x = .ok x := if_pos h

theorem checked_of_not {x : Int} (h : ¬ FitsI64 x) : checked x = .error .rejected := if_neg h

/-- The checked steps after the day number, in a row: they give the instant where the whole
second and the instant both fit. -/
theorem instant_eq (days frac : Int) {clock : Int} (hclock : 0 ≤ clock ∧ clock < 86400) :
    (checked (days * 86400) >>= fun secs => (.ok clock : Except Stop Int) >>= fun clock =>
      checked (secs + clock) >>= fun secs => checked (secs * 1000000000) >>= fun nanos =>
      checked (nanos + frac) >>= fun nanos => .ok (Timestamp.mk (Int64.ofInt nanos)))
      = if FitsI64 ((days * 86400 + clock) * 1000000000)
            ∧ FitsI64 ((days * 86400 + clock) * 1000000000 + frac) then
          .ok ⟨Int64.ofInt ((days * 86400 + clock) * 1000000000 + frac)⟩
        else .error .rejected := by
  by_cases hnanos : FitsI64 ((days * 86400 + clock) * 1000000000)
  · obtain ⟨hlo, hhi⟩ := hnanos
    rw [checked_of_fits ⟨by omega, by omega⟩, ok_bind, ok_bind,
      checked_of_fits ⟨by omega, by omega⟩, ok_bind, checked_of_fits ⟨hlo, hhi⟩, ok_bind]
    by_cases hinstant : FitsI64 ((days * 86400 + clock) * 1000000000 + frac)
    · rw [checked_of_fits hinstant, ok_bind, if_pos ⟨⟨hlo, hhi⟩, hinstant⟩]
    · rw [checked_of_not hinstant, if_neg fun h => hinstant h.2]
      rfl
  · rw [if_neg fun h => hnanos h.1]
    by_cases hdays : FitsI64 (days * 86400)
    · rw [checked_of_fits hdays, ok_bind, ok_bind]
      by_cases hsecs : FitsI64 (days * 86400 + clock)
      · rw [checked_of_fits hsecs, ok_bind, checked_of_not hnanos]
        rfl
      · rw [checked_of_not hsecs]
        rfl
    · rw [checked_of_not hdays]
      rfl

/-- Fields in range give the day number's overflow, the exact instant, or nothing. -/
theorem parse_of_inRange {s : String} {f : Fields} (hf : fields s = some f)
    (hyear : 0 ≤ f.year ∧ f.year < 2 ^ 63) (h : f.InRange) :
    parseRfc3339Nanos s
      = if FitsI64 (f.days + 719468) then
          if FitsI64 (f.seconds * 1000000000) ∧ FitsI64 f.instant then
            .ok ⟨Int64.ofInt f.instant⟩
          else .error .rejected
        else .error .overflowed := by
  have hmonth := h.date.month.1
  have hdayPos := h.date.day.1
  have hdays := daysFromCivil_of_date (by omega) h.date
  rw [Int.toNat_of_nonneg hyear.1, Int.toNat_of_nonneg (by omega), Int.toNat_of_nonneg (by omega)]
    at hdays
  have hclock := clock_eq h.clock
  have hseconds : f.days * 86400 + (f.hour * 3600 + f.minute * 60 + f.second) = f.seconds := by
    rw [Fields.seconds]
    omega
  have hday : 0 ≤ f.hour * 3600 + f.minute * 60 + f.second
      ∧ f.hour * 3600 + f.minute * 60 + f.second < 86400 := by
    obtain ⟨hh, hm, hs⟩ := h.clock
    omega
  -- in range, the only arithmetic that can overflow is the day number's and the instant's
  have hinstant := instant_eq f.days (fracValue f.frac) hday
  rw [hseconds] at hinstant
  rw [parseRfc3339Nanos, hf]
  dsimp only
  rw [if_neg (not_not.mpr h.clock), fracNanos_of_inRange h, ok_bind, hdays]
  by_cases hfits : FitsI64 (f.days + 719468)
  · rw [if_pos hfits]
    rw [Fields.days] at hfits
    rw [if_pos hfits, ok_bind, hclock]
    exact hinstant
  · rw [if_neg hfits]
    rw [Fields.days] at hfits
    rw [if_neg hfits]
    rfl

/-- A year is written without a sign that would make it negative, and read as an `i64`. -/
theorem Written.year {s : String} {f : Fields} (h : Written s f) :
    0 ≤ f.year ∧ f.year < 2 ^ 63 := by
  obtain ⟨date, hms, -, ⟨x, y, z, -, ⟨hx, -⟩, hread, -⟩, -⟩ := h
  exact ⟨parseI64_nonneg hread hx, (fits_of_parseI64 hread).2⟩

theorem parse_of_not_fields {s : String} (h : fields s = none) :
    parseRfc3339Nanos s = .error .rejected := by
  rw [parseRfc3339Nanos, h]

/-- Whatever the parser does but refuse, it does to a text that names fields in range. -/
theorem exists_written {s : String} (h : parseRfc3339Nanos s ≠ .error .rejected) :
    ∃ f, Written s f ∧ f.InRange := by
  cases hf : fields s with
  | none => exact absurd (parse_of_not_fields hf) h
  | some f =>
      have hwritten := fields_iff.mp hf
      refine ⟨f, hwritten, ?_⟩
      by_contra hrange
      exact h (parse_of_not_inRange hf hwritten.year.1 hrange)

/-- The parser is exact on a text: it gives an instant where the text names one that fits, the
instant it names, and no step overflows. -/
def Exact (s : String) : Prop :=
  (∀ t : Timestamp, parseRfc3339Nanos s = .ok t
    ↔ ∃ f, Written s f ∧ f.InRange ∧ t.toInt = f.instant)
  ∧ parseRfc3339Nanos s ≠ .error .overflowed

/-- The text names a date 2^63 days or more after the first of March of the year zero, or an
instant within the earliest second of the range, which begins before the range does. -/
def Misread (s : String) : Prop :=
  ∃ f, Written s f ∧ f.InRange ∧ (2 ^ 63 ≤ f.days + 719468
    ∨ (-2 ^ 63 ≤ f.instant ∧ f.instant < -9223372036 * 1000000000))

theorem toInt_ofInt {x : Int} (h : FitsI64 x) : (Timestamp.mk (Int64.ofInt x)).toInt = x :=
  Int64.toInt_ofInt_of_le h.1 h.2

theorem days_ge (f : Fields) : -719529 ≤ f.days := by
  have hepoch : (Calendar.daysBeforeYear 1970 : Int) = 719528 := by
    rw [Calendar.daysBeforeYear_eq]
    rfl
  rw [Fields.days, Calendar.dayNumber]
  omega

/-- Where the whole second of an instant that fits does not, it is the earliest. -/
theorem edge_iff {f : Fields} (h : f.InRange) :
    (FitsI64 f.instant ∧ ¬ FitsI64 (f.seconds * 1000000000))
      ↔ -2 ^ 63 ≤ f.instant ∧ f.instant < -9223372036 * 1000000000 := by
  obtain ⟨hlo, hhi⟩ := fracValue_range h
  simp only [FitsI64, Fields.instant]
  omega

/-- The parser is exact on every text but those it misreads. -/
theorem exact_iff (s : String) : Exact s ↔ ¬ Misread s := by
  constructor
  · rintro ⟨hiff, hsteps⟩ ⟨f, hwritten, hrange, hfar | hedge⟩
    · refine hsteps ?_
      rw [parse_of_inRange (fields_iff.mpr hwritten) hwritten.year hrange,
        if_neg fun hfits => absurd hfits.2 (not_lt.mpr hfar)]
    · obtain ⟨hfits, hsecond⟩ := (edge_iff hrange).mpr hedge
      have hok := (hiff ⟨Int64.ofInt f.instant⟩).mpr ⟨f, hwritten, hrange, toInt_ofInt hfits⟩
      rw [parse_of_inRange (fields_iff.mpr hwritten) hwritten.year hrange] at hok
      split_ifs at hok with hdays hall
      exact hsecond hall.1
  · intro hread
    -- What a text that names fields in range gives, when it is not misread.
    have hparse : ∀ f, Written s f → f.InRange → parseRfc3339Nanos s
        = if FitsI64 f.instant then .ok ⟨Int64.ofInt f.instant⟩ else .error .rejected := by
      intro f hwritten hrange
      have hdays : FitsI64 (f.days + 719468) := by
        have hge := days_ge f
        refine ⟨by omega, ?_⟩
        by_contra hfar
        exact hread ⟨f, hwritten, hrange, .inl (not_lt.mp hfar)⟩
      rw [parse_of_inRange (fields_iff.mpr hwritten) hwritten.year hrange, if_pos hdays]
      by_cases hfits : FitsI64 f.instant
      · have hsecond : FitsI64 (f.seconds * 1000000000) := by
          by_contra hnot
          exact hread ⟨f, hwritten, hrange, .inr ((edge_iff hrange).mp ⟨hfits, hnot⟩)⟩
        rw [if_pos ⟨hsecond, hfits⟩, if_pos hfits]
      · rw [if_neg fun h => hfits h.2, if_neg hfits]
    refine ⟨fun t => ⟨fun hok => ?_, ?_⟩, fun hover => ?_⟩
    · obtain ⟨f, hwritten, hrange⟩ := exists_written (s := s) (by rw [hok]; simp)
      rw [hparse f hwritten hrange] at hok
      split_ifs at hok with hfits
      rw [← Except.ok.inj hok]
      exact ⟨f, hwritten, hrange, toInt_ofInt hfits⟩
    · rintro ⟨f, hwritten, hrange, ht⟩
      have hfits : FitsI64 f.instant := ht ▸ ⟨t.le_toInt, t.toInt_lt⟩
      rw [hparse f hwritten hrange, if_pos hfits]
      exact congrArg Except.ok (Timestamp.toInt_injective ((toInt_ofInt hfits).trans ht.symm))
    · obtain ⟨f, hwritten, hrange⟩ := exists_written (s := s) (by rw [hover]; simp)
      rw [hparse f hwritten hrange] at hover
      split_ifs at hover
      cases hover

/-- The eras of a year far enough off overflow before anything is checked; these wrap round to
a day of the year 2091. -/
theorem far_year_not_exact : ¬ Exact "50505469855535200-03-01T00:00:00Z" := fun h =>
  h.2 (by decide +kernel)

end Rfc3339

end Datamancer
