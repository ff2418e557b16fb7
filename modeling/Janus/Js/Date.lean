import Janus.Js.Text
import Mathlib.Tactic.Ring
import Mathlib.Tactic.Positivity

/-!
# Js/Date — a moment as text, in UTC

The calendar counts in eras of four hundred years from the first of March, so that a leap day is the
last of its year.  A moment written is read back (`parse_toISOString`).
-/

namespace Js

namespace Date

/-! ## The calendar -/

/-- A day of the calendar. -/
structure Civil where
  year : ℤ
  month : ℕ
  day : ℕ
deriving DecidableEq

/-- The year of an era that its day is of: by centuries, then by fours. -/
def yearOfEra (day : ℕ) : ℕ :=
  let century := min (day / 36524) 3
  let ofCentury := day - 36524 * century
  let four := ofCentury / 1461
  100 * century + 4 * four + min ((ofCentury - 1461 * four) / 365) 3

/-- The first day of a year of an era. -/
def firstDay (year : ℕ) : ℕ := 365 * year + year / 4 - year / 100

/-- The day that is so many after the epoch. -/
def civil (days : ℤ) : Civil :=
  let era := (days + 719468) / 146097
  let ofEra := ((days + 719468) % 146097).toNat
  let ofYear := ofEra - firstDay (yearOfEra ofEra)
  let march := (5 * ofYear + 2) / 153
  { year := era * 400 + yearOfEra ofEra + if march < 10 then 0 else 1
    month := if march < 10 then march + 3 else march - 9
    day := ofYear - (153 * march + 2) / 5 + 1 }

/-- How many days after the epoch a day is. -/
def daysOf (date : Civil) : ℤ :=
  let year := if date.month ≤ 2 then date.year - 1 else date.year
  let march := if date.month ≤ 2 then date.month + 9 else date.month - 3
  year / 400 * 146097 + firstDay (year % 400).toNat + ((153 * march + 2) / 5 + date.day - 1 : ℕ) -
    719468

/-- A day of an era is one of three hundred and sixty-six of its year. -/
theorem yearOfEra_spec (day : ℕ) (h : day < 146097) :
    yearOfEra day < 400 ∧ firstDay (yearOfEra day) ≤ day ∧
    day < firstDay (yearOfEra day) + 366 := by
  simp only [yearOfEra]
  generalize hcentury : min (day / 36524) 3 = century
  generalize hrest : day - 36524 * century = ofCentury
  generalize hfour : ofCentury / 1461 = four
  generalize hyear : min ((ofCentury - 1461 * four) / 365) 3 = year
  have hcentury_le : century ≤ 3 := by omega
  have hyear_le : year ≤ 3 := by omega
  have hofCentury : day = 36524 * century + ofCentury ∧ ofCentury < 36525 := by omega
  have hfour_le : four ≤ 24 := by omega
  have hfirst : firstDay (100 * century + 4 * four + year) =
      36524 * century + 1461 * four + 365 * year := by
    have hfours : (100 * century + 4 * four + year) / 4 = 25 * century + four := by omega
    have hcenturies : (100 * century + 4 * four + year) / 100 = century := by omega
    rw [firstDay, hfours, hcenturies]
    omega
  rw [hfirst]
  omega

/-- The month and the day of a day of the year. -/
theorem march_spec (ofYear : ℕ) (h : ofYear < 366) :
    (5 * ofYear + 2) / 153 < 12 ∧ (153 * ((5 * ofYear + 2) / 153) + 2) / 5 ≤ ofYear ∧
      ofYear < (153 * ((5 * ofYear + 2) / 153) + 2) / 5 + 31 := by omega

/-- A day of the calendar is a month's, and its month a year's. -/
theorem civil_spec (days : ℤ) : 1 ≤ (civil days).month ∧ (civil days).month ≤ 12 ∧
    1 ≤ (civil days).day ∧ (civil days).day ≤ 31 := by
  simp only [civil]
  generalize hday : ((days + 719468) % 146097).toNat = ofEra
  have hyear := yearOfEra_spec ofEra (by omega)
  have hmarch := march_spec (ofEra - firstDay (yearOfEra ofEra)) (by omega)
  split_ifs <;> omega

theorem daysOf_march (era : ℤ) {year march ofYear : ℕ} (hyear : year < 400) (hmarch : march < 12)
    (hle : (153 * march + 2) / 5 ≤ ofYear) :
    daysOf ⟨era * 400 + year + if march < 10 then 0 else 1,
      if march < 10 then march + 3 else march - 9, ofYear - (153 * march + 2) / 5 + 1⟩ =
      era * 146097 + firstDay year + ofYear - 719468 := by
  have hdiv : (era * 400 + year) / 400 = era := by omega
  have hmod : ((era * 400 + year) % 400).toNat = year := by omega
  have hday : (153 * march + 2) / 5 + (ofYear - (153 * march + 2) / 5 + 1) - 1 = ofYear := by omega
  rw [daysOf]
  by_cases h : march < 10
  · have hmonth : ¬ march + 3 ≤ 2 := by omega
    simp only [if_pos h, if_neg hmonth, Int.add_zero, hdiv, hmod, Nat.add_sub_cancel, hday]
  · have hmonth : march - 9 ≤ 2 := by omega
    have hnine : march - 9 + 9 = march := by omega
    simp only [if_neg h, if_pos hmonth, Int.add_sub_cancel, hdiv, hmod, hnine, hday]

/-- **A day is as many days after the epoch as it was made of.** -/
theorem daysOf_civil (days : ℤ) : daysOf (civil days) = days := by
  obtain ⟨hlt, hle, hgt⟩ := yearOfEra_spec ((days + 719468) % 146097).toNat (by omega)
  have hmarch := march_spec (((days + 719468) % 146097).toNat -
    firstDay (yearOfEra ((days + 719468) % 146097).toNat)) (by omega)
  rw [civil, daysOf_march _ hlt hmarch.1 hmarch.2.1]
  omega

theorem year_natAbs_lt (days : ℤ) (h : -100000001 ≤ days) (h' : days ≤ 100000001) :
    (civil days).year.natAbs < 10 ^ 6 := by
  obtain ⟨hlt, -, -⟩ := yearOfEra_spec ((days + 719468) % 146097).toNat (by omega)
  simp only [civil]
  split_ifs <;> omega

/-! ## Digits -/

/-- A digit. -/
def digit (n : ℕ) : CodeUnit := Fin.ofNat 65536 (48 + n)

/-- The last so many digits of a number. -/
def pad : ℕ → ℕ → Str
  | 0, _ => []
  | n + 1, v => digit (v / 10 ^ n % 10) :: pad n (v % 10 ^ n)

/-- So many digits read, after a number read so far. -/
def readDigits : ℕ → ℕ → Str → Option (ℕ × Str)
  | 0, read, text => some (read, text)
  | _ + 1, _, [] => none
  | n + 1, read, u :: text =>
    if 48 ≤ u.val ∧ u.val ≤ 57 then readDigits n (read * 10 + (u.val - 48)) text else none

/-- A mark, and so many digits after it. -/
def readField (mark : CodeUnit) (n : ℕ) : Str → Option (ℕ × Str)
  | [] => none
  | u :: text => if u = mark then readDigits n 0 text else none

theorem digit_val {n : ℕ} (h : n < 10) : (digit n).val = 48 + n := Nat.mod_eq_of_lt (by omega)

theorem readDigits_pad {n v : ℕ} (h : v < 10 ^ n) (read : ℕ) (rest : Str) :
    readDigits n read (pad n v ++ rest) = some (read * 10 ^ n + v, rest) := by
  induction n generalizing v read with
  | zero =>
    obtain rfl : v = 0 := by omega
    rw [pow_zero, Nat.mul_one]
    rfl
  | succ n ih =>
    have hpos : 0 < 10 ^ n := by positivity
    have hdigit : v / 10 ^ n < 10 := Nat.div_lt_of_lt_mul (by rwa [← pow_succ])
    have hval := digit_val (Nat.mod_lt (v / 10 ^ n) (by decide : 0 < 10))
    rw [pad, List.cons_append, readDigits, if_pos (by omega), ih (Nat.mod_lt _ hpos), hval,
      Nat.mod_eq_of_lt hdigit]
    refine congrArg (fun n => some (n, rest)) ?_
    calc (read * 10 + (48 + v / 10 ^ n - 48)) * 10 ^ n + v % 10 ^ n
        = read * 10 ^ (n + 1) + (10 ^ n * (v / 10 ^ n) + v % 10 ^ n) := by
          rw [Nat.add_sub_cancel_left, pow_succ]
          ring
      _ = read * 10 ^ (n + 1) + v := by rw [Nat.div_add_mod]

/-! ## A moment written and read -/

/-- As far as a date may be from the epoch. -/
def IsMoment (t : ℤ) : Prop := -8640000000000000 ≤ t ∧ t ≤ 8640000000000000

instance (t : ℤ) : Decidable (IsMoment t) := inferInstanceAs (Decidable (_ ∧ _))

theorem isMoment_zero : IsMoment 0 := by decide

/-- A year, in four digits, or in six with a sign. -/
def yearText (year : ℤ) : Str :=
  if 0 ≤ year ∧ year ≤ 9999 then pad 4 year.toNat
  else (if year < 0 then 45 else 43) :: pad 6 year.natAbs

def readYear : Str → Option (ℤ × Str)
  | [] => none
  | u :: text =>
    if u = 43 then (readDigits 6 0 text).map fun q => (q.1, q.2)
    else if u = 45 then
      (readDigits 6 0 text).bind fun q => if q.1 = 0 then none else some (-q.1, q.2)
    else (readDigits 4 0 (u :: text)).map fun q => (q.1, q.2)

/-- `toISOString()`. -/
def toISOString (t : ℤ) : Str :=
  let date := civil (t / 86400000)
  let ofDay := (t % 86400000).toNat
  yearText date.year ++ 45 :: (pad 2 date.month ++ 45 :: (pad 2 date.day ++ 84 ::
    (pad 2 (ofDay / 3600000) ++ 58 :: (pad 2 (ofDay / 60000 % 60) ++ 58 ::
      (pad 2 (ofDay / 1000 % 60) ++ 46 :: (pad 3 (ofDay % 1000) ++ [90]))))))

/-- The moment of a text as `toISOString()` writes them. -/
def readISO (text : Str) : Option ℤ := do
  let (year, text) ← readYear text
  let (month, text) ← readField 45 2 text
  let (day, text) ← readField 45 2 text
  let (hour, text) ← readField 84 2 text
  let (minute, text) ← readField 58 2 text
  let (second, text) ← readField 58 2 text
  let (ms, text) ← readField 46 3 text
  let days := daysOf ⟨year, month, day⟩
  let t := days * 86400000 + (hour * 3600000 + minute * 60000 + second * 1000 + ms : ℕ)
  if text = [90] ∧ civil days = ⟨year, month, day⟩ ∧ hour < 24 ∧ minute < 60 ∧
    second < 60 ∧ IsMoment t
  then some t else none

/-- `Date.parse`: the rest of what a runtime reads is its own. -/
def parse (otherwise : Str → Option ℤ) (text : Str) : Option ℤ := (readISO text).or (otherwise text)

theorem readYear_yearText {year : ℤ} (h : year.natAbs < 10 ^ 6) (rest : Str) :
    readYear (yearText year ++ rest) = some (year, rest) := by
  rw [yearText]
  split_ifs with hplain hneg
  case pos =>
    have hfour : year.toNat < 10 ^ 4 := by omega
    have hread := readDigits_pad hfour 0 rest
    have hval := digit_val (Nat.mod_lt (year.toNat / 10 ^ 3) (by decide : 0 < 10))
    rw [pad, List.cons_append] at hread ⊢
    have hplus : digit (year.toNat / 10 ^ 3 % 10) ≠ 43 := fun heq => by
      rw [heq] at hval
      exact absurd hval (by change 43 ≠ _; omega)
    have hminus : digit (year.toNat / 10 ^ 3 % 10) ≠ 45 := fun heq => by
      rw [heq] at hval
      exact absurd hval (by change 45 ≠ _; omega)
    rw [readYear, if_neg hplus, if_neg hminus, hread]
    simp only [Option.map_some, Nat.zero_mul, Nat.zero_add, Int.toNat_of_nonneg hplain.1]
  case pos =>
    have hread := readDigits_pad h 0 rest
    have hne : year.natAbs ≠ 0 := by omega
    rw [List.cons_append, readYear, if_neg (by decide), if_pos rfl, hread, Nat.zero_mul,
      Nat.zero_add,
      Option.bind_some, if_neg hne, Int.ofNat_natAbs_of_nonpos hneg.le, Int.neg_neg]
  case neg =>
    have hread := readDigits_pad h 0 rest
    rw [List.cons_append, readYear, if_pos rfl, hread, Nat.zero_mul, Nat.zero_add, Option.map_some,
      Int.natAbs_of_nonneg (not_lt.mp hneg)]

theorem readField_pad {mark : CodeUnit} {n v : ℕ} (h : v < 10 ^ n) (rest : Str) :
    readField mark n (mark :: (pad n v ++ rest)) = some (v, rest) := by
  rw [readField, if_pos rfl, readDigits_pad h, Nat.zero_mul, Nat.zero_add]

/-- **A moment written is read back.** -/
theorem readISO_toISOString {t : ℤ} (h : IsMoment t) : readISO (toISOString t) = some t := by
  have hyear := year_natAbs_lt (t / 86400000) (by have := h.1; omega) (by have := h.2; omega)
  obtain ⟨-, hmonth, -, hday⟩ := civil_spec (t / 86400000)
  rw [readISO, toISOString]
  generalize hofDay : (t % 86400000).toNat = ofDay
  have hhour : ofDay / 3600000 < 24 := by omega
  have htotal : (ofDay / 3600000 * 3600000 + ofDay / 60000 % 60 * 60000 + ofDay / 1000 % 60 * 1000 +
      ofDay % 1000 : ℕ) = ofDay := by omega
  have hsum : t / 86400000 * 86400000 + (ofDay : ℤ) = t := by omega
  change (readYear _).bind _ = _
  rw [readYear_yearText hyear, Option.bind_some]
  change (readField 45 2 _).bind _ = _
  rw [readField_pad (by omega), Option.bind_some]
  change (readField 45 2 _).bind _ = _
  rw [readField_pad (by omega), Option.bind_some]
  change (readField 84 2 _).bind _ = _
  rw [readField_pad (by omega), Option.bind_some]
  change (readField 58 2 _).bind _ = _
  rw [readField_pad (by omega), Option.bind_some]
  change (readField 58 2 _).bind _ = _
  rw [readField_pad (by omega), Option.bind_some]
  change (readField 46 3 _).bind _ = _
  rw [readField_pad (by omega), Option.bind_some]
  change (if _ then some (daysOf (civil (t / 86400000)) * 86400000 + _) else none) = _
  rw [htotal, daysOf_civil, hsum, if_pos]
  exact ⟨rfl, rfl, hhour, by omega, by omega, h⟩

/-- …whatever else a runtime reads. -/
theorem parse_toISOString {t : ℤ} (h : IsMoment t) (otherwise : Str → Option ℤ) :
    parse otherwise (toISOString t) = some t := by
  rw [parse, readISO_toISOString h, Option.some_or]

example : toISOString 951782400000 = js "2000-02-29T00:00:00.000Z" := by decide +kernel

end Date

end Js
