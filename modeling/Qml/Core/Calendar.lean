import Qml.Core.Time
import Qml.Lib.Digits

namespace Qml.DateTime
open Lib

/-- The year of a day inside the 400-year era, as `civil` computes it. -/
def yearOfEra (doe : Nat) : Nat := (doe - doe / 1460 + doe / 36524 - doe / 146096) / 365

def dayOfYear (doe : Nat) : Nat :=
  doe - (365 * yearOfEra doe + yearOfEra doe / 4 - yearOfEra doe / 100)

/-- Centuries, spans of four years, and what is left of them. -/
theorem yearOfEra_eq {c q s : Nat} (hc : c ≤ 3) (hq : q ≤ 24) (hs : s ≤ 1460)
    (hr : 1461 * q + s < 36524) :
    yearOfEra (36524 * c + 1461 * q + s) = 100 * c + 4 * q + min (s / 365) 3 := by
  have hcentury : (36524 * c + 1461 * q + s) / 36524 = c := by omega
  have hera : (36524 * c + 1461 * q + s) / 146096 = 0 := by omega
  have hfour : (36524 * c + 1461 * q + s) / 1460 = 25 * c + q + (24 * c + q + s) / 1460 := by
    omega
  rw [yearOfEra, hcentury, hera, hfour]
  by_cases hleap : 24 * c + q + s < 1460
  · rw [Nat.div_eq_of_lt hleap]
    omega
  · have hone : (24 * c + q + s) / 1460 = 1 := by omega
    rw [hone]
    omega

theorem yearOfEra_bounds {doe : Nat} (h : doe < 146097) :
    365 * yearOfEra doe + yearOfEra doe / 4 - yearOfEra doe / 100 ≤ doe ∧
      doe ≤ 365 * yearOfEra doe + yearOfEra doe / 4 - yearOfEra doe / 100 + 365 ∧
      yearOfEra doe < 400 := by
  by_cases hlast : doe = 146096
  · subst hlast
    decide
  · obtain ⟨c, r, hc, hr, rfl⟩ : ∃ c r, c ≤ 3 ∧ r < 36524 ∧ doe = 36524 * c + r :=
      ⟨doe / 36524, doe % 36524, by omega, by omega, by omega⟩
    obtain ⟨q, s, hq, hs, rfl⟩ : ∃ q s, q ≤ 24 ∧ s ≤ 1460 ∧ r = 1461 * q + s :=
      ⟨r / 1461, r % 1461, by omega, by omega, by omega⟩
    obtain ⟨j, hj, hj3, hlow, hhigh⟩ : ∃ j, min (s / 365) 3 = j ∧ j ≤ 3 ∧ 365 * j ≤ s ∧
        s ≤ 365 * j + 365 := ⟨_, rfl, by omega, by omega, by omega⟩
    have hfour : (100 * c + 4 * q + j) / 4 = 25 * c + q := by omega
    have hhundred : (100 * c + 4 * q + j) / 100 = c := by omega
    rw [← Nat.add_assoc, yearOfEra_eq hc hq hs hr, hj, hfour, hhundred]
    omega

theorem yearOfEra_mono {doe doe' : Nat} (h : doe ≤ doe') : yearOfEra doe ≤ yearOfEra doe' := by
  induction h with
  | refl => exact Nat.le_refl _
  | step _ ih =>
    refine ih.trans ?_
    unfold yearOfEra
    omega

/-- A later day of the era is in a later year, or later in the same one. -/
theorem dayOfYear_lt {doe doe' : Nat} (h : doe < doe') (hdoe' : doe' < 146097) :
    yearOfEra doe < yearOfEra doe' ∨
      yearOfEra doe = yearOfEra doe' ∧ dayOfYear doe < dayOfYear doe' := by
  rcases (yearOfEra_mono h.le).lt_or_eq with hyear | hyear
  · exact .inl hyear
  · have hbounds := yearOfEra_bounds (h.trans hdoe')
    refine .inr ⟨hyear, ?_⟩
    rw [dayOfYear, dayOfYear, ← hyear]
    omega

/-- The parts of a date: a year counted from March, its month and its day. -/
def marchDate (day : Int) : Int × Nat × Nat :=
  let doe := ((day + 719468).fmod 146097).toNat
  let mp := (5 * dayOfYear doe + 2) / 153
  (yearOfEra doe + (day + 719468).fdiv 146097 * 400, mp, dayOfYear doe - (153 * mp + 2) / 5)

theorem civil_eq (day : Int) : civil day =
    let (y, mp, d) := marchDate day
    let m := if mp < 10 then mp + 3 else mp - 9
    (y + (if m ≤ 2 then 1 else 0), m, d + 1) := rfl

theorem marchDate_bounds (day : Int) : (marchDate day).2.1 ≤ 11 ∧ (marchDate day).2.2 ≤ 30 := by
  have hdoe : ((day + 719468).fmod 146097).toNat < 146097 := by
    have := Int.fmod_lt_of_pos (day + 719468) (by decide : (0 : Int) < 146097)
    omega
  have hbounds := yearOfEra_bounds hdoe
  simp only [marchDate, dayOfYear]
  omega

theorem marchDate_lt {day day' : Int} (h : day < day') :
    (marchDate day).1 < (marchDate day').1 ∨ (marchDate day).1 = (marchDate day').1 ∧
      ((marchDate day).2.1 < (marchDate day').2.1 ∨ (marchDate day).2.1 = (marchDate day').2.1 ∧
        (marchDate day).2.2 < (marchDate day').2.2) := by
  have hsplit := Int.mul_fdiv_add_fmod (day + 719468) 146097
  have hsplit' := Int.mul_fdiv_add_fmod (day' + 719468) 146097
  have hlow := Int.fmod_nonneg_of_pos (day + 719468) (by decide : (0 : Int) < 146097)
  have hlow' := Int.fmod_nonneg_of_pos (day' + 719468) (by decide : (0 : Int) < 146097)
  have hhigh := Int.fmod_lt_of_pos (day + 719468) (by decide : (0 : Int) < 146097)
  have hhigh' := Int.fmod_lt_of_pos (day' + 719468) (by decide : (0 : Int) < 146097)
  simp only [marchDate]
  generalize (day + 719468).fdiv 146097 = era, (day + 719468).fmod 146097 = doe,
    (day' + 719468).fdiv 146097 = era', (day' + 719468).fmod 146097 = doe' at *
  have hyear := (yearOfEra_bounds (by omega : doe.toNat < 146097)).2.2
  rcases (by omega : era < era' ∨ era = era') with hera | rfl
  · exact .inl (by omega)
  · rcases dayOfYear_lt (by omega : doe.toNat < doe'.toNat) (by omega) with hlt | ⟨hsame, hday⟩
    · exact .inl (by omega)
    · refine .inr ⟨by rw [hsame], ?_⟩
      have hin := yearOfEra_bounds (by omega : doe.toNat < 146097)
      simp only [dayOfYear] at *
      omega

/-- Later days have later dates. -/
theorem civil_lt {day day' : Int} (h : day < day') :
    (civil day).1 < (civil day').1 ∨ (civil day).1 = (civil day').1 ∧
      ((civil day).2.1 < (civil day').2.1 ∨ (civil day).2.1 = (civil day').2.1 ∧
        (civil day).2.2 < (civil day').2.2) := by
  have hlt := marchDate_lt h
  have hbounds := marchDate_bounds day
  have hbounds' := marchDate_bounds day'
  rw [civil_eq, civil_eq]
  generalize marchDate day = date, marchDate day' = date' at *
  obtain ⟨y, mp, d⟩ := date
  obtain ⟨y', mp', d'⟩ := date'
  dsimp only at *
  split <;> split <;> split <;> split <;> omega

theorem civil_bounds (day : Int) : (civil day).2.1 < 10 ^ 2 ∧ (civil day).2.2 < 10 ^ 2 := by
  have hbounds := marchDate_bounds day
  rw [civil_eq]
  generalize marchDate day = date at *
  obtain ⟨y, mp, d⟩ := date
  dsimp only at *
  split <;> omega

/-- The second an instant lies in, its day, and the second of that day. -/
def second (t : DateTime) : Int := t.fdiv Duration.nanosPerSecond

def day (t : DateTime) : Int := t.second.fdiv 86400

def secondOfDay (t : DateTime) : Nat := (t.second.fmod 86400).toNat

/-- The instants whose year is written with four digits and no sign. -/
def InYears (t : DateTime) : Prop := 0 ≤ (civil t.day).1 ∧ (civil t.day).1 ≤ 9999

instance : DecidablePred InYears := fun _ => instDecidableAnd

theorem pad_toList {width n : Nat} (hwidth : 0 < width) (hn : n < 10 ^ width) :
    (pad width n).toList = digits width n := by
  rw [pad, String.toList_append, String.toList_ofList, Nat.toString_eq_ofList_toDigits,
    String.length_ofList, String.toList_ofList, replicate_append_toDigits hwidth hn]

theorem secondOfDay_lt (t : DateTime) : t.secondOfDay < 86400 := by
  have := Int.fmod_lt_of_pos t.second (by decide : (0 : Int) < 86400)
  simp only [secondOfDay]
  omega

/-- Later seconds of a day show a later time. -/
theorem clock_lt {s s' : Nat} (h : s < s') : s / 3600 < s' / 3600 ∨ s / 3600 = s' / 3600 ∧
    (s / 60 % 60 < s' / 60 % 60 ∨ s / 60 % 60 = s' / 60 % 60 ∧ s % 60 < s' % 60) := by
  obtain ⟨minute, x, hx, rfl⟩ : ∃ minute x, x < 60 ∧ s = 60 * minute + x :=
    ⟨s / 60, s % 60, by omega, by omega⟩
  obtain ⟨minute', x', hx', rfl⟩ : ∃ minute x, x < 60 ∧ s' = 60 * minute + x :=
    ⟨s' / 60, s' % 60, by omega, by omega⟩
  have hminute : (60 * minute + x) / 60 = minute := by omega
  have hminute' : (60 * minute' + x') / 60 = minute' := by omega
  have hhour : (60 * minute + x) / 3600 = minute / 60 := by omega
  have hhour' : (60 * minute' + x') / 3600 = minute' / 60 := by omega
  rw [hminute, hminute', hhour, hhour']
  omega

theorem calendar_toList {t : DateTime} (h : t.InYears) : t.calendar.toList =
    digits 4 (civil t.day).1.toNat ++ '-' :: (digits 2 (civil t.day).2.1 ++ '-' ::
      (digits 2 (civil t.day).2.2 ++ 'T' :: (digits 2 (t.secondOfDay / 3600) ++ ':' ::
        (digits 2 (t.secondOfDay / 60 % 60) ++ ':' :: digits 2 (t.secondOfDay % 60))))) := by
  obtain ⟨hlow, hhigh⟩ := h
  have hcivil := civil_bounds t.day
  have hday := t.secondOfDay_lt
  have hyear : year (civil t.day).1 = pad 4 (civil t.day).1.toNat := if_pos ⟨hlow, hhigh⟩
  have htext : t.calendar = year (civil t.day).1 ++ "-" ++ pad 2 (civil t.day).2.1 ++ "-" ++
      pad 2 (civil t.day).2.2 ++ "T" ++ pad 2 (t.secondOfDay / 3600) ++ ":" ++
      pad 2 (t.secondOfDay / 60 % 60) ++ ":" ++ pad 2 (t.secondOfDay % 60) := rfl
  rw [htext, hyear]
  simp only [String.toList_append]
  rw [pad_toList (by decide) (by omega), pad_toList (by decide) hcivil.1,
    pad_toList (by decide) hcivil.2, pad_toList (by decide) (by omega),
    pad_toList (by decide) (by omega), pad_toList (by decide) (by omega)]
  simp

/-- Texts that begin with a date and a time of day are ordered by the second first. -/
theorem calendar_append_lt_iff {t u : DateTime} {x y : List Char} (ht : t.InYears)
    (hu : u.InYears) : t.calendar.toList ++ x < u.calendar.toList ++ y ↔
      t.second < u.second ∨ t.second = u.second ∧ x < y := by
  have hcivil := civil_bounds t.day
  have hcivil' := civil_bounds u.day
  have hseconds := t.secondOfDay_lt
  have hseconds' := u.secondOfDay_lt
  rw [calendar_toList ht, calendar_toList hu]
  simp only [List.append_assoc, List.cons_append]
  obtain ⟨htlow, hthigh⟩ := ht
  obtain ⟨hulow, huhigh⟩ := hu
  rw [digits_cons_lt_iff (by omega) (by omega), digits_cons_lt_iff hcivil.1 hcivil'.1,
    digits_cons_lt_iff hcivil.2 hcivil'.2, digits_cons_lt_iff (by omega) (by omega),
    digits_cons_lt_iff (by omega) (by omega), digits_append_lt_iff (by omega) (by omega)]
  have hsplit : t.second = 86400 * t.day + t.secondOfDay := by
    have hmod := Int.fmod_nonneg_of_pos t.second (by decide : (0 : Int) < 86400)
    have := Int.mul_fdiv_add_fmod t.second 86400
    simp only [day, secondOfDay]
    omega
  have hsplit' : u.second = 86400 * u.day + u.secondOfDay := by
    have hmod := Int.fmod_nonneg_of_pos u.second (by decide : (0 : Int) < 86400)
    have := Int.mul_fdiv_add_fmod u.second 86400
    simp only [day, secondOfDay]
    omega
  rw [hsplit, hsplit']
  rcases lt_trichotomy t.day u.day with hday | hday | hday
  · have := civil_lt hday
    by_cases hlt : x < y
    · simp only [hlt, and_true]
      omega
    · simp only [hlt, and_false, or_false]
      omega
  · rw [hday]
    rcases lt_trichotomy t.secondOfDay u.secondOfDay with hclock | hclock | hclock
    · have := clock_lt hclock
      simp only [lt_irrefl, false_or, true_and]
      omega
    · simp [hclock]
    · have := clock_lt hclock
      omega
  · have := civil_lt hday
    by_cases hlt : x < y
    · simp only [hlt, and_true]
      omega
    · simp only [hlt, and_false, or_false]
      omega

def nanos (t : DateTime) : Nat := (t.fmod Duration.nanosPerSecond).toNat

/-- What follows the second in a text with that many digits of fraction. -/
def fraction (places nanos : Nat) : List Char :=
  if places = 0 then ['Z'] else '.' :: (digits places (nanos / 10 ^ (9 - places)) ++ ['Z'])

/-- Fractions are ordered by the digits that both show, and then the one that shows more
of them comes first. -/
theorem fraction_lt_iff {p q m n : Nat} (hp : p ≤ 9) (hq : q ≤ 9) (hm : m < 10 ^ 9)
    (hn : n < 10 ^ 9) : fraction p m < fraction q n ↔
      m / 10 ^ (9 - min p q) < n / 10 ^ (9 - min p q) ∨
        m / 10 ^ (9 - min p q) = n / 10 ^ (9 - min p q) ∧ q < p := by
  have hfits : ∀ r k, r ≤ 9 → k < 10 ^ 9 → k / 10 ^ (9 - r) < 10 ^ r := by
    intro r k hr hk
    rw [Nat.div_lt_iff_lt_mul (by positivity), ← pow_add]
    rwa [show r + (9 - r) = 9 by omega]
  have hm0 : m / 10 ^ 9 = 0 := Nat.div_eq_of_lt hm
  have hn0 : n / 10 ^ 9 = 0 := Nat.div_eq_of_lt hn
  have hz : '.' < 'Z' := by decide
  rcases Nat.eq_zero_or_pos p with rfl | hp0
  · rw [Nat.zero_min, Nat.sub_zero, hm0, hn0]
    rcases Nat.eq_zero_or_pos q with rfl | hq0
    · simp [fraction]
    · simp [fraction, hq0.ne', List.cons_lt_cons_iff]
  · rcases Nat.eq_zero_or_pos q with rfl | hq0
    · rw [Nat.min_zero, Nat.sub_zero, hm0, hn0]
      simp [fraction, hp0.ne', hp0, List.cons_lt_cons_iff, hz]
    · rw [fraction, fraction, if_neg hp0.ne', if_neg hq0.ne', List.cons_lt_cons_iff]
      simp only [lt_irrefl, false_or, true_and]
      rcases Nat.le_total p q with hle | hle
      · obtain ⟨more, rfl⟩ := Nat.exists_eq_add_of_le hle
        rw [digits_stop_lt_iff (by decide) (hfits p m hp hm) (hfits _ n hq hn),
          Nat.div_div_eq_div_mul, ← pow_add, Nat.min_eq_left hle,
          show 9 - (p + more) + more = 9 - p by omega]
        exact (or_iff_left fun h => by omega).symm
      · obtain ⟨more, rfl⟩ := Nat.exists_eq_add_of_le hle
        rw [lt_digits_stop_iff (by decide) (hfits q n hq hn) (hfits _ m hp hm),
          Nat.div_div_eq_div_mul, ← pow_add, Nat.min_eq_right hle,
          show 9 - (q + more) + more = 9 - q by omega]
        simp

/-- How many digits of fraction a serialized instant has. -/
def places (t : DateTime) : Nat :=
  if t.nanos = 0 then 0 else if t.nanos % 1000000 = 0 then 3
  else if t.nanos % 1000 = 0 then 6 else 9

theorem nanos_lt (t : DateTime) : t.nanos < 10 ^ 9 := by
  have := Int.fmod_lt_of_pos t (by decide : 0 < Duration.nanosPerSecond)
  simp only [nanos, Duration.nanosPerSecond] at *
  omega

theorem rfc3339_toList (t : DateTime) :
    t.rfc3339.toList = t.calendar.toList ++ fraction t.places t.nanos := by
  have hnanos := t.nanos_lt
  have htext : t.rfc3339 = t.calendar ++ (if t.nanos = 0 then ""
      else if t.nanos % 1000000 = 0 then "." ++ pad 3 (t.nanos / 1000000)
      else if t.nanos % 1000 = 0 then "." ++ pad 6 (t.nanos / 1000)
      else "." ++ pad 9 t.nanos) ++ "Z" := rfl
  rw [htext, places]
  simp only [String.toList_append, List.append_assoc]
  refine congrArg _ ?_
  split
  · rfl
  · split
    · rw [String.toList_append, pad_toList (by decide) (by omega)]
      rfl
    · split
      · rw [String.toList_append, pad_toList (by decide) (by omega)]
        rfl
      · rw [String.toList_append, pad_toList (by decide) hnanos]
        simp [fraction]

theorem rfc3339Micros_toList (t : DateTime) :
    t.rfc3339Micros.toList = t.calendar.toList ++ fraction 6 t.nanos := by
  have hnanos := t.nanos_lt
  have htext : t.rfc3339Micros = t.calendar ++ "." ++ pad 6 (t.nanos / 1000) ++ "Z" := rfl
  rw [htext]
  simp only [String.toList_append]
  rw [pad_toList (by decide) (by omega)]
  simp [fraction]

/-- The unit to which a serialized instant is written. -/
def unit (t : DateTime) : Int := 10 ^ (9 - t.places)

theorem second_eq (t : Int) : second t = t / 1000000000 :=
  Int.fdiv_eq_ediv_of_nonneg t (by decide)

theorem nanos_eq (t : Int) : (nanos t : Int) = t % 1000000000 := by
  have hmod := Int.fmod_eq_emod_of_nonneg t (by decide : (0 : Int) ≤ Duration.nanosPerSecond)
  simp only [Duration.nanosPerSecond] at hmod
  simp only [nanos, Duration.nanosPerSecond, hmod]
  omega

theorem truncMicros_eq (t : Int) : truncMicros t = t / 1000 * 1000 :=
  congrArg (· * 1000) (Int.fdiv_eq_ediv_of_nonneg t (by decide))

theorem places_cases (t : DateTime) :
    places t = 0 ∨ places t = 3 ∨ places t = 6 ∨ places t = 9 := by
  unfold places
  split
  · exact .inl rfl
  · split
    · exact .inr (.inl rfl)
    · split
      · exact .inr (.inr (.inl rfl))
      · exact .inr (.inr (.inr rfl))

/-- A serialized instant shows all of its digits. -/
theorem unit_dvd (t : Int) : unit t ∣ t := by
  have hnanos := nanos_eq t
  rw [unit, places]
  split
  · exact Int.dvd_of_emod_eq_zero (by omega)
  · split
    · exact Int.dvd_of_emod_eq_zero (by omega)
    · split
      · exact Int.dvd_of_emod_eq_zero (by omega)
      · exact one_dvd t

theorem unit_pos (t : DateTime) : 0 < unit t := pow_pos (by decide) _

/-- Texts of instants are ordered by the last unit that both show. -/
theorem text_lt_iff {t u : Int} {p q : Nat} (ht : InYears t) (hu : InYears u)
    (hp : p = 0 ∨ p = 3 ∨ p = 6 ∨ p = 9) (hq : q = 0 ∨ q = 3 ∨ q = 6 ∨ q = 9) :
    (calendar t).toList ++ fraction p (nanos t) < (calendar u).toList ++ fraction q (nanos u) ↔
      t / 10 ^ (9 - min p q) < u / 10 ^ (9 - min p q) ∨
        t / 10 ^ (9 - min p q) = u / 10 ^ (9 - min p q) ∧ q < p := by
  rw [calendar_append_lt_iff ht hu, fraction_lt_iff (by omega) (by omega) (nanos_lt t) (nanos_lt u),
    second_eq, second_eq]
  have hnanos := nanos_eq t
  have hnanos' := nanos_eq u
  have hmin : min p q = 0 ∨ min p q = 3 ∨ min p q = 6 ∨ min p q = 9 := by omega
  generalize min p q = shown at *
  by_cases hlt : q < p
  · simp only [hlt, and_true]
    rcases hmin with rfl | rfl | rfl | rfl <;> omega
  · simp only [hlt, and_false, or_false]
    rcases hmin with rfl | rfl | rfl | rfl <;> omega

theorem div_lt_div_iff {m t u : Int} (hm : 0 < m) (h : m ∣ t) :
    (u / m < t / m ↔ u < t) ∧ (t / m < u / m ↔ t + m ≤ u) := by
  obtain ⟨k, rfl⟩ := h
  rw [Int.mul_ediv_cancel_left k hm.ne', Int.ediv_lt_iff_lt_mul hm, mul_comm k m]
  refine ⟨Iff.rfl, ?_⟩
  rw [Int.lt_iff_add_one_le, Int.le_ediv_iff_mul_le hm, add_mul, one_mul, mul_comm k m]

/-- The text of the later of two instants comes after that of the other, unless it lies
within the unit to which the other is written: then it comes before. -/
theorem rfc3339_lt_iff {t u : Int} (ht : InYears t) (hu : InYears u) (h : t < u) :
    (rfc3339 t < rfc3339 u ↔ t + unit t ≤ u) ∧ (rfc3339 u < rfc3339 t ↔ u < t + unit t) := by
  have hp := places_cases t
  have hq := places_cases u
  rw [String.lt_iff_toList_lt, String.lt_iff_toList_lt, rfc3339_toList, rfc3339_toList,
    text_lt_iff ht hu hp hq, text_lt_iff hu ht hq hp, min_comm (places u)]
  rcases Nat.le_total (places t) (places u) with hle | hle
  · -- The earlier text shows fewer digits, or as many.
    obtain ⟨hback, hon⟩ := div_lt_div_iff (u := u) (unit_pos t) (unit_dvd t)
    rw [Nat.min_eq_left hle]
    have hunit : (10 : Int) ^ (9 - places t) = unit t := rfl
    have hsame : places t = places u → t + unit t ≤ u := by
      intro heq
      have hdvd := unit_dvd u
      rw [unit, ← heq, hunit] at hdvd
      exact hon.mp ((div_lt_div_iff (unit_pos t) hdvd).1.mpr h)
    rw [hunit, hon, hback]
    omega
  · -- The later text shows fewer digits, or as many.
    obtain ⟨hback, hon⟩ := div_lt_div_iff (u := t) (unit_pos u) (unit_dvd u)
    have hunit : (10 : Int) ^ (9 - places u) = unit u := rfl
    have hfar : t + unit t ≤ u := by
      have hdvd : unit t ∣ u := by
        refine dvd_trans ?_ (unit_dvd u)
        exact pow_dvd_pow 10 (by omega)
      exact (div_lt_div_iff (unit_pos t) (unit_dvd t)).2.mp
        ((div_lt_div_iff (unit_pos t) hdvd).1.mpr h)
    have hlt := hback.mpr h
    rw [Nat.min_eq_right hle, hunit]
    omega

/-- An instant that comparing its text with the current one in microseconds misplaces:
it has fewer digits and began to be shown the same, or it has more of them and is still to
come within the microsecond. -/
def Misread (t now : DateTime) : Prop :=
  places t < 6 ∧ t ≤ now ∧ now < t + unit t ∨ truncMicros t ≤ now ∧ now < t

instance (t now : DateTime) : Decidable (Misread t now) := instDecidableOr

theorem rfc3339_le_micros_iff {t now : Int} (ht : InYears t) (hnow : InYears now) :
    (rfc3339 t ≤ rfc3339Micros now ↔ t ≤ now) ↔ ¬ Misread t now := by
  have hplaces := places_cases t
  have hpos := unit_pos t
  obtain ⟨hback, hon⟩ := div_lt_div_iff (u := now) hpos (unit_dvd t)
  rw [← not_lt, String.lt_iff_toList_lt, rfc3339_toList, rfc3339Micros_toList,
    text_lt_iff hnow ht (by omega) hplaces, Misread, truncMicros_eq]
  rcases Nat.lt_or_ge (places t) 6 with hlt | hge
  · -- The stored text shows fewer digits than the current one.
    have hunit : (10 : Int) ^ (9 - places t) = unit t := rfl
    have hexact : t / 1000 * 1000 = t := by
      refine Int.ediv_mul_cancel (dvd_trans ?_ (unit_dvd t))
      exact pow_dvd_pow 10 (by omega : 3 ≤ 9 - places t)
    rw [Nat.min_eq_right hlt.le, hunit, hexact]
    simp only [DateTime]
    omega
  · -- It shows as many, or is cut off after them.
    rw [Nat.min_eq_left hge]
    simp only [DateTime]
    omega

end Qml.DateTime
