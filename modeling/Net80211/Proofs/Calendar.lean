import Mathlib.Logic.Function.Iterate
import Mathlib.Tactic.Common
import Mathlib.Tactic.IntervalCases
import Net80211.Wpa.Calendar

/-!
# Seconds since 1970

The closed formula of `os_mktime` grows by one from a day to the next (`dayNumber_next`), so it
counts the days from 1970-01-01 on. What it does not look at is how long the month is, and whether
the sum is an `int` (`osMktime_right_iff`).
-/

namespace Net80211.Wpa

variable {year month day : Int} {d : Date}

/-- `days`. -/
def dayNumber (d : Date) : Int := (mktimeTerms d.1 d.2.1 d.2.2).sum

theorem isLeap_iff (year : Int) :
    isLeap year = true ↔ year % 4 = 0 ∧ year % 100 ≠ 0 ∨ year % 400 = 0 := by
  simp [isLeap]

theorem monthLength_bounds (year month : Int) :
    28 ≤ monthLength year month ∧ monthLength year month ≤ 31 := by
  rw [monthLength]
  split_ifs <;> decide

theorem dayNumber_eq (year month day : Int) :
    dayNumber (year, month, day) = 365 * (year - 1970) + (year - 1969) / 4 - (year - 1901) / 100 +
      (year - 1601) / 400 + daysBeforeMonth.getD (month - 1).toNat 0 +
      (if 2 < month ∧ isLeap year = true then 1 else 0) + day - 1 := by
  simp [dayNumber, mktimeTerms]
  omega

/-- A month is as long as the table says. -/
theorem monthLength_table (year : Int) (h1 : 1 ≤ month) (h12 : month < 12) :
    daysBeforeMonth.getD month.toNat 0 + (if 2 < month + 1 ∧ isLeap year = true then 1 else 0) =
      daysBeforeMonth.getD (month - 1).toNat 0 +
        (if 2 < month ∧ isLeap year = true then 1 else 0) + monthLength year month := by
  interval_cases month <;> cases hl : isLeap year <;> simp [monthLength, daysBeforeMonth, hl]

theorem dayNumber_next (h : IsDate d) : dayNumber (nextDay d) = dayNumber d + 1 := by
  obtain ⟨year, month, day⟩ := d
  obtain ⟨h1, h12, -, hlen⟩ := h
  rw [nextDay]
  split
  · rw [dayNumber_eq, dayNumber_eq]
    omega
  · split
    · next hlt =>
      have htable := monthLength_table year h1 hlt
      rw [dayNumber_eq, dayNumber_eq, show month + 1 - 1 = month by omega]
      omega
    · -- A year is over: 365 days, or 366 if the formula counts one more leap day.
      obtain rfl : month = 12 := by omega
      have hleap := isLeap_iff year
      have hlen12 : monthLength year 12 = 31 := by simp [monthLength]
      rw [dayNumber_eq, dayNumber_eq]
      cases hl : isLeap year <;> simp [hl, daysBeforeMonth] at hleap ⊢ <;> omega

theorem dayNumber_nonneg (h : IsDate d) (hy : 1970 ≤ d.1) : 0 ≤ dayNumber d := by
  obtain ⟨year, month, day⟩ := d
  obtain ⟨h1, h12, hd1, -⟩ := h
  have htable : 0 ≤ daysBeforeMonth.getD (month - 1).toNat 0 := by interval_cases month <;> decide
  rw [dayNumber_eq]
  dsimp only at hy
  split <;> omega

theorem IsDate.next (h : IsDate d) : IsDate (nextDay d) ∧ d.1 ≤ (nextDay d).1 := by
  obtain ⟨year, month, day⟩ := d
  have hlen := monthLength_bounds
  simp only [nextDay, IsDate] at h ⊢
  grind [IsDate]

theorem IsDate.exists_prev (h : IsDate d) (hy : 1970 ≤ d.1) (hne : d ≠ (1970, 1, 1)) :
    ∃ p : Date, IsDate p ∧ 1970 ≤ p.1 ∧ nextDay p = d := by
  obtain ⟨year, month, day⟩ := d
  obtain ⟨h1, h12, hd1, hlen⟩ := h
  have hpos := fun y m => (monthLength_bounds y m).1
  dsimp only at hy
  by_cases hd : day = 1
  · by_cases hm : month = 1
    · refine ⟨(year - 1, 12, 31), by simp [IsDate, monthLength], ?_, ?_⟩
      · simp_all; omega
      · simp_all [nextDay, monthLength]
    · refine ⟨(year, month - 1, monthLength year (month - 1)), ?_, hy, ?_⟩
      · grind [IsDate]
      · simp [nextDay, hd]; omega
  · refine ⟨(year, month, day - 1), ?_, hy, ?_⟩
    · grind [IsDate]
    · simp [nextDay]; omega

theorem iterate_nextDay (n : Nat) : IsDate (nextDay^[n] (1970, 1, 1)) ∧
    1970 ≤ (nextDay^[n] (1970, 1, 1)).1 ∧ dayNumber (nextDay^[n] (1970, 1, 1)) = n := by
  induction n with
  | zero => exact ⟨by simp [IsDate, monthLength], le_refl _, by decide⟩
  | succ n ih =>
    obtain ⟨hdate, hy, hn⟩ := ih
    obtain ⟨hnext, hle⟩ := hdate.next
    rw [Function.iterate_succ_apply']
    refine ⟨hnext, le_trans hy hle, ?_⟩
    rw [dayNumber_next hdate, hn]
    rfl

theorem iterate_dayNumber (n : Nat) : ∀ {d : Date}, IsDate d → 1970 ≤ d.1 → dayNumber d = n →
    nextDay^[n] (1970, 1, 1) = d := by
  induction n with
  | zero =>
    intro d h hy hn
    by_contra hne
    obtain ⟨p, hp, hpy, rfl⟩ := h.exists_prev hy (Ne.symm hne)
    have hpos := dayNumber_nonneg hp hpy
    rw [dayNumber_next hp] at hn
    omega
  | succ n ih =>
    intro d h hy hn
    have hne : d ≠ (1970, 1, 1) := by
      rintro rfl
      simp [dayNumber, mktimeTerms, daysBeforeMonth] at hn
      omega
    obtain ⟨p, hp, hpy, rfl⟩ := h.exists_prev hy hne
    rw [dayNumber_next hp] at hn
    rw [Function.iterate_succ_apply', ih hp hpy (by omega)]

theorem isDate_iff (d : Date) : IsDate d ∧ 1970 ≤ d.1 ↔ ∃ n, nextDay^[n] (1970, 1, 1) = d := by
  constructor
  · rintro ⟨h, hy⟩
    have hpos := dayNumber_nonneg h hy
    exact ⟨(dayNumber d).toNat, iterate_dayNumber _ h hy (by omega)⟩
  · rintro ⟨n, rfl⟩
    exact ⟨(iterate_nextDay n).1, (iterate_nextDay n).2.1⟩

/-- No partial sum is larger than the second and the last. -/
theorem terms_fit (year : Int) (h1 : 1 ≤ month) (h12 : month ≤ 12) (hd1 : 1 ≤ day)
    (hd31 : day ≤ 31) : ((mktimeTerms year month day).scanl (· + ·) 0).all (· < 2 ^ 31) = true ↔
      365 * (year - 1970) + (year - 1969) / 4 < 2 ^ 31 := by
  have htable : 0 ≤ daysBeforeMonth.getD (month - 1).toNat 0 ∧
      daysBeforeMonth.getD (month - 1).toNat 0 ≤ 334 := by interval_cases month <;> decide
  simp only [mktimeTerms, List.scanl_cons, List.scanl_nil, List.all_cons, List.all_nil,
    Bool.and_true, Bool.and_eq_true, decide_eq_true_eq]
  constructor
  · intro h
    omega
  · intro h
    split <;> omega

theorem osMktime_rejects_iff (year month day hour min sec : Int) :
    osMktime year month day hour min sec = .rejected ↔
      year < 1970 ∨ month < 1 ∨ 12 < month ∨ day < 1 ∨ 31 < day := by
  simp only [osMktime, Bool.or_eq_true, decide_eq_true_eq, or_assoc]
  split_ifs <;> simp_all

theorem osMktime_date_iff (h : IsDate (year, month, day)) (hy : 1970 ≤ year)
    (hour : Fin 24) (min sec : Fin 60) : osMktime year month day hour.val min.val sec.val =
        .time (dayNumber (year, month, day) * 86400 + hour.val * 3600 + min.val * 60 + sec.val) ↔
      365 * (year - 1970) + (year - 1969) / 4 < 2 ^ 31 := by
  obtain ⟨h1, h12, hd1, hlen⟩ := h
  have hd31 := le_trans hlen (monthLength_bounds year month).2
  have hfit := terms_fit year h1 h12 hd1 hd31
  have hprod : [(hour.val : Int) * 3600, min.val * 60].all (fun x => -2 ^ 31 ≤ x && x < 2 ^ 31) =
      true := by
    simp
    omega
  rw [osMktime, if_neg (by simp; omega), hprod, Bool.and_true]
  split_ifs with hall
  · exact iff_of_true rfl (hfit.mp hall)
  · exact iff_of_false (by simp) fun h => hall (hfit.mpr h)

/-- From 1970 on the dates are those that the days come to one after the other. The result is right
for a year whose days an `int` holds, and for what is not a date unless the day is one that another
month has. -/
theorem osMktime_right_iff (year month day : Int) (hour : Fin 24) (min sec : Fin 60) :
    (IsDate (year, month, day) ∧ 1970 ≤ year ↔
      ∃ n, nextDay^[n] (1970, 1, 1) = (year, month, day)) ∧
    ((∀ n : Nat, nextDay^[n] (1970, 1, 1) = (year, month, day) →
        osMktime year month day hour.val min.val sec.val =
          .time (n * 86400 + hour.val * 3600 + min.val * 60 + sec.val)) ∧
      (¬ IsDate (year, month, day) →
        osMktime year month day hour.val min.val sec.val = .rejected) ↔
      (IsDate (year, month, day) → 1970 ≤ year →
        365 * (year - 1970) + (year - 1969) / 4 < 2 ^ 31) ∧
        (¬ IsDate (year, month, day) →
          year < 1970 ∨ month < 1 ∨ 12 < month ∨ day < 1 ∨ 31 < day)) := by
  refine ⟨isDate_iff (year, month, day), ?_⟩
  rw [osMktime_rejects_iff]
  refine and_congr_left fun _ => ⟨fun h hdate hy => ?_, fun h n hn => ?_⟩
  · obtain ⟨n, hn⟩ := (isDate_iff _).mp ⟨hdate, hy⟩
    refine (osMktime_date_iff hdate hy hour min sec).mp ?_
    rw [h n hn, ← hn, (iterate_nextDay n).2.2]
  · obtain ⟨hdate, hy⟩ := (isDate_iff (year, month, day)).mpr ⟨n, hn⟩
    rw [(osMktime_date_iff hdate hy hour min sec).mpr (h hdate hy), ← hn,
      (iterate_nextDay n).2.2]

/-- The 31st of February is taken for a date. -/
theorem osMktime_accepts_february :
    ¬ IsDate (2023, 2, 31) ∧ osMktime 2023 2 31 0 0 0 = .time 1677801600 := by
  simp [IsDate, monthLength, isLeap]
  decide

end Net80211.Wpa
