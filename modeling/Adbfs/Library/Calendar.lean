import Adbfs.Library.Words

/-! Days and seconds in the Gregorian calendar, and the text of a date and a time. -/

namespace Adbfs.Library.Calendar

open Text

structure Date where
  year : ℕ
  month : ℕ
  day : ℕ
  deriving DecidableEq

/-- From the first of March of year zero to the first day of 1970. -/
def epochDay : ℕ := 719468

section Days

/-- How often the span fits in, at most so many times, and what is left. -/
def spans (span limit n : ℕ) : ℕ × ℕ :=
  (min (n / span) limit, n - min (n / span) limit * span)

lemma spans_spec {span limit n : ℕ} (hspan : 0 < span) (hn : n ≤ (limit + 1) * span) :
    ∃ k rest, spans span limit n = (k, rest) ∧ n = k * span + rest ∧ k ≤ limit ∧ rest ≤ span := by
  have hle : min (n / span) limit * span ≤ n :=
    (Nat.mul_le_mul_right span (min_le_left _ _)).trans (Nat.div_mul_le_self n span)
  refine ⟨_, _, rfl, (Nat.add_sub_cancel' hle).symm, min_le_right _ _, ?_⟩
  rcases le_total (n / span) limit with h | h
  · rw [min_eq_left h, Nat.mul_comm, ← Nat.mod_eq_sub_mul_div]
    exact (Nat.mod_lt n hspan).le
  · rw [min_eq_right h, Nat.sub_le_iff_le_add, Nat.add_comm, ← Nat.succ_mul]
    exact hn

/-- A day of a cycle of 400 years, which begin in March: the centuries before it, then the groups of
four years, then the years. -/
structure CycleDay where
  century : ℕ
  leap : ℕ
  year : ℕ
  day : ℕ

def cycleDay (n : ℕ) : CycleDay :=
  let century := spans 36524 3 n
  let year := spans 365 3 (century.2 % 1461)
  ⟨century.1, century.2 / 1461, year.1, year.2⟩

lemma cycleDay_spec {n : ℕ} (hn : n < 146097) : ∃ century leap year day,
    cycleDay n = ⟨century, leap, year, day⟩ ∧
      n = century * 36524 + leap * 1461 + year * 365 + day ∧
      century ≤ 3 ∧ leap ≤ 24 ∧ year ≤ 3 ∧ day ≤ 365 := by
  have hle : n ≤ (3 + 1) * 36524 := by omega
  obtain ⟨century, rest, hc, hn, hcentury, hrest⟩ := spans_spec (by norm_num) hle
  have hle' : rest % 1461 ≤ (3 + 1) * 365 := by omega
  obtain ⟨year, day, hy, hr, hyear, hday⟩ := spans_spec (by norm_num) hle'
  have hcycle : cycleDay n = ⟨century, rest / 1461, year, day⟩ := by rw [cycleDay, hc, hy]
  have hsum : n = century * 36524 + rest / 1461 * 1461 + year * 365 + day := by
    have hrest := Nat.div_add_mod rest 1461
    linarith
  exact ⟨century, rest / 1461, year, day, hcycle, hsum, hcentury, by omega, hyear, hday⟩

/-- Months are counted from March on. -/
def dateOfDay (n : ℕ) : Date :=
  let era := (n + epochDay) / 146097
  let c := cycleDay ((n + epochDay) % 146097)
  let month := (5 * c.day + 2) / 153
  let year := 400 * era + 100 * c.century + 4 * c.leap + c.year
  ⟨if month < 10 then year else year + 1, if month < 10 then month + 3 else month - 9,
    c.day - (153 * month + 2) / 5 + 1⟩

def dayOfDate (d : Date) : ℕ :=
  let year := if d.month ≤ 2 then d.year - 1 else d.year
  let month := if d.month ≤ 2 then d.month + 9 else d.month - 3
  365 * year + year / 4 - year / 100 + year / 400 + (153 * month + 2) / 5 + d.day - 1 - epochDay

lemma dayOfDate_dateOfDay (n : ℕ) : dayOfDate (dateOfDay n) = n := by
  have hlt : (n + epochDay) % 146097 < 146097 := Nat.mod_lt _ (by omega)
  have hsum := Nat.div_add_mod (n + epochDay) 146097
  obtain ⟨century, leap, year, day, hcycle, hday, hcentury, hleap, hyear, hlast⟩ := cycleDay_spec hlt
  rw [dateOfDay, hcycle]
  obtain ⟨era, hera⟩ : ∃ era, (n + epochDay) / 146097 = era := ⟨_, rfl⟩
  obtain ⟨month, hmonth⟩ : ∃ month, (5 * day + 2) / 153 = month := ⟨_, rfl⟩
  rw [hera, hday] at hsum
  rw [hera, hmonth]
  have hstart : (153 * month + 2) / 5 ≤ day := by omega
  have hlimit : month ≤ 11 := by omega
  have hyears : ∀ year', year' = 400 * era + 100 * century + 4 * leap + year →
      365 * year' + year' / 4 - year' / 100 + year' / 400 + day = n + epochDay := by
    rintro year' rfl
    have h4 : (400 * era + 100 * century + 4 * leap + year) / 4 = 100 * era + 25 * century + leap := by
      omega
    have h100 : (400 * era + 100 * century + 4 * leap + year) / 100 = 4 * era + century := by omega
    have h400 : (400 * era + 100 * century + 4 * leap + year) / 400 = era := by omega
    rw [h4, h100, h400]
    have hless : 4 * era + century ≤
        365 * (400 * era + 100 * century + 4 * leap + year) + (100 * era + 25 * century + leap) := by
      linarith
    obtain ⟨k, hk⟩ := Nat.exists_eq_add_of_le hless
    rw [hk, Nat.add_sub_cancel_left]
    linarith
  obtain ⟨year', hyear'⟩ : ∃ year', 400 * era + 100 * century + 4 * leap + year = year' := ⟨_, rfl⟩
  have hcount := hyears year' hyear'.symm
  rw [hyear', dayOfDate]
  dsimp only
  by_cases hspring : month < 10
  · have hmarch : ¬ month + 3 ≤ 2 := by omega
    rw [if_pos hspring, if_pos hspring, if_neg hmarch, if_neg hmarch, Nat.add_sub_cancel]
    omega
  · have hmarch : month - 9 ≤ 2 := by omega
    have hmonth' : month - 9 + 9 = month := by omega
    rw [if_neg hspring, if_neg hspring, if_pos hmarch, if_pos hmarch, Nat.add_sub_cancel, hmonth']
    omega

end Days

section Text

def dateText (d : Date) : Text := padded 4 d.year ++ '-' :: (padded 2 d.month ++ '-' :: padded 2 d.day)

def timeText (seconds : ℕ) : Text :=
  padded 2 (seconds / 3600) ++ ':' :: (padded 2 (seconds / 60 % 60) ++ ':' :: padded 2 (seconds % 60))

def secondText (s : ℕ) : Text := dateText (dateOfDay (s / 86400)) ++ 'T' :: timeText (s % 86400)

def readDate (t : Text) : Option ℕ :=
  match t.splitOn '-' with
  | [year, month, day] => do
    some (dayOfDate ⟨← parseDigits year, ← parseDigits month, ← parseDigits day⟩)
  | _ => none

def readTime (t : Text) : Option ℕ :=
  match t.splitOn ':' with
  | [hours, minutes, seconds] => do
    some (3600 * (← parseDigits hours) + 60 * (← parseDigits minutes) + (← parseDigits seconds))
  | _ => none

def readSecond (t : Text) : Option ℕ :=
  match t.splitOn 'T' with
  | [date, time] => do some (86400 * (← readDate date) + (← readTime time))
  | _ => none

lemma readDate_dateText (d : Date) : readDate (dateText d) = some (dayOfDate d) := by
  rw [readDate, dateText, List.splitOn_append_cons_self_of_not_mem (notMem_padded _ _ (by decide)),
    List.splitOn_append_cons_self_of_not_mem (notMem_padded _ _ (by decide)),
    List.splitOn_eq_singleton (notMem_padded _ _ (by decide))]
  simp only [parseDigits_padded, Option.bind_eq_bind, Option.bind_some]

lemma readTime_timeText (s : ℕ) : readTime (timeText s) = some s := by
  rw [readTime, timeText, List.splitOn_append_cons_self_of_not_mem (notMem_padded _ _ (by decide)),
    List.splitOn_append_cons_self_of_not_mem (notMem_padded _ _ (by decide)),
    List.splitOn_eq_singleton (notMem_padded _ _ (by decide))]
  simp only [parseDigits_padded, Option.bind_eq_bind, Option.bind_some, Option.some.injEq]
  omega

lemma readSecond_secondText (s : ℕ) : readSecond (secondText s) = some s := by
  have hdate : ∀ d, 'T' ∉ dateText d := by
    intro d
    simp [dateText, notMem_padded _ _ (by decide : 'T'.isDigit = false)]
  have htime : ∀ n, 'T' ∉ timeText n := by
    intro n
    simp [timeText, notMem_padded _ _ (by decide : 'T'.isDigit = false)]
  rw [readSecond, secondText, List.splitOn_append_cons_self_of_not_mem (hdate _),
    List.splitOn_eq_singleton (htime _)]
  simp only [readDate_dateText, readTime_timeText, dayOfDate_dateOfDay, Option.bind_eq_bind,
    Option.bind_some, Option.some.injEq]
  exact Nat.div_add_mod s 86400

example : secondText 951782399 = "2000-02-28T23:59:59".toList := by decide +kernel

end Text

end Adbfs.Library.Calendar
