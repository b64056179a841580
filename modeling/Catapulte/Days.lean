import Mathlib.Tactic.IntervalCases
import Catapulte.Calendar
import Catapulte.S3.Store

namespace Catapulte.S3

open Calendar (Date IsLeap epochDay daysBeforeYear daysBeforeMonth daysInMonth)

/-! ### Arithmetic that is checked once

A chain of checked operations fails just when its last value does not fit, if the values before it
fit whenever it does. -/

def checked {α : Type} (n : Nat) (a : α) : Except Panic α := if n < 2 ^ 64 then .ok a else .error .overflow

theorem checked_ok {α : Type} {n : Nat} (h : n < 2 ^ 64) (a : α) : checked n a = .ok a := if_pos h

theorem add_eq (a b : Nat) : add a b = checked (a + b) (a + b) := rfl

theorem mul_eq (a b : Nat) : mul a b = checked (a * b) (a * b) := rfl

theorem add_ok {a b : Nat} (h : a + b < 2 ^ 64) : add a b = .ok (a + b) := if_pos h

theorem sub_ok {a b : Nat} (h : b ≤ a) : sub a b = .ok (a - b) := if_pos h

theorem mul_ok {a b : Nat} (h : a * b < 2 ^ 64) : mul a b = .ok (a * b) := if_pos h

theorem ok_bind {α β : Type} (a : α) (f : α → Except Panic β) : (Except.ok a >>= f) = f a := rfl

theorem checked_bind {α β : Type} {m n : Nat} {a : α} {b : β} {f : α → Except Panic β} (h : n < 2 ^ 64 → m < 2 ^ 64)
    (hf : f a = checked n b) : (checked m a >>= f) = checked n b := by
  by_cases hm : m < 2 ^ 64
  · rw [checked_ok hm, ok_bind, hf]
  · rw [checked, if_neg hm, checked, if_neg (mt h hm)]
    rfl

theorem checked_pure {α β : Type} (n : Nat) (a : α) (f : α → β) :
    (checked n a >>= fun a => pure (f a)) = checked n (f a) := by
  rw [checked, checked]
  split <;> rfl

theorem monthOffset_ok (year : Nat) {month : Nat} (h : 1 ≤ month ∧ month ≤ 12) :
    ∃ offset, monthOffset month = .ok offset ∧
      daysBeforeMonth year month = offset + if IsLeap year ∧ month > 2 then 1 else 0 := by
  obtain ⟨h₁, h₂⟩ := h
  interval_cases month <;> refine ⟨_, rfl, ?_⟩ <;>
    by_cases hleap : IsLeap year <;> simp [daysBeforeMonth, daysInMonth, hleap]

theorem daysFromYears_eq {y : Nat} (h : 1969 ≤ y) : daysBeforeYear (y + 1) =
    daysBeforeYear 1970 + ((y + 1 - 1970) * 365 + (y / 4 - y / 100 + y / 400 - (1969 / 4 - 1969 / 100 + 1969 / 400))) := by
  rw [Calendar.daysBeforeYear_succ, Calendar.daysBeforeYear_succ]
  omega

theorem gregorianDaysSinceEpoch_eq {year month day n : Nat} (hyear : 1970 ≤ year) (hmonth : 1 ≤ month ∧ month ≤ 12)
    (hday : 1 ≤ day) (hn : epochDay year month day = n) :
    gregorianDaysSinceEpoch year month day = checked n (some n) := by
  obtain ⟨offset, hoffset, hbefore⟩ := monthOffset_ok year hmonth
  obtain ⟨y, rfl⟩ : ∃ y, year = y + 1 := ⟨year - 1, by omega⟩
  have hyears := daysFromYears_eq (Nat.le_of_succ_le_succ hyear)
  have hcommon : (y + 1 - 1970) * 365 ≤ n := by
    rw [epochDay] at hn
    omega
  rw [gregorianDaysSinceEpoch, sub_ok (Nat.le_add_left 1 y), ok_bind, Nat.add_sub_cancel, sub_ok (by omega), ok_bind,
    add_eq]
  refine checked_bind (by omega) ?_
  rw [if_neg (Nat.not_lt_of_le hyear)]
  show (mul (y + 1 - 1970) 365 >>= _) = _
  rw [mul_eq]
  refine checked_bind (by omega) ?_
  rw [sub_ok (by omega), ok_bind, add_eq]
  rw [epochDay, hyears, hbefore] at hn
  generalize (y + 1 - 1970) * 365 + (y / 4 - y / 100 + y / 400 - (1969 / 4 - 1969 / 100 + 1969 / 400)) = fromYears at hn ⊢
  have hsum {months : Nat} (h : fromYears + months + (day - 1) = n) :
      (add fromYears months >>= fun d => sub day 1 >>= fun e => add d e >>= fun total => pure (some total)) =
        checked n (some n) := by
    rw [add_eq]
    refine checked_bind (by omega) ?_
    rw [sub_ok hday, ok_bind, add_eq, h]
    exact checked_pure n n some
  rw [hoffset]
  by_cases hleap : ((y + 1) % 4 = 0 ∧ ¬(y + 1) % 100 = 0 ∨ (y + 1) % 400 = 0) ∧ month > 2
  · have hcalendar : IsLeap (y + 1) ∧ month > 2 := hleap
    rw [if_pos hcalendar] at hn
    refine checked_bind (by omega) ?_
    rw [ok_bind, if_pos hleap, add_eq]
    exact checked_bind (by omega) (hsum (by omega))
  · have hcalendar : ¬(IsLeap (y + 1) ∧ month > 2) := hleap
    rw [if_neg hcalendar] at hn
    refine checked_bind (by omega) ?_
    rw [ok_bind, if_neg hleap, pure_bind]
    exact hsum (by omega)

def daysOf (d : Date) : Except Panic (Option Nat) := gregorianDaysSinceEpoch d.year d.month d.day

structure Subtracts (year month day : Nat) : Prop where
  completed : sub year 1 = .ok (year - 1)
  centuries : sub ((year - 1) / 4) ((year - 1) / 100) = .ok ((year - 1) / 4 - (year - 1) / 100)
  since : 1970 ≤ year
  leaps : 1969 / 4 - 1969 / 100 + 1969 / 400 ≤ (year - 1) / 4 - (year - 1) / 100 + (year - 1) / 400
  months : ∀ m ∈ List.range' 1 (month - 1), sub m 1 = .ok (m - 1)
  day : sub day 1 = .ok (day - 1)

/-- The function counts the days to the date in the calendar's order, and panics only when
the count leaves the `u64`s. -/
structure CountsDays (d : Date) : Prop where
  value : ∀ n : Nat, daysOf d = .ok (some n) ↔ d.dayNumber = n ∧ n < 2 ^ 64
  returns : (∃ r, daysOf d = .ok r) ↔ d.dayNumber < 2 ^ 64
  successors : ∀ n, daysOf d = .ok (some n) → Date.next^[n] .epoch = d
  next : ∀ n, daysOf d = .ok (some n) → n + 1 < 2 ^ 64 → daysOf d.next = .ok (some (n + 1))
  before : ∀ (e : Date) m n, 1970 ≤ e.year → daysOf d = .ok (some m) → daysOf e = .ok (some n) → (m < n ↔ d.Before e)
  subtracts : Subtracts d.year d.month d.day

variable {d : Date}

theorem daysOf_eq (hyear : 1970 ≤ d.year) : ∃ n : Nat, d.dayNumber = n ∧ daysOf d = checked n (some n) := by
  obtain ⟨n, hn⟩ := Int.eq_ofNat_of_zero_le (Calendar.epochDay_nonneg hyear d.month d.day_mem.1)
  exact ⟨n, hn, gregorianDaysSinceEpoch_eq hyear d.month_mem d.day_mem.1 hn⟩

theorem daysOf_eq_some (hyear : 1970 ≤ d.year) {n : Nat} : daysOf d = .ok (some n) ↔ d.dayNumber = n ∧ n < 2 ^ 64 := by
  obtain ⟨m, hm, hdays⟩ := daysOf_eq hyear
  rw [hdays, hm, Nat.cast_inj, checked]
  split
  · rw [Except.ok.injEq, Option.some.injEq]
    exact ⟨fun h => ⟨h, h ▸ ‹_›⟩, And.left⟩
  · exact ⟨fun h => (by cases h), fun h => absurd (h.1 ▸ h.2) ‹_›⟩

theorem daysOf_returns (hyear : 1970 ≤ d.year) : (∃ r, daysOf d = .ok r) ↔ d.dayNumber < 2 ^ 64 := by
  obtain ⟨n, hn, hdays⟩ := daysOf_eq hyear
  rw [hdays, hn, checked]
  split
  · exact iff_of_true ⟨_, rfl⟩ (by exact_mod_cast ‹_›)
  · refine iff_of_false (fun ⟨r, h⟩ => (by cases h)) fun h => ?_
    exact absurd (by exact_mod_cast h) ‹¬n < 2 ^ 64›

theorem subtracts (hyear : 1970 ≤ d.year) : Subtracts d.year d.month d.day where
  completed := sub_ok (by omega)
  centuries := sub_ok (by omega)
  since := hyear
  leaps := by omega
  months m hm := sub_ok (List.mem_range'_1.mp hm).1
  day := sub_ok d.day_mem.1

theorem gregorianDaysSinceEpoch_counts (hyear : 1970 ≤ d.year) : daysOf .epoch = .ok (some 0) ∧ CountsDays d := by
  refine ⟨(daysOf_eq_some (le_refl 1970)).mpr ⟨Date.dayNumber_epoch, by decide⟩, ?_⟩
  refine ⟨fun n => daysOf_eq_some hyear, daysOf_returns hyear, fun n h => ?_, fun n h hn => ?_, fun e m n he hd hdays => ?_,
    subtracts hyear⟩
  · exact Date.iterate_next_epoch.mpr ((daysOf_eq_some hyear).mp h).1
  · refine (daysOf_eq_some (hyear.trans d.le_year_next)).mpr ⟨?_, hn⟩
    rw [Date.dayNumber_next, ((daysOf_eq_some hyear).mp h).1, Nat.cast_succ]
  · rw [← Date.dayNumber_lt_iff, ((daysOf_eq_some hyear).mp hd).1, ((daysOf_eq_some he).mp hdays).1, Nat.cast_lt]

/-- The last day of February of a century that is no leap year. -/
theorem gregorianDaysSinceEpoch_counts_century :
    daysOf .epoch = .ok (some 0) ∧ CountsDays ⟨2100, 2, 28, ⟨by decide, by decide⟩, ⟨by decide, by decide⟩⟩ :=
  gregorianDaysSinceEpoch_counts (Nat.le_add_left 1970 130)

end Catapulte.S3
