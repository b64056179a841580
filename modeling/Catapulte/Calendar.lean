import Mathlib.Data.Rat.Floor
import Mathlib.Tactic.IntervalCases

namespace Catapulte.Calendar

def IsLeap (year : Nat) : Prop := year % 4 = 0 ∧ year % 100 ≠ 0 ∨ year % 400 = 0

instance : DecidablePred IsLeap := fun _ => inferInstanceAs (Decidable (_ ∨ _))

def daysInMonth (year : Nat) : Nat → Nat
  | 2 => if IsLeap year then 29 else 28
  | 4 | 6 | 9 | 11 => 30
  | 1 | 3 | 5 | 7 | 8 | 10 | 12 => 31
  | _ => 0

def daysInYear (year : Nat) : Nat := if IsLeap year then 366 else 365

/-- The days of the years before this one, from the year 0 on. -/
def daysBeforeYear : Nat → Nat
  | 0 => 0
  | year + 1 => daysBeforeYear year + daysInYear year

def daysBeforeMonth (year : Nat) : Nat → Nat
  | 0 => 0
  | month + 1 => daysBeforeMonth year month + daysInMonth year month

def epochDay (year month day : Nat) : Int :=
  daysBeforeYear year + daysBeforeMonth year month + day - 1 - daysBeforeYear 1970

theorem daysBeforeYear_succ (year : Nat) :
    daysBeforeYear (year + 1) = (year + 1) * 365 + (year / 4 + 1 + year / 400 - year / 100) := by
  induction year with
  | zero => rfl
  | succ year ih =>
      rw [daysBeforeYear, ih, daysInYear]
      have hleap : IsLeap (year + 1) ↔ (year + 1) % 4 = 0 ∧ (year + 1) % 100 ≠ 0 ∨ (year + 1) % 400 = 0 := Iff.rfl
      split <;> rename_i h <;> rw [hleap] at h <;> omega

theorem daysInMonth_le (year month : Nat) : daysInMonth year month ≤ 31 := by
  unfold daysInMonth
  split
  · split <;> omega
  all_goals omega

theorem daysInMonth_pos (year : Nat) {month : Nat} (h : 1 ≤ month ∧ month ≤ 12) : 1 ≤ daysInMonth year month := by
  obtain ⟨h₁, h₂⟩ := h
  interval_cases month <;> simp only [daysInMonth] <;> try omega
  split <;> omega

theorem monotone_daysBeforeMonth (year : Nat) : Monotone (daysBeforeMonth year) :=
  monotone_nat_of_le_succ fun _ => Nat.le_add_right _ _

theorem monotone_daysBeforeYear : Monotone daysBeforeYear :=
  monotone_nat_of_le_succ fun _ => Nat.le_add_right _ _

theorem daysBeforeMonth_thirteen (year : Nat) : daysBeforeMonth year 13 = daysInYear year := by
  by_cases h : IsLeap year <;> simp [daysBeforeMonth, daysInMonth, daysInYear, h]

theorem daysBeforeMonth_le (year : Nat) {month : Nat} (h : month ≤ 13) : daysBeforeMonth year month ≤ daysInYear year :=
  daysBeforeMonth_thirteen year ▸ monotone_daysBeforeMonth year h

theorem daysInYear_le (year : Nat) : daysInYear year ≤ 366 := by
  unfold daysInYear
  split <;> omega

theorem epochDay_nonneg {year day : Nat} (hyear : 1970 ≤ year) (month : Nat) (hday : 1 ≤ day) : 0 ≤ epochDay year month day := by
  have hyears := monotone_daysBeforeYear hyear
  rw [epochDay]
  omega

structure Date where
  year : Nat
  month : Nat
  day : Nat
  month_mem : 1 ≤ month ∧ month ≤ 12
  day_mem : 1 ≤ day ∧ day ≤ daysInMonth year month

namespace Date

def dayNumber (d : Date) : Int := epochDay d.year d.month d.day

/-- 1970-01-01 -/
def epoch : Date := ⟨1970, 1, 1, ⟨le_refl 1, by decide⟩, ⟨le_refl 1, by decide⟩⟩

/-- The calendar successor. -/
def next (d : Date) : Date :=
  if hday : d.day < daysInMonth d.year d.month then
    ⟨d.year, d.month, d.day + 1, d.month_mem, ⟨Nat.le_add_left 1 d.day, hday⟩⟩
  else if hmonth : d.month < 12 then
    ⟨d.year, d.month + 1, 1, ⟨Nat.le_add_left 1 d.month, hmonth⟩, ⟨le_refl 1, daysInMonth_pos d.year ⟨Nat.le_add_left 1 d.month, hmonth⟩⟩⟩
  else ⟨d.year + 1, 1, 1, ⟨le_refl 1, Nat.le_add_left 1 11⟩, ⟨le_refl 1, Nat.le_add_left 1 30⟩⟩

def Before (d e : Date) : Prop :=
  d.year < e.year ∨ d.year = e.year ∧ (d.month < e.month ∨ d.month = e.month ∧ d.day < e.day)

variable {d e : Date}

theorem dayNumber_next (d : Date) : d.next.dayNumber = d.dayNumber + 1 := by
  obtain ⟨hmonth, hday⟩ := And.intro d.month_mem d.day_mem
  unfold next
  split
  · simp only [dayNumber, epochDay]
    omega
  · have hlast : d.day = daysInMonth d.year d.month := by omega
    split
    · simp only [dayNumber, epochDay, daysBeforeMonth, hlast]
      omega
    · have hdecember : d.month = 12 := by omega
      have hyear := daysBeforeMonth_thirteen d.year
      have hjanuary : daysBeforeMonth (d.year + 1) 1 = 0 := rfl
      have hyears : daysBeforeYear (d.year + 1) = daysBeforeYear d.year + daysInYear d.year := rfl
      rw [daysBeforeMonth] at hyear
      simp only [dayNumber, epochDay, hyears, hlast, hdecember, hjanuary]
      omega

theorem day_le (d : Date) : daysBeforeMonth d.year d.month + d.day ≤ daysBeforeMonth d.year (d.month + 1) ∧
    daysBeforeMonth d.year (d.month + 1) ≤ daysInYear d.year :=
  ⟨Nat.add_le_add_left d.day_mem.2 _, daysBeforeMonth_le d.year (Nat.succ_le_succ d.month_mem.2)⟩

theorem dayNumber_lt (h : d.Before e) : d.dayNumber < e.dayNumber := by
  obtain ⟨hmonth, hyear⟩ := d.day_le
  have hday := e.day_mem.1
  rw [dayNumber, dayNumber, epochDay, epochDay]
  obtain h | ⟨h, hrest⟩ := h
  · have hyears : daysBeforeYear d.year + daysInYear d.year ≤ daysBeforeYear e.year := monotone_daysBeforeYear h
    omega
  · rw [← h]
    obtain h | ⟨h, hrest⟩ := hrest
    · have hmonths := monotone_daysBeforeMonth d.year h
      rw [Nat.succ_eq_add_one] at hmonths
      omega
    · rw [← h]
      omega

theorem before_or (d e : Date) : d.Before e ∨ d = e ∨ e.Before d := by
  unfold Before
  by_cases hyear : d.year = e.year
  · by_cases hmonth : d.month = e.month
    · by_cases hday : d.day = e.day
      · refine .inr (.inl ?_)
        cases d
        cases e
        congr
      · omega
    · omega
  · omega

theorem dayNumber_lt_iff : d.dayNumber < e.dayNumber ↔ d.Before e := by
  refine ⟨fun h => ?_, dayNumber_lt⟩
  obtain hbefore | rfl | hafter := before_or d e
  · exact hbefore
  · exact absurd h (lt_irrefl _)
  · exact absurd (h.trans (dayNumber_lt hafter)) (lt_irrefl _)

theorem dayNumber_inj : d.dayNumber = e.dayNumber ↔ d = e := by
  refine ⟨fun h => ?_, congrArg dayNumber⟩
  obtain hbefore | rfl | hafter := before_or d e
  · exact absurd h (dayNumber_lt hbefore).ne
  · rfl
  · exact absurd h (dayNumber_lt hafter).ne'

theorem dayNumber_epoch : epoch.dayNumber = 0 := by
  have hmonth : daysBeforeMonth 1970 1 = 0 := rfl
  simp only [epoch, dayNumber, epochDay, hmonth]
  omega

theorem iterate_next_epoch {n : Nat} : next^[n] epoch = d ↔ d.dayNumber = n := by
  have hcount : (next^[n] epoch).dayNumber = n := by
    induction n with
    | zero => exact dayNumber_epoch
    | succ n ih => rw [Function.iterate_succ_apply', dayNumber_next, ih, Nat.cast_succ]
  rw [← dayNumber_inj, hcount]
  exact eq_comm

theorem le_year_next (d : Date) : d.year ≤ d.next.year := by
  unfold next
  split
  · exact le_refl _
  · split
    · exact le_refl _
    · exact Nat.le_succ _

end Date

structure DateTime where
  year : Nat
  month : Nat
  day : Nat
  hour : Nat
  minute : Nat
  second : Nat
  fraction : List Nat
  offset : Int
  year_le : year ≤ 9999
  month_mem : 1 ≤ month ∧ month ≤ 12
  day_mem : 1 ≤ day ∧ day ≤ daysInMonth year month
  hour_le : hour ≤ 23
  minute_le : minute ≤ 59
  second_le : second ≤ 60
  fraction_lt : ∀ digit ∈ fraction, digit < 10

namespace DateTime

/-- The seconds of the local time from 1970-01-01T00:00:00 on. A leap second is the
first second of the next minute. -/
def localSeconds (d : DateTime) : Int :=
  epochDay d.year d.month d.day * 86400 + d.hour * 3600 + d.minute * 60 + d.second

def fractionOf : List Nat → ℚ
  | [] => 0
  | digit :: digits => (digit + fractionOf digits) / 10

/-- The instant in seconds from the Unix epoch. -/
def instant (d : DateTime) : ℚ := (d.localSeconds - 60 * d.offset : Int) + fractionOf d.fraction

theorem fractionOf_nonneg (digits : List Nat) : 0 ≤ fractionOf digits := by
  induction digits with
  | nil => exact le_refl 0
  | cons digit digits ih => exact div_nonneg (add_nonneg (Nat.cast_nonneg digit) ih) (by norm_num)

theorem fractionOf_lt_one {digits : List Nat} (h : ∀ digit ∈ digits, digit < 10) : fractionOf digits < 1 := by
  induction digits with
  | nil => exact one_pos
  | cons digit digits ih =>
      have hdigit : (digit : ℚ) ≤ 9 := by exact_mod_cast Nat.le_of_lt_succ (h digit List.mem_cons_self)
      have hrest := ih fun d hd => h d (List.mem_cons_of_mem digit hd)
      rw [fractionOf, div_lt_one (by norm_num)]
      linarith

theorem floor_instant (d : DateTime) : ⌊d.instant⌋ = d.localSeconds - 60 * d.offset := by
  rw [instant, Int.floor_intCast_add]
  have hfloor : ⌊fractionOf d.fraction⌋ = 0 :=
    Int.floor_eq_zero_iff.mpr ⟨fractionOf_nonneg d.fraction, fractionOf_lt_one d.fraction_lt⟩
  rw [hfloor, Int.add_zero]

def digitOf (c : Char) : Option Nat := if c.isDigit then some (c.toNat - '0'.toNat) else none

def decimalFrom (n : Nat) : List Char → Option Nat
  | [] => some n
  | c :: cs => (digitOf c).bind fun digit => decimalFrom (10 * n + digit) cs

def decimal (cs : List Char) : Option Nat := decimalFrom 0 cs

/-- An optional fraction of at least one digit, and what follows it. -/
def readFraction : List Char → Option (List Nat × List Char)
  | '.' :: cs =>
      let digits := (cs.takeWhile Char.isDigit).filterMap digitOf
      if digits = [] then none else some (digits, cs.dropWhile Char.isDigit)
  | cs => some ([], cs)

/-- An optional `Z` or numeric offset, in minutes. -/
def readZone : List Char → Option Int
  | [] | ['Z'] | ['z'] => some 0
  | [sign, h₁, h₂, ':', m₁, m₂] => do
      let hours ← decimal [h₁, h₂]
      let minutes ← decimal [m₁, m₂]
      if 23 < hours ∨ 59 < minutes then none
      else if sign = '+' then some (hours * 60 + minutes : Nat)
      else if sign = '-' then some (-(hours * 60 + minutes : Nat))
      else none
  | _ => none

def ofFields (year month day hour minute second : Nat) (fraction : List Nat) (offset : Int) : Option DateTime :=
  if h : year ≤ 9999 ∧ (1 ≤ month ∧ month ≤ 12) ∧ (1 ≤ day ∧ day ≤ daysInMonth year month) ∧ hour ≤ 23 ∧ minute ≤ 59 ∧
      second ≤ 60 ∧ ∀ digit ∈ fraction, digit < 10 then
    some ⟨year, month, day, hour, minute, second, fraction, offset, h.1, h.2.1, h.2.2.1, h.2.2.2.1, h.2.2.2.2.1,
      h.2.2.2.2.2.1, h.2.2.2.2.2.2⟩
  else none

def read : List Char → Option DateTime
  | y₁ :: y₂ :: y₃ :: y₄ :: '-' :: o₁ :: o₂ :: '-' :: d₁ :: d₂ :: t :: h₁ :: h₂ :: ':' :: m₁ :: m₂ :: ':' :: s₁ :: s₂ :: rest => do
      let year ← decimal [y₁, y₂, y₃, y₄]
      let month ← decimal [o₁, o₂]
      let day ← decimal [d₁, d₂]
      let hour ← decimal [h₁, h₂]
      let minute ← decimal [m₁, m₂]
      let second ← decimal [s₁, s₂]
      let (fraction, zone) ← readFraction rest
      let offset ← readZone zone
      if t = 'T' ∨ t = 't' ∨ t = ' ' then ofFields year month day hour minute second fraction offset else none
  | _ => none

end DateTime

end Catapulte.Calendar
