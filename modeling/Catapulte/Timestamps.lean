import Mathlib.Data.List.Forall2
import Mathlib.Tactic.Linarith
import Catapulte.Days

namespace Catapulte.S3

open Nats (trim parseU64 parseDigits)
open Text (byteLen bytes IsCharBoundary)
open Calendar (epochDay daysBeforeYear DateTime)

theorem gregorianDaysSinceEpoch_ok {year month day : Nat} (hyear : 1970 ≤ year ∧ year ≤ 9999)
    (hmonth : 1 ≤ month ∧ month ≤ 12) (hday : 1 ≤ day ∧ day ≤ 31) :
    ∃ days : Nat, gregorianDaysSinceEpoch year month day = .ok (some days) ∧ (days : Int) = epochDay year month day ∧
      days < 2 ^ 32 := by
  obtain ⟨n, hn⟩ : ∃ n : Nat, epochDay year month day = n :=
    Int.eq_ofNat_of_zero_le (Calendar.epochDay_nonneg hyear.1 month hday.1)
  have hbound : n < 2 ^ 32 := by
    have hyears : daysBeforeYear year ≤ daysBeforeYear 9999 := Calendar.monotone_daysBeforeYear hyear.2
    have hmonths := (Calendar.daysBeforeMonth_le year (Nat.le_succ_of_le hmonth.2)).trans (Calendar.daysInYear_le year)
    rw [Calendar.daysBeforeYear_succ] at hyears
    rw [epochDay] at hn
    omega
  refine ⟨n, ?_, hn.symm, hbound⟩
  rw [gregorianDaysSinceEpoch_eq hyear.1 hmonth hday.1 hn, checked_ok (hbound.trans (by decide))]

inductive Step
  | number (first last : Nat)
  | separator

namespace Step

/-- The two ends of the slice of the step are between characters. -/
def Cut (t : List Char) : Step → Prop
  | number a b => IsCharBoundary t a ∧ IsCharBoundary t b
  | separator => True

/-- The text has the number, or the separator of date and time, at its place. -/
def Holds (t : List Char) : Step → Nat → Prop
  | number a b, n => ∃ piece, Text.slice t a b = some piece ∧ parseU64 piece = some n
  | separator, n => n = 0 ∧ ∃ sep, (bytes t)[10]? = some sep ∧ (sep = 'T'.toUInt8 ∨ sep = ' '.toUInt8)

def read (t : List Char) : Step → Except Panic (Option Nat)
  | number a b => S3.number t a b
  | separator =>
      match (bytes t)[10]? with
      | none => .ok none
      | some sep => if sep ≠ 'T'.toUInt8 ∧ sep ≠ ' '.toUInt8 then .ok none else .ok (some 0)

def Ordered : Step → Prop
  | number a b => a ≤ b
  | separator => True

variable {t : List Char} {step : Step} {n : Nat}

theorem read_ok (hordered : step.Ordered) : (∃ r, step.read t = .ok r) ↔ step.Cut t := by
  cases step with
  | number a b =>
      rw [Cut, ← Text.isSome_slice hordered, read, S3.number]
      cases Text.slice t a b with
      | none => exact ⟨fun ⟨r, h⟩ => (by cases h), fun h => (by cases h)⟩
      | some piece => exact ⟨fun _ => rfl, fun _ => ⟨_, rfl⟩⟩
  | separator =>
      refine iff_of_true ?_ trivial
      simp only [read]
      split
      · exact ⟨_, rfl⟩
      · split <;> exact ⟨_, rfl⟩

theorem read_some : step.read t = .ok (some n) ↔ step.Holds t n := by
  cases step with
  | number a b =>
      rw [read, S3.number, Holds]
      cases Text.slice t a b with
      | none => exact ⟨fun h => (by cases h), fun ⟨piece, h, _⟩ => (by cases h)⟩
      | some piece => simp
  | separator =>
      rw [read, Holds]
      cases (bytes t)[10]? with
      | none => exact ⟨fun h => (by cases h), fun ⟨_, sep, h, _⟩ => (by cases h)⟩
      | some sep =>
          by_cases hsep : sep ≠ 'T'.toUInt8 ∧ sep ≠ ' '.toUInt8
          · simp only [if_pos hsep, Option.some.injEq, exists_eq_left']
            exact ⟨fun h => (by cases h), fun ⟨_, h⟩ => (h.elim hsep.1 hsep.2).elim⟩
          · simp only [if_neg hsep, Option.some.injEq, exists_eq_left', Except.ok.injEq]
            rw [not_and_or, not_not, not_not] at hsep
            exact ⟨fun h => ⟨h.symm, hsep⟩, fun h => h.1.symm⟩

end Step

def readSteps (t : List Char) : List Step → Except Panic (Option (List Nat))
  | [] => .ok (some [])
  | step :: steps => do
      let some n ← step.read t | return none
      let some ns ← readSteps t steps | return none
      return some (n :: ns)

theorem readSteps_some {t : List Char} {steps : List Step} {ns : List Nat} :
    readSteps t steps = .ok (some ns) ↔ List.Forall₂ (Step.Holds t) steps ns := by
  induction steps generalizing ns with
  | nil =>
      rw [readSteps, List.forall₂_nil_left_iff]
      exact ⟨fun h => (by cases h; rfl), fun h => by rw [h]⟩
  | cons step steps ih =>
      rw [readSteps, List.forall₂_cons_left_iff]
      constructor
      · intro h
        rcases hread : step.read t with p | ⟨_ | n⟩
        · rw [hread] at h
          cases h
        · rw [hread] at h
          cases h
        · rcases hrest : readSteps t steps with p | ⟨_ | ms⟩
          · simp only [hread, hrest] at h
            cases h
          · simp only [hread, hrest] at h
            cases h
          · simp only [hread, hrest] at h
            cases h
            exact ⟨n, ms, Step.read_some.mp hread, ih.mp hrest, rfl⟩
      · rintro ⟨n, ms, hread, hrest, rfl⟩
        rw [Step.read_some.mpr hread]
        simp only [ih.mpr hrest]
        rfl

theorem readSteps_ok {t : List Char} {steps : List Step} (hordered : ∀ step ∈ steps, step.Ordered) :
    (∃ r, readSteps t steps = .ok r) ↔
      ∀ before step later, steps = before ++ step :: later → (∀ s ∈ before, ∃ n, s.Holds t n) → step.Cut t := by
  induction steps with
  | nil =>
      refine ⟨fun _ before step later h => ?_, fun _ => ⟨_, rfl⟩⟩
      exact absurd h (List.append_ne_nil_of_right_ne_nil _ (List.cons_ne_nil _ _)).symm
  | cons step steps ih =>
      have ih := ih fun s hs => hordered s (List.mem_cons_of_mem _ hs)
      have hcut := Step.read_ok (t := t) (hordered step List.mem_cons_self)
      constructor
      · rintro ⟨r, h⟩ before step' later hsteps hbefore
        cases before with
        | nil =>
            obtain ⟨rfl, rfl⟩ := List.cons.inj hsteps
            refine hcut.mp ?_
            cases hread : step.read t with
            | error p =>
                rw [readSteps, hread] at h
                cases h
            | ok r => exact ⟨r, rfl⟩
        | cons s before =>
            obtain ⟨rfl, hrest⟩ := List.cons.inj hsteps
            obtain ⟨n, hn⟩ := hbefore step List.mem_cons_self
            refine ih.mp ?_ before step' later hrest fun s hs => hbefore s (List.mem_cons_of_mem _ hs)
            cases hreadSteps : readSteps t steps with
            | error p =>
                simp only [readSteps, Step.read_some.mpr hn, hreadSteps] at h
                cases h
            | ok r => exact ⟨r, rfl⟩
      · intro h
        obtain ⟨r, hread⟩ := hcut.mpr (h [] step steps rfl fun s hs => absurd hs List.not_mem_nil)
        cases r with
        | none => exact ⟨none, by rw [readSteps, hread]; rfl⟩
        | some n =>
            obtain ⟨r, hrest⟩ := ih.mpr fun before step' later hsteps hbefore =>
              h (step :: before) step' later (congrArg (step :: ·) hsteps) (List.forall_mem_cons.mpr ⟨⟨n, Step.read_some.mp hread⟩, hbefore⟩)
            simp only [readSteps, hread, hrest]
            cases r with
            | none => exact ⟨none, rfl⟩
            | some ns => exact ⟨some (n :: ns), rfl⟩

def steps : List Step :=
  [.number 0 4, .number 5 7, .number 8 10, .separator, .number 11 13, .number 14 16, .number 17 19]

/-- Every slice that the parser reaches is between characters. -/
def Sliceable (t : List Char) : Prop :=
  19 ≤ byteLen t → ∀ before step later, steps = before ++ step :: later → (∀ s ∈ before, ∃ n, s.Holds t n) → step.Cut t

structure InRange (year month day hour minute second : Nat) : Prop where
  month : 1 ≤ month ∧ month ≤ 12
  day : 1 ≤ day ∧ day ≤ 31
  hour : hour ≤ 23
  minute : minute ≤ 59
  second : second ≤ 60
  year : 1970 ≤ year

/-- The text has a number in range at the place of every field. -/
def Legible (t : List Char) (year month day hour minute second : Nat) : Prop :=
  19 ≤ byteLen t ∧ List.Forall₂ (Step.Holds t) steps [year, month, day, 0, hour, minute, second] ∧
    InRange year month day hour minute second

def finish (year month day hour minute second : Nat) : Except Panic (Option Duration) := do
  if ¬(1 ≤ month ∧ month ≤ 12) ∨ ¬(1 ≤ day ∧ day ≤ 31) then return none
  if hour > 23 ∨ minute > 59 ∨ second > 60 then return none
  if year < 1970 then return none
  let some days ← gregorianDaysSinceEpoch year month day | return none
  let totalSeconds ← add (← add (← add (← mul days 86400) (← mul hour 3600)) (← mul minute 60)) second
  return some (.fromSecs totalSeconds)

theorem parse_eq (s : String) : parseIso8601ToEpoch s =
    if byteLen (trim s.toList) < 19 then .ok none else
      match readSteps (trim s.toList) steps with
      | .error p => .error p
      | .ok (some [year, month, day, _, hour, minute, second]) => finish year month day hour minute second
      | .ok _ => .ok none := by
  rw [parseIso8601ToEpoch]
  generalize trim s.toList = t
  split
  · rfl
  simp only [steps, readSteps, Step.read]
  rcases number t 0 4 with p | _ | year
  · rfl
  · rfl
  rcases number t 5 7 with p | _ | month
  · rfl
  · rfl
  rcases number t 8 10 with p | _ | day
  · rfl
  · rfl
  rcases (bytes t)[10]? with _ | sep
  · rfl
  by_cases hsep : sep ≠ 'T'.toUInt8 ∧ sep ≠ ' '.toUInt8
  · simp only [if_pos hsep]
    rfl
  simp only [if_neg hsep]
  rcases number t 11 13 with p | _ | hour
  · rfl
  · rfl
  rcases number t 14 16 with p | _ | minute
  · rfl
  · rfl
  rcases number t 17 19 with p | _ | second
  · rfl
  · rfl
  rfl

theorem lt_of_parseDigits {cs : List Char} {n : Nat} (h : parseDigits cs = some n) : n < 10 ^ cs.length := by
  have hfold {cs : List Char} {k n : Nat} (h : cs.foldlM (fun n c => if c.isDigit then some (10 * n + (c.toNat - '0'.toNat)) else none) k =
      some n) : n < (k + 1) * 10 ^ cs.length := by
    induction cs generalizing k with
    | nil =>
        cases h
        rw [List.length_nil, Nat.pow_zero]
        omega
    | cons c cs ih =>
        rw [List.foldlM_cons] at h
        by_cases hdigit : c.isDigit = true
        · rw [if_pos hdigit] at h
          have hlt := ih h
          have hc : c.toNat - '0'.toNat ≤ 9 := by
            rw [Char.isDigit, Bool.and_eq_true, decide_eq_true_iff, decide_eq_true_iff] at hdigit
            have hle : c.toNat ≤ '9'.toNat := UInt32.le_iff_toNat_le.mp hdigit.2
            have hnine : '9'.toNat = 57 := rfl
            have hzero : '0'.toNat = 48 := rfl
            omega
          refine Nat.lt_of_lt_of_le hlt ?_
          rw [List.length_cons, Nat.pow_succ', ← Nat.mul_assoc]
          exact Nat.mul_le_mul_right _ (by omega)
        · rw [if_neg hdigit] at h
          cases h
  cases cs with
  | nil => cases h
  | cons c cs =>
      have hlt := hfold h
      rwa [Nat.zero_add, Nat.one_mul] at hlt

theorem lt_pow_length_of_parseU64 {cs : List Char} {n : Nat} (h : parseU64 cs = some n) : n < 10 ^ cs.length := by
  simp only [parseU64, Option.bind_eq_bind, Option.bind_eq_some_iff] at h
  obtain ⟨m, hm, h⟩ := h
  split at h
  · cases h
    refine Nat.lt_of_lt_of_le (lt_of_parseDigits hm) (Nat.pow_le_pow_right (by decide) ?_)
    split
    · exact List.length_tail ▸ Nat.sub_le _ _
    · exact Nat.le_refl _
  · cases h

theorem Step.lt_of_holds {t : List Char} {a b n : Nat} (h : (Step.number a b).Holds t n) : n < 10 ^ (b - a) := by
  obtain ⟨piece, hpiece, hn⟩ := h
  obtain ⟨-, l, r, -, -, hlen⟩ := Text.slice_eq_some.mp hpiece
  exact Nat.lt_of_lt_of_le (lt_pow_length_of_parseU64 hn) (Nat.pow_le_pow_right (by decide) (hlen ▸ Text.length_le_byteLen piece))

variable {year month day hour minute second : Nat}

theorem finish_none (h : ¬InRange year month day hour minute second) : finish year month day hour minute second = .ok none := by
  rw [finish]
  by_cases hdate : ¬(1 ≤ month ∧ month ≤ 12) ∨ ¬(1 ≤ day ∧ day ≤ 31)
  · rw [if_pos hdate]
    rfl
  by_cases htime : hour > 23 ∨ minute > 59 ∨ second > 60
  · rw [if_neg hdate, if_pos htime]
    rfl
  by_cases hyear : year < 1970
  · rw [if_neg hdate, if_neg htime, if_pos hyear]
    rfl
  · exact absurd ⟨by omega, by omega, by omega, by omega, by omega, by omega⟩ h

theorem finish_some (h : InRange year month day hour minute second) (hyear : year < 10000) :
    ∃ secs : Nat, finish year month day hour minute second = .ok (some (.fromSecs secs)) ∧
      (secs : Int) = epochDay year month day * 86400 + hour * 3600 + minute * 60 + second := by
  obtain ⟨days, hdays, hepoch, hbound⟩ := gregorianDaysSinceEpoch_ok ⟨h.year, Nat.le_of_lt_succ hyear⟩ h.month h.day
  obtain ⟨hmonth, hday, hhour, hminute, hsecond, hyear⟩ := h
  obtain ⟨a, ha, h₁⟩ : ∃ a, a = days * 86400 ∧ mul days 86400 = .ok a := ⟨_, rfl, mul_ok (by omega)⟩
  obtain ⟨b, hb, h₂⟩ : ∃ b, b = hour * 3600 ∧ mul hour 3600 = .ok b := ⟨_, rfl, mul_ok (by omega)⟩
  obtain ⟨c, hc, h₃⟩ : ∃ c, c = minute * 60 ∧ mul minute 60 = .ok c := ⟨_, rfl, mul_ok (by omega)⟩
  have h₄ : add a b = .ok (a + b) := add_ok (by omega)
  have h₅ : add (a + b) c = .ok (a + b + c) := add_ok (by omega)
  have h₆ : add (a + b + c) second = .ok (a + b + c + second) := add_ok (by omega)
  refine ⟨a + b + c + second, ?_, ?_⟩
  · rw [finish, if_neg (by omega), if_neg (by omega), if_neg (by omega)]
    rw [hdays, ok_bind]
    simp only
    rw [h₁, ok_bind, h₂, ok_bind, h₄, ok_bind, h₃, ok_bind, h₅, ok_bind, h₆, ok_bind]
    rfl
  · rw [← hepoch]
    omega

theorem fields_of_holds {t : List Char} {ns : List Nat} (h : List.Forall₂ (Step.Holds t) steps ns) :
    ∃ year month day hour minute second, ns = [year, month, day, 0, hour, minute, second] ∧ year < 10000 := by
  simp only [steps, List.forall₂_cons_left_iff, List.forall₂_nil_left_iff] at h
  obtain ⟨year, _, hyear, ⟨month, _, -, ⟨day, _, -, ⟨sep, _, hsep, ⟨hour, _, -, ⟨minute, _, -, ⟨second, _, -, rfl, rfl⟩, rfl⟩, rfl⟩,
    rfl⟩, rfl⟩, rfl⟩, rfl⟩ := h
  rw [hsep.1]
  exact ⟨year, month, day, hour, minute, second, rfl, Step.lt_of_holds hyear⟩

theorem year_of_legible {t : List Char} (h : Legible t year month day hour minute second) : year < 10000 := by
  obtain ⟨_, _, _, _, _, _, hns, hyear⟩ := fields_of_holds h.2.1
  obtain ⟨rfl, -⟩ := List.cons.inj hns
  exact hyear

theorem finish_ok (hyear : year < 10000) : ∃ r, finish year month day hour minute second = .ok r := by
  by_cases hrange : InRange year month day hour minute second
  · obtain ⟨secs, hsecs, -⟩ := finish_some hrange hyear
    exact ⟨_, hsecs⟩
  · exact ⟨_, finish_none hrange⟩

variable {s : String}

theorem parse_ok : (∃ r, parseIso8601ToEpoch s = .ok r) ↔ Sliceable (trim s.toList) := by
  have hordered : ∀ step ∈ steps, step.Ordered := by
    simp [steps, Step.Ordered]
  rw [parse_eq, Sliceable]
  by_cases hlen : byteLen (trim s.toList) < 19
  · rw [if_pos hlen]
    exact iff_of_true ⟨_, rfl⟩ fun h => absurd hlen (Nat.not_lt_of_le h)
  · rw [if_neg hlen, forall_prop_of_true (Nat.le_of_not_lt hlen), ← readSteps_ok hordered]
    rcases hread : readSteps (trim s.toList) steps with p | _ | ns
    · exact iff_of_false (fun ⟨r, h⟩ => by cases h) (fun ⟨r, h⟩ => by cases h)
    · exact iff_of_true ⟨_, rfl⟩ ⟨_, rfl⟩
    · refine iff_of_true ?_ ⟨_, rfl⟩
      obtain ⟨year, month, day, hour, minute, second, rfl, hyear⟩ := fields_of_holds (readSteps_some.mp hread)
      exact finish_ok hyear

theorem parse_some {epoch : Duration} : parseIso8601ToEpoch s = .ok (some epoch) ↔
    ∃ year month day hour minute second, Legible (trim s.toList) year month day hour minute second ∧
      finish year month day hour minute second = .ok (some epoch) := by
  rw [parse_eq]
  constructor
  · intro h
    by_cases hlen : byteLen (trim s.toList) < 19
    · rw [if_pos hlen] at h
      cases h
    rw [if_neg hlen] at h
    rcases hread : readSteps (trim s.toList) steps with p | _ | ns
    · rw [hread] at h
      cases h
    · rw [hread] at h
      cases h
    · obtain ⟨year, month, day, hour, minute, second, rfl, -⟩ := fields_of_holds (readSteps_some.mp hread)
      rw [hread] at h
      refine ⟨year, month, day, hour, minute, second, ⟨Nat.le_of_not_lt hlen, readSteps_some.mp hread, ?_⟩, h⟩
      by_contra hrange
      have hnone := (finish_none hrange).symm.trans h
      cases hnone
  · rintro ⟨year, month, day, hour, minute, second, ⟨hlen, hfields, -⟩, h⟩
    rw [if_neg (Nat.not_lt_of_le hlen), readSteps_some.mpr hfields]
    exact h

section Read

variable {cs : List Char} {n : Nat}

theorem decimalFrom_eq (k : Nat) (cs : List Char) : DateTime.decimalFrom k cs =
    cs.foldlM (fun n c => if c.isDigit then some (10 * n + (c.toNat - '0'.toNat)) else none) k := by
  induction cs generalizing k with
  | nil => rfl
  | cons c cs ih =>
      rw [DateTime.decimalFrom, DateTime.digitOf, List.foldlM_cons]
      by_cases hdigit : c.isDigit = true
      · simp only [if_pos hdigit, Option.bind_some, Option.bind_eq_bind, ih]
      · simp only [if_neg hdigit, Option.bind_none, Option.bind_eq_bind]

theorem isDigit_of_decimalFrom {k : Nat} (h : DateTime.decimalFrom k cs = some n) : ∀ c ∈ cs, c.isDigit = true := by
  induction cs generalizing k with
  | nil => exact fun c hc => absurd hc List.not_mem_nil
  | cons c cs ih =>
      obtain ⟨digit, hdigit, hrest⟩ := Option.bind_eq_some_iff.mp h
      rw [DateTime.digitOf] at hdigit
      split at hdigit
      · exact List.forall_mem_cons.mpr ⟨‹_›, ih hrest⟩
      · cases hdigit

theorem utf8Size_of_isDigit {c : Char} (h : c.isDigit = true) : c.utf8Size = 1 := by
  rw [Char.isDigit, Bool.and_eq_true, decide_eq_true_iff, decide_eq_true_iff] at h
  exact Char.utf8Size_eq_one_iff.mpr (UInt32.le_trans h.2 (by decide))

theorem byteLen_of_isDigit (h : ∀ c ∈ cs, c.isDigit = true) : byteLen cs = cs.length := by
  induction cs with
  | nil => rfl
  | cons c cs ih =>
      rw [Text.byteLen_cons, utf8Size_of_isDigit (h c List.mem_cons_self), ih fun d hd => h d (List.mem_cons_of_mem c hd),
        List.length_cons, Nat.add_comm]

theorem parseU64_of_decimal (h : DateTime.decimal cs = some n) (hne : cs ≠ []) (hlen : cs.length ≤ 4) : parseU64 cs = some n := by
  have hhead : cs.head? ≠ some '+' := by
    intro hplus
    have hdigit := isDigit_of_decimalFrom h '+' (List.mem_of_mem_head? hplus)
    cases hdigit
  have hdigits : parseDigits cs = some n := by
    cases cs with
    | nil => exact absurd rfl hne
    | cons c cs => rwa [DateTime.decimal, decimalFrom_eq] at h
  have hlt : n < 2 ^ 64 := Nat.lt_of_lt_of_le (lt_of_parseDigits hdigits)
    (Nat.le_trans (Nat.pow_le_pow_right (by decide) hlen) (by decide))
  rw [parseU64, if_neg hhead, hdigits]
  exact if_pos hlt

theorem holds_of_decimal {l r : List Char} {a b : Nat} (h : DateTime.decimal cs = some n) (hne : cs ≠ []) (hlen : cs.length ≤ 4)
    (ha : byteLen l = a) (hb : cs.length = b - a) (hle : a ≤ b) : (Step.number a b).Holds (l ++ (cs ++ r)) n :=
  ⟨cs, Text.slice_eq_some.mpr ⟨hle, l, r, rfl, ha, (byteLen_of_isDigit (isDigit_of_decimalFrom h)).trans hb⟩,
    parseU64_of_decimal h hne hlen⟩

variable {t : List Char} {d : DateTime}

theorem ofFields_eq {year month day hour minute second : Nat} {fraction : List Nat} {offset : Int}
    (h : DateTime.ofFields year month day hour minute second fraction offset = some d) :
    d.year = year ∧ d.month = month ∧ d.day = day ∧ d.hour = hour ∧ d.minute = minute ∧ d.second = second := by
  rw [DateTime.ofFields] at h
  split at h
  · cases h
    exact ⟨rfl, rfl, rfl, rfl, rfl, rfl⟩
  · cases h

theorem holds_of_read (h : DateTime.read t = some d) : 19 ≤ byteLen t ∧ (Step.number 0 4).Holds t d.year ∧
    (Step.number 5 7).Holds t d.month ∧ (Step.number 8 10).Holds t d.day ∧ (Step.number 11 13).Holds t d.hour ∧
    (Step.number 14 16).Holds t d.minute ∧ (Step.number 17 19).Holds t d.second := by
  unfold DateTime.read at h
  split at h
  · rename_i y₁ y₂ y₃ y₄ o₁ o₂ d₁ d₂ sep h₁ h₂ m₁ m₂ s₁ s₂ rest
    simp only [Option.bind_eq_bind, Option.bind_eq_some_iff] at h
    obtain ⟨year, hyear, month, hmonth, day, hday, hour, hhour, minute, hminute, second, hsecond, ⟨fraction, zone⟩, -, offset, -, h⟩ := h
    split at h
    · rename_i hsep
      obtain ⟨rfl, rfl, rfl, rfl, rfl, rfl⟩ := ofFields_eq h
      have hlen {cs : List Char} {n : Nat} (h : DateTime.decimal cs = some n) : byteLen cs = cs.length :=
        byteLen_of_isDigit (isDigit_of_decimalFrom h)
      have hsepLen : byteLen [sep] = 1 := by
        rcases hsep with rfl | rfl | rfl <;> rfl
      have h₅ : byteLen ([y₁, y₂, y₃, y₄] ++ ['-']) = 5 := by
        rw [Text.byteLen_append, hlen hyear]
        rfl
      have h₈ : byteLen ([y₁, y₂, y₃, y₄] ++ ['-'] ++ [o₁, o₂] ++ ['-']) = 8 := by
        rw [Text.byteLen_append, Text.byteLen_append, h₅, hlen hmonth]
        rfl
      have h₁₁ : byteLen ([y₁, y₂, y₃, y₄] ++ ['-'] ++ [o₁, o₂] ++ ['-'] ++ [d₁, d₂] ++ [sep]) = 11 := by
        rw [Text.byteLen_append, Text.byteLen_append, h₈, hlen hday, hsepLen]
        rfl
      have h₁₄ : byteLen ([y₁, y₂, y₃, y₄] ++ ['-'] ++ [o₁, o₂] ++ ['-'] ++ [d₁, d₂] ++ [sep] ++ [h₁, h₂] ++ [':']) = 14 := by
        rw [Text.byteLen_append, Text.byteLen_append, h₁₁, hlen hhour]
        rfl
      have h₁₇ : byteLen ([y₁, y₂, y₃, y₄] ++ ['-'] ++ [o₁, o₂] ++ ['-'] ++ [d₁, d₂] ++ [sep] ++ [h₁, h₂] ++ [':'] ++
          [m₁, m₂] ++ [':']) = 17 := by
        rw [Text.byteLen_append, Text.byteLen_append, h₁₄, hlen hminute]
        rfl
      have h₁₉ : byteLen ([y₁, y₂, y₃, y₄] ++ ['-'] ++ [o₁, o₂] ++ ['-'] ++ [d₁, d₂] ++ [sep] ++ [h₁, h₂] ++ [':'] ++
          [m₁, m₂] ++ [':'] ++ [s₁, s₂] ++ rest) = 19 + byteLen rest := by
        rw [Text.byteLen_append, Text.byteLen_append, h₁₇, hlen hsecond]
        rfl
      refine ⟨?_, ?_, ?_, ?_, ?_, ?_, ?_⟩
      · exact Nat.le_trans (Nat.le_add_right 19 _) (Nat.le_of_eq h₁₉.symm)
      · exact holds_of_decimal hyear (List.cons_ne_nil _ _) (Nat.le_refl 4) Text.byteLen_nil rfl (by decide)
      · exact holds_of_decimal hmonth (List.cons_ne_nil _ _) (by simp) h₅ rfl (by decide)
      · exact holds_of_decimal hday (List.cons_ne_nil _ _) (by simp) h₈ rfl (by decide)
      · exact holds_of_decimal hhour (List.cons_ne_nil _ _) (by simp) h₁₁ rfl (by decide)
      · exact holds_of_decimal hminute (List.cons_ne_nil _ _) (by simp) h₁₄ rfl (by decide)
      · exact holds_of_decimal hsecond (List.cons_ne_nil _ _) (by simp) h₁₇ rfl (by decide)
    · cases h
  · cases h

end Read

theorem Step.holds_unique {t : List Char} {step : Step} {n m : Nat} (hn : step.Holds t n) (hm : step.Holds t m) : n = m := by
  have h := (Step.read_some.mpr hn).symm.trans (Step.read_some.mpr hm)
  exact Option.some.inj (Except.ok.inj h)

variable {t : List Char} {d : DateTime}

theorem fields_of_read (h : DateTime.read t = some d) (hlegible : Legible t year month day hour minute second) :
    d.year = year ∧ d.month = month ∧ d.day = day ∧ d.hour = hour ∧ d.minute = minute ∧ d.second = second := by
  obtain ⟨-, hyear, hmonth, hday, hhour, hminute, hsecond⟩ := holds_of_read h
  have hfields := hlegible.2.1
  simp only [steps, List.forall₂_cons, List.forall₂_nil_left_iff] at hfields
  obtain ⟨hyear', hmonth', hday', -, hhour', hminute', hsecond', -⟩ := hfields
  exact ⟨Step.holds_unique hyear hyear', Step.holds_unique hmonth hmonth', Step.holds_unique hday hday',
    Step.holds_unique hhour hhour', Step.holds_unique hminute hminute', Step.holds_unique hsecond hsecond'⟩

theorem epoch_of_read {epoch : Duration} (h : DateTime.read (trim s.toList) = some d)
    (hparse : parseIso8601ToEpoch s = .ok (some epoch)) :
    ∃ secs : Nat, epoch = .fromSecs secs ∧ (secs : Int) = d.localSeconds := by
  obtain ⟨year, month, day, hour, minute, second, hlegible, hfinish⟩ := parse_some.mp hparse
  obtain ⟨secs, hsecs, heq⟩ := finish_some hlegible.2.2 (year_of_legible hlegible)
  obtain ⟨hyear, hmonth, hday, hhour, hminute, hsecond⟩ := fields_of_read h hlegible
  refine ⟨secs, ?_, ?_⟩
  · exact Option.some.inj (Except.ok.inj (hfinish.symm.trans hsecs))
  · rw [heq, DateTime.localSeconds, hyear, hmonth, hday, hhour, hminute, hsecond]

theorem sliceable_of_read (h : DateTime.read t = some d) : Sliceable t := by
  obtain ⟨-, hyear, hmonth, hday, hhour, hminute, hsecond⟩ := holds_of_read h
  have hcut {a b n : Nat} (hle : a ≤ b) (hn : (Step.number a b).Holds t n) : (Step.number a b).Cut t := by
    obtain ⟨piece, hpiece, -⟩ := hn
    exact (Text.isSome_slice hle).mp (Option.isSome_iff_exists.mpr ⟨piece, hpiece⟩)
  intro _ before step later hsteps _
  have hmem : step ∈ steps := by
    rw [hsteps]
    exact List.mem_append_right _ List.mem_cons_self
  simp only [steps, List.mem_cons, List.not_mem_nil, or_false] at hmem
  rcases hmem with rfl | rfl | rfl | rfl | rfl | rfl | rfl
  · exact hcut (by decide) hyear
  · exact hcut (by decide) hmonth
  · exact hcut (by decide) hday
  · trivial
  · exact hcut (by decide) hhour
  · exact hcut (by decide) hminute
  · exact hcut (by decide) hsecond

def seconds (duration : Duration) : ℚ := duration.nanos / 10 ^ 9

/-- The age of what was modified at the instant; it is zero before the instant. -/
def ageAt (now : Duration) (instant : ℚ) : ℚ := max 0 (seconds now - instant)

/-- The timestamp is read as the instant it denotes, if it denotes one. -/
structure ReadRight (s : String) : Prop where
  accepted : ∀ epoch, parseIso8601ToEpoch s = .ok (some epoch) →
    ∃ d, DateTime.read (trim s.toList) = some d ∧ ∃ secs : Nat, epoch = .fromSecs secs ∧ (secs : Int) = ⌊d.instant⌋
  older : ∀ key now age, objectIsOlderThan key (some s) now age = .ok true →
    ∀ d, DateTime.read (trim s.toList) = some d → seconds age ≤ ageAt now d.instant
  invalid : DateTime.read (trim s.toList) = none → ∀ key now age, objectIsOlderThan key (some s) now age = .ok false

/-- A date-time at the offset zero without a part of a second. -/
def UtcSeconds (t : List Char) : Prop :=
  ∃ d, DateTime.read t = some d ∧ d.offset = 0 ∧ DateTime.fractionOf d.fraction = 0

theorem olderThan_of_some {epoch : Duration} (h : parseIso8601ToEpoch s = .ok (some epoch)) (key : String) (now age : Duration) :
    objectIsOlderThan key (some s) now age = .ok (decide (age.nanos ≤ now.nanos - epoch.nanos)) := by
  simp only [objectIsOlderThan, h]
  rfl

theorem olderThan_of_none (h : parseIso8601ToEpoch s = .ok none) (key : String) (now age : Duration) :
    objectIsOlderThan key (some s) now age = .ok false := by
  simp only [objectIsOlderThan, h]
  rfl

theorem olderThan_of_error {p : Panic} (h : parseIso8601ToEpoch s = .error p) (key : String) (now age : Duration) :
    objectIsOlderThan key (some s) now age = .error p := by
  simp only [objectIsOlderThan, h]
  rfl

theorem ageAt_of_le {secs : Nat} {now age : Duration} (h : age.nanos ≤ now.nanos - (Duration.fromSecs secs).nanos) :
    seconds age ≤ ageAt now secs := by
  have h : age.nanos ≤ now.nanos - secs * 1000000000 := h
  rw [ageAt, le_max_iff, seconds, seconds]
  by_cases hle : secs * 1000000000 ≤ now.nanos
  · right
    have hsum : ((age.nanos + secs * 1000000000 : Nat) : ℚ) ≤ now.nanos := by exact_mod_cast (by omega)
    push_cast at hsum
    linarith
  · left
    have hzero : age.nanos = 0 := by omega
    rw [hzero, Nat.cast_zero, zero_div]

theorem ReadRight.utcSeconds (h : ReadRight s) {epoch : Duration} (hparse : parseIso8601ToEpoch s = .ok (some epoch)) :
    UtcSeconds (trim s.toList) := by
  obtain ⟨d, hread, secs, rfl, hfloor⟩ := h.accepted epoch hparse
  obtain ⟨secs', hsecs, hlocal⟩ := epoch_of_read hread hparse
  have hsame : secs = secs' := by
    have hnanos := congrArg Duration.nanos hsecs
    simp only [Duration.fromSecs] at hnanos
    omega
  have hoffset : d.offset = 0 := by
    rw [d.floor_instant] at hfloor
    omega
  -- A second later the object is not yet a second old if a fraction was dropped.
  have holder : objectIsOlderThan "" (some s) (.fromSecs (secs + 1)) (.fromSecs 1) = .ok true := by
    rw [olderThan_of_some hparse]
    refine congrArg Except.ok (decide_eq_true ?_)
    show 1 * 1000000000 ≤ (secs + 1) * 1000000000 - secs * 1000000000
    omega
  have hage := h.older _ _ _ holder d hread
  have hinstant : d.instant = secs + DateTime.fractionOf d.fraction := by
    rw [DateTime.instant, hoffset, ← hlocal, hsame]
    push_cast
    ring
  refine ⟨d, hread, hoffset, le_antisymm ?_ (DateTime.fractionOf_nonneg d.fraction)⟩
  rw [hinstant, ageAt, le_max_iff] at hage
  simp only [seconds, Duration.fromSecs] at hage
  push_cast at hage
  rcases hage with hage | hage
  · linarith
  · linarith

theorem readRight_of_utcSeconds (h : UtcSeconds (trim s.toList)) : ReadRight s := by
  obtain ⟨d, hread, hoffset, hfraction⟩ := h
  have hinstant {secs : Nat} (hsecs : (secs : Int) = d.localSeconds) : d.instant = secs := by
    rw [DateTime.instant, hfraction, hoffset, ← hsecs]
    push_cast
    ring
  refine ⟨fun epoch hparse => ?_, fun key now age holder d' hread' => ?_, fun hnone => ?_⟩
  · obtain ⟨secs, rfl, hsecs⟩ := epoch_of_read hread hparse
    exact ⟨d, hread, secs, rfl, by rw [d.floor_instant, hsecs, hoffset]; omega⟩
  · obtain rfl := Option.some.inj (hread.symm.trans hread')
    rcases hparse : parseIso8601ToEpoch s with p | _ | epoch
    · rw [olderThan_of_error hparse] at holder
      cases holder
    · rw [olderThan_of_none hparse] at holder
      cases holder
    · rw [olderThan_of_some hparse] at holder
      obtain ⟨secs, rfl, hsecs⟩ := epoch_of_read hread hparse
      rw [hinstant hsecs]
      exact ageAt_of_le (of_decide_eq_true (Except.ok.inj holder))
  · rw [hread] at hnone
    cases hnone

/-- A timestamp is read right exactly when no slice is off the character boundaries and
the text, if it has a number in range at the place of every field, is a time of UTC
without a part of a second. -/
theorem readRight_iff (s : String) : ReadRight s ↔ Sliceable (trim s.toList) ∧
    ∀ year month day hour minute second, Legible (trim s.toList) year month day hour minute second →
      UtcSeconds (trim s.toList) := by
  constructor
  · intro h
    refine ⟨?_, fun year month day hour minute second hlegible => ?_⟩
    · cases hread : DateTime.read (trim s.toList) with
      | some d => exact sliceable_of_read hread
      | none =>
          refine parse_ok.mp ?_
          cases hparse : parseIso8601ToEpoch s with
          | ok r => exact ⟨r, rfl⟩
          | error p =>
              have hfalse := h.invalid hread "" ⟨0⟩ ⟨0⟩
              rw [olderThan_of_error hparse] at hfalse
              cases hfalse
    · obtain ⟨secs, hsecs, -⟩ := finish_some hlegible.2.2 (year_of_legible hlegible)
      exact h.utcSeconds (parse_some.mpr ⟨_, _, _, _, _, _, hlegible, hsecs⟩)
  · rintro ⟨hsliceable, hutc⟩
    obtain ⟨r, hparse⟩ := parse_ok.mpr hsliceable
    cases r with
    | some epoch =>
        obtain ⟨year, month, day, hour, minute, second, hlegible, -⟩ := parse_some.mp hparse
        exact readRight_of_utcSeconds (hutc _ _ _ _ _ _ hlegible)
    | none =>
        refine ⟨fun epoch h => ?_, fun key now age h => ?_, fun _ key now age => olderThan_of_none hparse key now age⟩
        · rw [hparse] at h
          cases h
        · rw [olderThan_of_none hparse] at h
          cases h

theorem accepted_of_read (h : DateTime.read (trim s.toList) = some d) (hsep : Step.separator.Holds (trim s.toList) 0)
    (hyear : 1970 ≤ d.year) : ∃ epoch, parseIso8601ToEpoch s = .ok (some epoch) := by
  obtain ⟨hlen, hyearAt, hmonth, hday, hhour, hminute, hsecond⟩ := holds_of_read h
  have hrange : InRange d.year d.month d.day d.hour d.minute d.second :=
    ⟨d.month_mem, ⟨d.day_mem.1, Nat.le_trans d.day_mem.2 (Calendar.daysInMonth_le _ _)⟩, d.hour_le, d.minute_le, d.second_le, hyear⟩
  have hlegible : Legible (trim s.toList) d.year d.month d.day d.hour d.minute d.second :=
    ⟨hlen, .cons hyearAt (.cons hmonth (.cons hday (.cons hsep (.cons hhour (.cons hminute (.cons hsecond .nil)))))), hrange⟩
  obtain ⟨secs, hsecs, -⟩ := finish_some hrange (year_of_legible hlegible)
  exact ⟨_, parse_some.mpr ⟨_, _, _, _, _, _, hlegible, hsecs⟩⟩

/-- `2024-01-15T00:00:00+05:30`. -/
def offsetText : List Char := ['2', '0', '2', '4', '-', '0', '1', '-', '1', '5', 'T', '0', '0', ':', '0', '0', ':', '0', '0'] ++
  ['+', '0', '5', ':', '3', '0']

/-- The offset of a date-time is not looked at. -/
theorem not_readRight : ¬ ∀ s, ReadRight s := by
  intro h
  have hread : ∃ d, DateTime.read (trim (String.ofList offsetText).toList) = some d ∧
      1970 ≤ d.year ∧ d.offset = 330 := by
    rw [String.toList_ofList]
    exact ⟨_, rfl, by decide, rfl⟩
  obtain ⟨d, hread, hyear, hoffset⟩ := hread
  obtain ⟨epoch, hparse⟩ := accepted_of_read hread ⟨rfl, _, by rw [String.toList_ofList]; rfl, .inl rfl⟩ hyear
  obtain ⟨d', hread', hoffset', -⟩ := (h _).utcSeconds hparse
  obtain rfl := Option.some.inj (hread.symm.trans hread')
  cases hoffset.symm.trans hoffset'

theorem slice_of_readSteps {steps : List Step} {p : Panic} (h : readSteps t steps = .error p) : p = .slice := by
  have hread {step : Step} (h : step.read t = .error p) : p = .slice := by
    cases step with
    | number a b =>
        simp only [Step.read, number] at h
        split at h
        · cases h
          rfl
        · cases h
    | separator =>
        simp only [Step.read] at h
        split at h
        · cases h
        · split at h <;> cases h
  induction steps with
  | nil => cases h
  | cons step steps ih =>
      rcases hstep : step.read t with q | _ | n
      · simp only [readSteps, hstep] at h
        cases h
        exact hread hstep
      · simp only [readSteps, hstep] at h
        cases h
      · rcases hrest : readSteps t steps with q | _ | ns
        · simp only [readSteps, hstep, hrest] at h
          cases h
          exact ih hrest
        · simp only [readSteps, hstep, hrest] at h
          cases h
        · simp only [readSteps, hstep, hrest] at h
          cases h

theorem slice_of_error {p : Panic} (h : parseIso8601ToEpoch s = .error p) : p = .slice := by
  rw [parse_eq] at h
  by_cases hlen : byteLen (trim s.toList) < 19
  · rw [if_pos hlen] at h
    cases h
  rw [if_neg hlen] at h
  rcases hread : readSteps (trim s.toList) steps with q | _ | ns
  · rw [hread] at h
    cases h
    exact slice_of_readSteps hread
  · rw [hread] at h
    cases h
  · obtain ⟨year, month, day, hour, minute, second, rfl, hyear⟩ := fields_of_holds (readSteps_some.mp hread)
    have hfinish : ∃ r, finish year month day hour minute second = .ok r := finish_ok hyear
    obtain ⟨r, hr⟩ := hfinish
    rw [hread] at h
    cases hr.symm.trans h

/-- The parser and the comparison return for every clock and age. -/
def Returns (s : String) : Prop :=
  (∃ r, parseIso8601ToEpoch s = .ok r) ∧ ∀ key now age, ∃ older, objectIsOlderThan key (some s) now age = .ok older

theorem returns_iff : Returns s ↔ Sliceable (trim s.toList) := by
  rw [Returns, parse_ok, and_iff_left_of_imp]
  intro hsliceable key now age
  obtain ⟨_ | epoch, hparse⟩ := parse_ok.mpr hsliceable
  · exact ⟨_, olderThan_of_none hparse key now age⟩
  · exact ⟨_, olderThan_of_some hparse key now age⟩

theorem foldlM_returns {objects : List Object} {now age : Duration} {keys : List String} :
    (∃ keys', objects.foldlM (fun keys obj => do
        if ← objectIsOlderThan obj.key (some obj.lastModified) now age then return keys ++ [obj.key]
        return keys) keys = .ok keys') ↔ ∀ obj ∈ objects, Sliceable (trim obj.lastModified.toList) := by
  induction objects generalizing keys with
  | nil => exact iff_of_true ⟨keys, rfl⟩ fun obj hobj => absurd hobj List.not_mem_nil
  | cons obj objects ih =>
      rw [List.forall_mem_cons, List.foldlM_cons, ← parse_ok]
      rcases hparse : parseIso8601ToEpoch obj.lastModified with p | _ | epoch
      · rw [olderThan_of_error hparse]
        exact iff_of_false (fun ⟨keys', h⟩ => by cases h) (fun ⟨⟨r, h⟩, _⟩ => by cases h)
      · rw [olderThan_of_none hparse, and_iff_right ⟨none, rfl⟩]
        exact ih
      · rw [olderThan_of_some hparse, and_iff_right ⟨some epoch, rfl⟩]
        cases hage : decide (age.nanos ≤ now.nanos - epoch.nanos) with
        | true => exact ih
        | false => exact ih

/-- A bucket is listed without a panic exactly when no slice that the parser reaches in a
timestamp is off the character boundaries. -/
theorem listing_returns (s : String) (pages : List (List Object)) (now age : Duration) :
    (Returns s ↔ Sliceable (trim s.toList)) ∧
    ((∃ keys, listKeysOlderThan pages now age = .ok keys) ↔
      ∀ obj ∈ pages.flatten, Sliceable (trim obj.lastModified.toList)) ∧
    ∀ p, parseIso8601ToEpoch s = .error p → p = .slice :=
  ⟨returns_iff, foldlM_returns, fun _ => slice_of_error⟩

/-- `202é-01-15T00:00:00Z`, whose year ends in the middle of a character. -/
def cutText : List Char := ['2', '0', '2', 'é', '-', '0', '1', '-', '1', '5', 'T', '0', '0', ':', '0', '0', ':', '0', '0', 'Z']

theorem listing_panics : ¬ ∀ s, Returns s := by
  intro h
  obtain ⟨⟨r, hr⟩, -⟩ := h (String.ofList cutText)
  have hpanic : parseIso8601ToEpoch (String.ofList cutText) = .error .slice := by
    rw [parseIso8601ToEpoch, String.toList_ofList]
    rfl
  cases hpanic.symm.trans hr

end Catapulte.S3
