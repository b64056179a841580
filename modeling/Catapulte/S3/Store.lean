import Catapulte.Queue.Jetstream
import Catapulte.Text.Utf8

namespace Catapulte.S3

open Nats (trim parseU64)
open Text (byteLen bytes)

/-- How the code can panic: a slice off the character boundaries, an index out of range,
or arithmetic that leaves the `u64`s. -/
inductive Panic
  | slice
  | index
  | overflow

def add (a b : Nat) : Except Panic Nat := if a + b < 2 ^ 64 then .ok (a + b) else .error .overflow

def sub (a b : Nat) : Except Panic Nat := if b ≤ a then .ok (a - b) else .error .overflow

def mul (a b : Nat) : Except Panic Nat := if a * b < 2 ^ 64 then .ok (a * b) else .error .overflow

def monthDays : List Nat := [31, 28, 31, 30, 31, 30, 31, 31, 30, 31, 30, 31]

/-- The loop `for m in 1..month`. -/
def monthOffset (month : Nat) : Except Panic Nat :=
  (List.range' 1 (month - 1)).foldlM (fun offset m => do
    let idx ← sub m 1
    let some days := monthDays[idx]? | .error .index
    add offset days) 0

def gregorianDaysSinceEpoch (year month day : Nat) : Except Panic (Option Nat) := do
  let y ← sub year 1
  let leapDays ← add (← sub (y / 4) (y / 100)) (y / 400)
  if year < 1970 then return none
  let yearsSinceEpoch := year - 1970
  let daysFromYears ← add (← mul yearsSinceEpoch 365) (← sub leapDays (1969 / 4 - 1969 / 100 + 1969 / 400))
  let monthOffset ← monthOffset month
  let isLeap := (year % 4 = 0 ∧ ¬ year % 100 = 0) ∨ year % 400 = 0
  let monthOffset ← if isLeap ∧ month > 2 then add monthOffset 1 else pure monthOffset
  return some (← add (← add daysFromYears monthOffset) (← sub day 1))

/-- `s[a..b].parse().ok()`. -/
def number (s : List Char) (a b : Nat) : Except Panic (Option Nat) :=
  match Text.slice s a b with
  | none => .error .slice
  | some piece => .ok (parseU64 piece)

def parseIso8601ToEpoch (s : String) : Except Panic (Option Duration) := do
  let s := trim s.toList
  if byteLen s < 19 then return none
  let some year ← number s 0 4 | return none
  let some month ← number s 5 7 | return none
  let some day ← number s 8 10 | return none
  let some sep := (bytes s)[10]? | return none
  if sep ≠ 'T'.toUInt8 ∧ sep ≠ ' '.toUInt8 then return none
  let some hour ← number s 11 13 | return none
  let some minute ← number s 14 16 | return none
  let some second ← number s 17 19 | return none
  if ¬(1 ≤ month ∧ month ≤ 12) ∨ ¬(1 ≤ day ∧ day ≤ 31) then return none
  if hour > 23 ∨ minute > 59 ∨ second > 60 then return none
  if year < 1970 then return none
  let some days ← gregorianDaysSinceEpoch year month day | return none
  let totalSeconds ← add (← add (← add (← mul days 86400) (← mul hour 3600)) (← mul minute 60)) second
  return some (.fromSecs totalSeconds)

/-- `key` is only logged. -/
def objectIsOlderThan (_key : String) (lastModified : Option String) (nowSinceEpoch age : Duration) : Except Panic Bool := do
  let some ts := lastModified | return false
  let some objectEpoch ← parseIso8601ToEpoch ts | return false
  let elapsed := nowSinceEpoch.nanos - objectEpoch.nanos
  return decide (age.nanos ≤ elapsed)

structure Object where
  key : String
  lastModified : String

/-- The answer to `list`, page by page. -/
def listKeysOlderThan (pages : List (List Object)) (now age : Duration) : Except Panic (List String) :=
  pages.flatten.foldlM (fun keys obj => do
    if ← objectIsOlderThan obj.key (some obj.lastModified) now age then return keys ++ [obj.key]
    return keys) []

end Catapulte.S3
