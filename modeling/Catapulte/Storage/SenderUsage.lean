import Mathlib.Algebra.Ring.Int.Defs
import Mathlib.Data.List.Dedup
import Catapulte.Domain.SenderQuota
import Catapulte.Storage.World

namespace Catapulte

structure StatsRow where
  senderName : String
  sentCount : Int
  failedCount : Int

/-- `SUM(CASE WHEN event_type = .. THEN 1 ELSE 0 END)`. -/
def sumOfType (eventType : String) (rows : List EventRow) : Int :=
  (rows.map fun e => if e.eventType = eventType then 1 else 0).sum

/-- The `WHERE` clause. -/
def countedRow (sentType failedType : String) (names : List SenderName) (sinceMs : Int) (e : EventRow) :
    Bool :=
  (e.eventType = sentType || e.eventType = failedType) &&
    e.senderName.any (fun senderName => names.any (·.name = senderName)) && sinceMs ≤ e.createdAt

def statsQuery (sentType failedType : String) (events : List EventRow) (names : List SenderName)
    (sinceMs : Int) : List StatsRow :=
  let rows := events.filter (countedRow sentType failedType names sinceMs)
  (rows.filterMap EventRow.senderName).dedup.map fun senderName =>
    let group := rows.filter (fun e => e.senderName = some senderName)
    ⟨senderName, sumOfType sentType group, sumOfType failedType group⟩

/-- `names.iter().map(..)`, where every name takes its entry out of the map. -/
def takeStats : List SenderName → List (String × Nat × Nat) → List SenderStats
  | [], _ => []
  | name :: names, map =>
      let counts := (map.lookup name.name).getD (0, 0)
      ⟨name, counts.1, counts.2⟩ :: takeStats names (map.filter fun entry => entry.1 ≠ name.name)

/-- What the two adapters share: the query tells two event types apart. -/
def senderStats (sentType failedType : String) (w : World) (c : Choice) (names : List SenderName)
    (sinceMs : Int) : Except SenderUsageError (List SenderStats) :=
  if names.isEmpty then .ok []
  else if c.fails then .error (.storage "querying sender stats")
  else .ok <| takeStats names <| (statsQuery sentType failedType w.events names sinceMs).map fun row =>
    (row.senderName, row.sentCount.toNat, row.failedCount.toNat)

namespace SqliteAdapter

def getStats (w : World) (c : Choice) (names : List SenderName) (sinceMs : Int) :
    Except SenderUsageError (List SenderStats) :=
  senderStats "delivery.succeeded" "delivery.failed" w c names sinceMs

end SqliteAdapter

namespace PostgresAdapter

def getStats (w : World) (c : Choice) (names : List SenderName) (sinceMs : Int) :
    Except SenderUsageError (List SenderStats) :=
  senderStats "sent" "failed" w c names sinceMs

end PostgresAdapter

variable {sentType failedType eventType : String} {w : World} {c : Choice} {names : List SenderName}
  {name : SenderName} {sinceMs : Int} {events : List EventRow}

def countOfType (eventType : String) (events : List EventRow) (sinceMs : Int) (name : SenderName) : Nat :=
  events.countP fun e => e.eventType = eventType && e.senderName = some name.name && sinceMs ≤ e.createdAt

theorem sumOfType_eq : sumOfType eventType events = events.countP (fun e => e.eventType = eventType) := by
  induction events with
  | nil => rfl
  | cons e events ih =>
      rw [sumOfType] at ih ⊢
      rw [List.map_cons, List.sum_cons, ih, List.countP_cons]
      by_cases he : e.eventType = eventType <;> simp [he, Int.add_comm]

theorem sumOfType_group (hname : name ∈ names) (htype : eventType = sentType ∨ eventType = failedType) :
    sumOfType eventType ((events.filter (countedRow sentType failedType names sinceMs)).filter
      fun e => e.senderName = some name.name) = countOfType eventType events sinceMs name := by
  rw [sumOfType_eq, List.countP_filter, List.countP_filter, countOfType]
  congr 1
  refine List.countP_congr fun e _ => ?_
  simp only [countedRow, Bool.and_eq_true, Bool.or_eq_true, decide_eq_true_eq]
  constructor
  · rintro ⟨⟨he, hsender⟩, -, hsince⟩
    exact ⟨⟨he, hsender⟩, hsince⟩
  · rintro ⟨⟨he, hsender⟩, hsince⟩
    refine ⟨⟨he, hsender⟩, ⟨?_, ?_⟩, hsince⟩
    · exact he ▸ htype
    · simpa [hsender] using ⟨name, hname, rfl⟩

theorem countOfType_eq_zero (hname : name ∈ names) (htype : eventType = sentType ∨ eventType = failedType)
    (h : name.name ∉ ((events.filter (countedRow sentType failedType names sinceMs)).filterMap
      EventRow.senderName).dedup) : countOfType eventType events sinceMs name = 0 := by
  rw [← Int.natCast_eq_zero, ← sumOfType_group hname htype, sumOfType_eq, Int.natCast_eq_zero,
    List.countP_eq_zero]
  intro e he
  obtain ⟨he, hsender⟩ := List.mem_filter.mp he
  exact absurd (List.mem_dedup.mpr (List.mem_filterMap.mpr ⟨e, he, of_decide_eq_true hsender⟩)) h

theorem lookup_statsQuery (hname : name ∈ names) :
    (((statsQuery sentType failedType events names sinceMs).map fun row =>
      (row.senderName, row.sentCount.toNat, row.failedCount.toNat)).lookup name.name).getD (0, 0) =
      (countOfType sentType events sinceMs name, countOfType failedType events sinceMs name) := by
  unfold statsQuery
  simp only [List.map_map, Function.comp_def]
  by_cases hmem : name.name ∈ ((events.filter (countedRow sentType failedType names sinceMs)).filterMap
      EventRow.senderName).dedup
  · rw [List.lookup_graph _ hmem, sumOfType_group hname (.inl rfl), sumOfType_group hname (.inr rfl)]
    rfl
  · rw [List.lookup_eq_none_iff.mpr]
    · rw [countOfType_eq_zero hname (.inl rfl) hmem, countOfType_eq_zero hname (.inr rfl) hmem]
      rfl
    · rintro entry hentry
      obtain ⟨senderName, hsender, rfl⟩ := List.mem_map.mp hentry
      have hne : name.name ≠ senderName := fun heq => hmem (heq ▸ hsender)
      simpa using hne

theorem lookup_filter_ne {map : List (String × Nat × Nat)} {key key' : String} (h : key ≠ key') :
    (map.filter fun entry => entry.1 ≠ key').lookup key = map.lookup key := by
  induction map with
  | nil => rfl
  | cons entry map ih =>
      obtain ⟨key'', counts⟩ := entry
      rw [List.filter_cons, List.lookup_cons]
      by_cases hkey : key = key''
      · subst hkey
        simp [h]
      · have hbeq : (key == key'') = false := by simpa using hkey
        split
        · rw [List.lookup_cons, hbeq, ih]
        · rw [hbeq, ih]

theorem takeStats_eq {map : List (String × Nat × Nat)} (hn : names.Nodup) :
    takeStats names map = names.map fun name =>
      ⟨name, ((map.lookup name.name).getD (0, 0)).1, ((map.lookup name.name).getD (0, 0)).2⟩ := by
  induction names generalizing map with
  | nil => rfl
  | cons name names ih =>
      obtain ⟨hname, hn⟩ := List.nodup_cons.mp hn
      rw [takeStats, List.map_cons, ih hn]
      refine congrArg _ (List.map_congr_left fun other hother => ?_)
      have hne : other.name ≠ name.name := by
        intro heq
        obtain rfl : other = name := by cases other; cases name; cases heq; rfl
        exact hname hother
      rw [lookup_filter_ne hne]

theorem senderStats_eq (hn : names.Nodup) (hc : c.fails = false) :
    senderStats sentType failedType w c names sinceMs = .ok (names.map fun name =>
      ⟨name, countOfType sentType w.events sinceMs name, countOfType failedType w.events sinceMs name⟩) := by
  unfold senderStats
  by_cases hempty : names.isEmpty = true
  · rw [if_pos hempty, List.isEmpty_iff.mp hempty]
    rfl
  · rw [if_neg hempty, if_neg (by simp [hc]), takeStats_eq hn]
    congr 1
    refine List.map_congr_left fun name hname => ?_
    rw [lookup_statsQuery hname]

end Catapulte
