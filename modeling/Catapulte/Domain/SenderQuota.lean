import Mathlib.Data.List.Induction
import Mathlib.Data.List.Nodup
import Catapulte.Domain.Port

namespace Catapulte

structure SenderStats where
  name : SenderName
  sentInRange : Nat
  failedInRange : Nat
  deriving DecidableEq, Repr

inductive SenderUsageError
  | storage (source : String)
  deriving DecidableEq, Repr

inductive QuotaRange
  | hourly
  | daily
  | weekly
  | monthly
  deriving DecidableEq, Repr

def QuotaRange.offset : QuotaRange → Int
  | hourly => 3600000
  | daily => 86400000
  | weekly => 604800000
  | monthly => 2592000000

/-- A subtraction that saturates is below zero. -/
def QuotaRange.sinceMs (range : QuotaRange) (nowMs : Int) : Int := max (nowMs - range.offset) 0

structure SenderQuota where
  count : Nat
  range : QuotaRange
  deriving DecidableEq, Repr

/-- A route stands for its transport, too. -/
structure SenderRoute where
  name : SenderName
  priority : UInt8
  quota : Option SenderQuota
  matchSenderDomain : Option String
  deriving DecidableEq, Repr

namespace RoutedEmailSender

/-- `map.entry(since_ms).or_default().push(name)`. -/
def push (sinceMs : Int) (name : SenderName) :
    List (Int × List SenderName) → List (Int × List SenderName)
  | [] => [(sinceMs, [name])]
  | (s, names) :: rest =>
      if s = sinceMs then (s, names ++ [name]) :: rest else (s, names) :: push sinceMs name rest

def pushRoute (nowMs : Int) (groups : List (Int × List SenderName)) (route : SenderRoute) :
    List (Int × List SenderName) :=
  match route.quota with
  | none => groups
  | some quota => push (quota.range.sinceMs nowMs) route.name groups

def sinceMsToNames (nowMs : Int) (candidates : List SenderRoute) : List (Int × List SenderName) :=
  candidates.foldl (pushRoute nowMs) []

/-- The answer to one query, inserted with the last entry in front. A failed query is
only logged. -/
def insertAnswer (sentMap : List (SenderName × Nat)) :
    Except SenderUsageError (List SenderStats) → List (SenderName × Nat)
  | .error _ => sentMap
  | .ok stats => stats.foldl (fun sentMap stat => (stat.name, stat.sentInRange) :: sentMap) sentMap

def insertStats (getStats : List SenderName → Int → Except SenderUsageError (List SenderStats))
    (sentMap : List (SenderName × Nat)) (group : Int × List SenderName) : List (SenderName × Nat) :=
  insertAnswer sentMap (getStats group.2 group.1)

/-- What the loop over the groups collects from a usage port that answers so. -/
def sentMap (getStats : List SenderName → Int → Except SenderUsageError (List SenderStats))
    (groups : List (Int × List SenderName)) : List (SenderName × Nat) :=
  groups.foldl (insertStats getStats) []

def overQuota (sentMap : List (SenderName × Nat)) (route : SenderRoute) : Bool :=
  route.quota.any fun quota => quota.count ≤ (sentMap.lookup route.name).getD 0

variable {nowMs sinceMs : Int} {candidates : List SenderRoute} {name : SenderName}
  {groups : List (Int × List SenderName)}

theorem lookup_eq_of_unique {α β : Type} [DecidableEq α] {m : List (α × β)} {key : α} {k : β} (h : (key, k) ∈ m)
    (hk : ∀ k', (key, k') ∈ m → k' = k) : m.lookup key = some k := by
  cases hl : m.lookup key with
  | none =>
      rw [List.lookup_eq_none_iff] at hl
      simpa using hl _ h
  | some k' =>
      obtain ⟨l₁, l₂, rfl, -⟩ := List.lookup_eq_some_iff.mp hl
      rw [hk k' (by simp)]

theorem lookup_cons_eq {α β : Type} [DecidableEq α] (key key' : α) (b : β) (m : List (α × β)) :
    List.lookup key ((key', b) :: m) = if key = key' then some b else m.lookup key := by
  rw [List.lookup_cons]
  by_cases h : key = key'
  · rw [if_pos h, beq_iff_eq.mpr h]
  · rw [if_neg h, beq_eq_false_iff_ne.mpr h]

def grouped (pairs : List (Int × SenderName)) : List (Int × List SenderName) :=
  pairs.foldl (fun groups pair => push pair.1 pair.2 groups) []

theorem lookup_push {s : Int} {n : SenderName} : (push s n groups).lookup sinceMs =
    if sinceMs = s then some ((groups.lookup s).getD [] ++ [n]) else groups.lookup sinceMs := by
  induction groups with
  | nil => rw [push, lookup_cons_eq]; rfl
  | cons group groups ih =>
      obtain ⟨s', names⟩ := group
      by_cases hs : s' = s
      · subst hs
        rw [push, if_pos rfl, lookup_cons_eq, lookup_cons_eq, lookup_cons_eq, if_pos rfl]
        by_cases h : sinceMs = s' <;> simp [h]
      · rw [push, if_neg hs, lookup_cons_eq, lookup_cons_eq, lookup_cons_eq, if_neg (Ne.symm hs), ih]
        by_cases h : sinceMs = s'
        · rw [if_pos h, if_pos h, if_neg (h ▸ hs)]
        · rw [if_neg h, if_neg h]

theorem windows_push (groups : List (Int × List SenderName)) (s : Int) (n : SenderName) :
    (push s n groups).map Prod.fst = groups.map Prod.fst ∨
      s ∉ groups.map Prod.fst ∧ (push s n groups).map Prod.fst = groups.map Prod.fst ++ [s] := by
  induction groups with
  | nil => exact .inr ⟨List.not_mem_nil, rfl⟩
  | cons group groups ih =>
      obtain ⟨s', names⟩ := group
      unfold push
      split
      · exact .inl rfl
      · rename_i hs
        rcases ih with ih | ⟨hs', ih⟩
        · exact .inl (by rw [List.map_cons, List.map_cons, ih])
        · refine .inr ⟨?_, by rw [List.map_cons, List.map_cons, ih, List.cons_append]⟩
          rw [List.map_cons, List.mem_cons, not_or]
          exact ⟨fun heq => hs heq.symm, hs'⟩

variable {pairs : List (Int × SenderName)}

theorem windows_grouped (pairs : List (Int × SenderName)) : ((grouped pairs).map Prod.fst).Nodup := by
  induction pairs using List.reverseRecOn with
  | nil => exact List.nodup_nil
  | append_singleton pairs pair ih =>
      rw [grouped, List.foldl_concat, ← grouped]
      rcases windows_push (grouped pairs) pair.1 pair.2 with heq | ⟨hs, heq⟩
      · rw [heq]
        exact ih
      · rw [heq]
        exact List.nodup_append.mpr ⟨ih, List.nodup_singleton _, fun s hs' _ hlast heq' =>
          hs (List.mem_singleton.mp hlast ▸ heq' ▸ hs')⟩

def namesAt (pairs : List (Int × SenderName)) (sinceMs : Int) : List SenderName :=
  (pairs.filter (·.1 = sinceMs)).map Prod.snd

theorem mem_namesAt : name ∈ namesAt pairs sinceMs ↔ (sinceMs, name) ∈ pairs := by
  simp [namesAt]

theorem namesAt_concat (pairs : List (Int × SenderName)) (pair : Int × SenderName) (sinceMs : Int) :
    namesAt (pairs ++ [pair]) sinceMs = namesAt pairs sinceMs ++ if sinceMs = pair.1 then [pair.2] else [] := by
  rw [namesAt, List.filter_append, List.map_append, List.filter_singleton, namesAt]
  by_cases h : sinceMs = pair.1
  · simp [h]
  · simp [h, Ne.symm h]

theorem lookup_grouped (pairs : List (Int × SenderName)) (sinceMs : Int) :
    (grouped pairs).lookup sinceMs = if namesAt pairs sinceMs = [] then none else some (namesAt pairs sinceMs) := by
  induction pairs using List.reverseRecOn with
  | nil => rfl
  | append_singleton pairs pair ih =>
      rw [grouped, List.foldl_concat, ← grouped, lookup_push]
      rw [namesAt_concat]
      by_cases h : sinceMs = pair.1
      · subst h
        rw [if_pos rfl, if_pos rfl, ih, if_neg (List.append_ne_nil_of_right_ne_nil _ (List.cons_ne_nil _ _))]
        split
        · rename_i hempty
          rw [hempty]
          rfl
        · rfl
      · rw [if_neg h, if_neg h, List.append_nil]
        exact ih

theorem mem_grouped {names : List SenderName} :
    (sinceMs, names) ∈ grouped pairs ↔ names = namesAt pairs sinceMs ∧ names ≠ [] := by
  have hlookup := lookup_grouped pairs sinceMs
  constructor
  · intro h
    have hfound : (grouped pairs).lookup sinceMs = some names :=
      lookup_eq_of_unique h fun names' h' => congrArg Prod.snd (List.inj_on_of_nodup_map (windows_grouped pairs) h' h rfl)
    rw [hlookup] at hfound
    split at hfound
    · cases hfound
    · rename_i hne
      cases hfound
      exact ⟨rfl, hne⟩
  · rintro ⟨rfl, hne⟩
    rw [if_neg hne] at hlookup
    obtain ⟨l₁, l₂, h, -⟩ := List.lookup_eq_some_iff.mp hlookup
    exact h ▸ List.mem_append_right l₁ List.mem_cons_self

def windowOf (nowMs : Int) (route : SenderRoute) : Option (Int × SenderName) :=
  route.quota.map fun quota => (quota.range.sinceMs nowMs, route.name)

theorem sinceMsToNames_eq (nowMs : Int) (candidates : List SenderRoute) :
    sinceMsToNames nowMs candidates = grouped (candidates.filterMap (windowOf nowMs)) := by
  rw [sinceMsToNames, grouped, List.foldl_filterMap]
  congr 1
  funext groups route
  rw [pushRoute, windowOf]
  cases route.quota <;> rfl

def Asked (groups : List (Int × List SenderName)) (name : SenderName) (sinceMs : Int) : Prop :=
  ∃ names, (sinceMs, names) ∈ groups ∧ name ∈ names

theorem asked_iff (hg : groups.Perm (sinceMsToNames nowMs candidates)) :
    Asked groups name sinceMs ↔ ∃ route ∈ candidates, ∃ quota, route.quota = some quota ∧
      route.name = name ∧ quota.range.sinceMs nowMs = sinceMs := by
  have hmem : Asked groups name sinceMs ↔ name ∈ namesAt (candidates.filterMap (windowOf nowMs)) sinceMs := by
    simp only [Asked, hg.mem_iff, sinceMsToNames_eq, mem_grouped]
    constructor
    · rintro ⟨_, ⟨rfl, -⟩, h⟩
      exact h
    · intro h
      exact ⟨_, ⟨rfl, List.ne_nil_of_mem h⟩, h⟩
  rw [hmem, mem_namesAt, List.mem_filterMap]
  simp only [windowOf, Option.map_eq_some_iff, Prod.mk.injEq]
  grind

theorem nodup_of_mem_groups (hn : (candidates.map SenderRoute.name).Nodup)
    (hg : groups.Perm (sinceMsToNames nowMs candidates)) : ∀ group ∈ groups, group.2.Nodup := by
  rintro ⟨s, names⟩ hgroup
  rw [hg.mem_iff, sinceMsToNames_eq, mem_grouped] at hgroup
  obtain ⟨rfl, -⟩ := hgroup
  have hsub : ((candidates.filterMap (windowOf nowMs)).map Prod.snd).Sublist (candidates.map SenderRoute.name) := by
    clear hn hg
    induction candidates with
    | nil => exact .slnil
    | cons route candidates ih =>
        rw [List.filterMap_cons, List.map_cons, windowOf]
        cases route.quota with
        | none => exact ih.cons route.name
        | some quota => exact ih.cons_cons route.name
  exact hn.sublist ((List.filter_sublist.map Prod.snd).trans hsub)

theorem group_unique (hg : groups.Perm (sinceMsToNames nowMs candidates)) {names names' : List SenderName}
    (h : (sinceMs, names) ∈ groups) (h' : (sinceMs, names') ∈ groups) : names = names' := by
  rw [hg.mem_iff, sinceMsToNames_eq, mem_grouped] at h h'
  exact h.1.trans h'.1.symm

theorem mem_insertAnswer {answer : Except SenderUsageError (List SenderStats)} {m : List (SenderName × Nat)}
    {k : Nat} : (name, k) ∈ insertAnswer m answer ↔
      (name, k) ∈ m ∨ ∃ stats, answer = .ok stats ∧ ∃ stat ∈ stats, stat.name = name ∧ stat.sentInRange = k := by
  cases answer with
  | error e => simp [insertAnswer]
  | ok stats =>
      simp only [insertAnswer, Except.ok.injEq, exists_eq_left']
      induction stats generalizing m with
      | nil => simp
      | cons stat stats ih =>
          rw [List.foldl_cons, ih]
          simp only [List.mem_cons, exists_eq_or_imp, Prod.mk.injEq]
          grind

/-- The map built from answered queries, in their order. -/
def collected (answered : List ((Int × List SenderName) × Except SenderUsageError (List SenderStats))) :
    List (SenderName × Nat) :=
  (answered.map Prod.snd).foldl insertAnswer []

theorem sentMap_eq (getStats : List SenderName → Int → Except SenderUsageError (List SenderStats))
    (groups : List (Int × List SenderName)) :
    sentMap getStats groups = collected (groups.map fun group => (group, getStats group.2 group.1)) := by
  rw [collected, List.map_map, List.foldl_map]
  rfl

variable {answered : List ((Int × List SenderName) × Except SenderUsageError (List SenderStats))}

theorem mem_foldl_insertAnswer {answers : List (Except SenderUsageError (List SenderStats))}
    {m : List (SenderName × Nat)} {k : Nat} : (name, k) ∈ answers.foldl insertAnswer m ↔
      (name, k) ∈ m ∨ ∃ stats, .ok stats ∈ answers ∧ ∃ stat ∈ stats, stat.name = name ∧ stat.sentInRange = k := by
  induction answers generalizing m with
  | nil => simp
  | cons answer answers ih =>
      rw [List.foldl_cons, ih, mem_insertAnswer]
      simp only [List.mem_cons]
      grind

theorem mem_collected {k : Nat} : (name, k) ∈ collected answered ↔ ∃ group stats,
    (group, .ok stats) ∈ answered ∧ ∃ stat ∈ stats, stat.name = name ∧ stat.sentInRange = k := by
  rw [collected, mem_foldl_insertAnswer]
  simp only [List.not_mem_nil, false_or, List.mem_map, Prod.exists, exists_eq_right]
  grind

/-- Each successful query is answered with one entry for each queried name. -/
def Answers (answered : List ((Int × List SenderName) × Except SenderUsageError (List SenderStats))) : Prop :=
  ∀ group stats, (group, .ok stats) ∈ answered → (stats.map SenderStats.name).Perm group.2

section Lookup

variable (hn : (candidates.map SenderRoute.name).Nodup)
  (hg : (answered.map Prod.fst).Perm (sinceMsToNames nowMs candidates)) (ha : Answers answered)
  {route : SenderRoute} {quota : SenderQuota} (hr : route ∈ candidates) (hq : route.quota = some quota)

include hn hg ha hr hq

theorem window_of_entry {group : Int × List SenderName} {stats : List SenderStats}
    (hstats : (group, .ok stats) ∈ answered) {stat : SenderStats} (hs : stat ∈ stats)
    (hname : stat.name = route.name) : group.1 = quota.range.sinceMs nowMs := by
  have hmem : route.name ∈ group.2 := (ha group stats hstats).mem_iff.mp (hname ▸ List.mem_map_of_mem hs)
  have hgroup : group ∈ answered.map Prod.fst := List.mem_map.mpr ⟨_, hstats, rfl⟩
  obtain ⟨route', hr', quota', hq', hname', hs'⟩ := (asked_iff hg).mp ⟨group.2, hgroup, hmem⟩
  obtain rfl := List.inj_on_of_nodup_map hn hr' hr hname'
  rw [hq] at hq'
  cases hq'
  exact hs'.symm

theorem lookup_collected {names : List SenderName} {stats : List SenderStats}
    (hstats : ((quota.range.sinceMs nowMs, names), .ok stats) ∈ answered) {stat : SenderStats}
    (hs : stat ∈ stats) (hname : stat.name = route.name) :
    (collected answered).lookup route.name = some stat.sentInRange := by
  refine lookup_eq_of_unique (mem_collected.mpr ⟨_, stats, hstats, stat, hs, hname, rfl⟩) fun k hk => ?_
  obtain ⟨⟨s, names'⟩, stats', hstats', stat', hs', hname', rfl⟩ := mem_collected.mp hk
  obtain rfl : s = _ := window_of_entry hn hg ha hr hq hstats' hs' hname'
  have hnodup : (answered.map Prod.fst).Nodup :=
    List.Nodup.of_map Prod.fst ((hg.map Prod.fst).nodup_iff.mpr (sinceMsToNames_eq nowMs candidates ▸ windows_grouped _))
  have hgroup : names' = names :=
    group_unique hg (List.mem_map.mpr ⟨_, hstats', rfl⟩) (List.mem_map.mpr ⟨_, hstats, rfl⟩)
  have hanswer := List.inj_on_of_nodup_map hnodup hstats' hstats (by rw [hgroup])
  cases hanswer
  have hstatNodup : (stats.map SenderStats.name).Nodup :=
    (ha _ stats hstats).nodup_iff.mpr (nodup_of_mem_groups hn hg _ (List.mem_map.mpr ⟨_, hstats, rfl⟩))
  rw [List.inj_on_of_nodup_map hstatNodup hs' hs (hname'.trans hname.symm)]

theorem lookup_collected_failed
    (h : ∀ names stats, ((quota.range.sinceMs nowMs, names), .ok stats) ∉ answered) :
    (collected answered).lookup route.name = none := by
  rw [List.lookup_eq_none_iff]
  rintro ⟨name, k⟩ hk
  obtain ⟨⟨s, names⟩, stats, hstats, stat, hs, hname, -⟩ := mem_collected.mp hk
  have hne : route.name ≠ name := by
    rintro rfl
    obtain rfl : s = _ := window_of_entry hn hg ha hr hq hstats hs hname
    exact h names stats hstats
  simpa using hne

end Lookup

end RoutedEmailSender

end Catapulte
