import Mathlib.Algebra.Ring.Nat
import Mathlib.Data.List.Forall2
import Catapulte.Domain.RoutedEmailSender

namespace Catapulte

structure SenderConfig where
  name : SenderName
  quota : Option SenderQuota
  matchSenderDomain : Option String
  deriving DecidableEq, Repr

structure SenderSnapshot where
  config : SenderConfig
  sentInRange : Nat
  failedInRange : Nat
  deriving DecidableEq, Repr

inductive ListSendersError
  | usage (source : SenderUsageError)
  deriving DecidableEq, Repr

/-- The start of the window of a sender, which is the epoch where it has no quota. -/
def SenderConfig.sinceMs (config : SenderConfig) (nowMs : Int) : Int :=
  config.quota.elim 0 fun quota => quota.range.sinceMs nowMs

/-- The snapshot made of what `stats_map.get(&config.name)` finds. -/
def SenderConfig.snapshot (config : SenderConfig) (stats : Option SenderStats) : SenderSnapshot :=
  ⟨config, stats.elim 0 SenderStats.sentInRange, stats.elim 0 SenderStats.failedInRange⟩

namespace ListSendersService

open RoutedEmailSender (push grouped namesAt mem_grouped)

def groups (configs : List SenderConfig) (nowMs : Int) : List (Int × List SenderName) :=
  configs.foldl (fun groups config => push (config.sinceMs nowMs) config.name groups) []

/-- `stats_map.insert(s.name.clone(), s)` for each answer, with the last entry in front. -/
def insertResults (statsMap : List (SenderName × SenderStats)) (results : List SenderStats) :
    List (SenderName × SenderStats) :=
  results.foldl (fun statsMap s => (s.name, s) :: statsMap) statsMap

variable {M : Type → Type} [Monad M]

def queryStats (usage : SenderUsage M) : List (Int × List SenderName) → List (SenderName × SenderStats) →
    M (Except ListSendersError (List (SenderName × SenderStats)))
  | [], statsMap => return .ok statsMap
  | (sinceMs, names) :: groups, statsMap => do
      match ← usage.getStats names sinceMs with
      | .error source => return .error (.usage source)
      | .ok results => queryStats usage groups (insertResults statsMap results)

def executeInner (configs : List SenderConfig) (usage : SenderUsage M) (order : HashOrder) (nowMs : Int) :
    M (Except ListSendersError (List SenderSnapshot)) := do
  if configs.isEmpty then return .ok []
  match ← queryStats usage (order.iterate (groups configs nowMs)) [] with
  | .error err => return .error err
  | .ok statsMap => return .ok (configs.map fun config => config.snapshot (statsMap.lookup config.name))

variable {configs : List SenderConfig} {nowMs sinceMs : Int} {names : List SenderName}

/-- How far a window reaches back. A month has thirty days. -/
def windowHours : QuotaRange → Nat
  | .hourly => 1
  | .daily => 24
  | .weekly => 7 * 24
  | .monthly => 30 * 24

/-- A window starts with the epoch, unless a quota makes it start later. -/
def windowStart (nowMs : Int) (config : SenderConfig) : Int :=
  match config.quota with
  | none => 0
  | some quota => max 0 (nowMs - windowHours quota.range * (60 * 60 * 1000))

theorem sinceMs_eq (config : SenderConfig) : config.sinceMs nowMs = windowStart nowMs config := by
  unfold SenderConfig.sinceMs windowStart
  cases config.quota with
  | none => rfl
  | some quota =>
      simp only [Option.elim_some, QuotaRange.sinceMs]
      cases quota.range <;> simp only [QuotaRange.offset, windowHours] <;> omega

/-- The names of the senders whose window starts here, in the order of the configurations. -/
def namesFrom (configs : List SenderConfig) (nowMs sinceMs : Int) : List SenderName :=
  (configs.filter (windowStart nowMs · = sinceMs)).map SenderConfig.name

theorem groups_eq (configs : List SenderConfig) (nowMs : Int) :
    groups configs nowMs = grouped (configs.map fun config => (config.sinceMs nowMs, config.name)) := by
  rw [grouped, List.foldl_map]
  rfl

theorem mem_groups : (sinceMs, names) ∈ groups configs nowMs ↔ names = namesFrom configs nowMs sinceMs ∧ names ≠ [] := by
  rw [groups_eq, mem_grouped, namesAt, List.filter_map, List.map_map, namesFrom]
  simp only [sinceMs_eq]
  rfl

/-- A usage port that is a function of the name and the start of the window: an answered
query has, in any order, the entry of each queried name that has one. -/
structure NameByName (getStats : List SenderName → Int → Except SenderUsageError (List SenderStats))
    (stats : SenderName → Int → Option SenderStats) : Prop where
  name : ∀ name sinceMs stat, stats name sinceMs = some stat → stat.name = name
  answer : ∀ names sinceMs results, getStats names sinceMs = .ok results →
    results.Perm (names.filterMap fun name => stats name sinceMs)

section Pure

variable {getStats : List SenderName → Int → Except SenderUsageError (List SenderStats)}
  {stats : SenderName → Int → Option SenderStats} {groups : List (Int × List SenderName)}
  {statsMap statsMap' : List (SenderName × SenderStats)} {name : SenderName} {stat : SenderStats}

/-- The port that answers at once and leaves nothing behind. -/
def pureUsage (getStats : List SenderName → Int → Except SenderUsageError (List SenderStats)) : SenderUsage Id := ⟨getStats⟩

theorem queryStats_error (err : SenderUsageError) (h : getStats names sinceMs = .error err) :
    queryStats (pureUsage getStats) ((sinceMs, names) :: groups) statsMap = .error (.usage err) := by
  simp only [queryStats, pureUsage, bind, h]
  rfl

theorem queryStats_ok {results : List SenderStats} (h : getStats names sinceMs = .ok results) :
    queryStats (pureUsage getStats) ((sinceMs, names) :: groups) statsMap =
      queryStats (pureUsage getStats) groups (insertResults statsMap results) := by
  simp only [queryStats, pureUsage, bind, h]

theorem queryStats_fails_iff : (∃ err, queryStats (pureUsage getStats) groups statsMap = .error err) ↔
    ∃ group ∈ groups, ∃ source, getStats group.2 group.1 = .error source := by
  induction groups generalizing statsMap with
  | nil => exact iff_of_false (fun ⟨err, h⟩ => (by cases h)) fun ⟨group, h, _⟩ => absurd h List.not_mem_nil
  | cons group groups ih =>
      obtain ⟨s, names⟩ := group
      rw [List.exists_mem_cons_iff]
      rcases h : getStats names s with err | results
      · exact iff_of_true ⟨_, queryStats_error err h⟩ (.inl ⟨err, rfl⟩)
      · rw [queryStats_ok h, ih]
        exact ⟨.inr, fun hfails => hfails.resolve_left fun ⟨source, hsource⟩ => (by cases hsource)⟩

theorem mem_insertResults {results : List SenderStats} : (name, stat) ∈ insertResults statsMap results ↔
    (name, stat) ∈ statsMap ∨ stat ∈ results ∧ stat.name = name := by
  induction results generalizing statsMap with
  | nil => simp [insertResults]
  | cons s results ih =>
      rw [insertResults, List.foldl_cons, ← insertResults, ih]
      simp only [List.mem_cons, Prod.mk.injEq]
      grind

theorem mem_queryStats (h : queryStats (pureUsage getStats) groups statsMap = .ok statsMap') :
    (name, stat) ∈ statsMap' ↔ (name, stat) ∈ statsMap ∨ ∃ group ∈ groups, ∃ results,
      getStats group.2 group.1 = .ok results ∧ stat ∈ results ∧ stat.name = name := by
  induction groups generalizing statsMap with
  | nil =>
      cases h
      simp
  | cons group groups ih =>
      obtain ⟨s, names⟩ := group
      cases hstats : getStats names s with
      | error err =>
          rw [queryStats_error err hstats] at h
          cases h
      | ok results =>
          rw [queryStats_ok hstats] at h
          rw [ih h, mem_insertResults, List.exists_mem_cons_iff, hstats, or_assoc]
          simp only [Except.ok.injEq, exists_eq_left']

theorem lookup_queryStats (hn : (configs.map SenderConfig.name).Nodup) (hf : NameByName getStats stats)
    (hg : groups.Perm (ListSendersService.groups configs nowMs))
    (h : queryStats (pureUsage getStats) groups [] = .ok statsMap) {config : SenderConfig} (hc : config ∈ configs) :
    statsMap.lookup config.name = stats config.name (config.sinceMs nowMs) := by
  have hown {stat : SenderStats} (hentry : (config.name, stat) ∈ statsMap) :
      stats config.name (config.sinceMs nowMs) = some stat := by
    obtain hentry | ⟨⟨s, names⟩, hgroup, results, hresults, hstat, hname⟩ := (mem_queryStats h).mp hentry
    · exact absurd hentry List.not_mem_nil
    obtain ⟨rfl, -⟩ := mem_groups.mp (hg.mem_iff.mp hgroup)
    obtain ⟨name, hmem, hstat⟩ := List.mem_filterMap.mp ((hf.answer _ _ _ hresults).mem_iff.mp hstat)
    obtain ⟨config', hfilter, rfl⟩ := List.mem_map.mp hmem
    obtain ⟨hconfig', hsince⟩ := List.mem_filter.mp hfilter
    obtain rfl : s = _ := (of_decide_eq_true hsince).symm.trans (sinceMs_eq config').symm
    have hsame : config'.name = config.name := (hf.name _ _ _ hstat).symm.trans hname
    obtain rfl := List.inj_on_of_nodup_map hn hconfig' hc hsame
    exact hstat
  cases hstats : stats config.name (config.sinceMs nowMs) with
  | none =>
      rw [List.lookup_eq_none_iff]
      rintro ⟨name, stat⟩ hentry
      rw [bne_iff_ne]
      rintro rfl
      rw [hown hentry] at hstats
      cases hstats
  | some stat =>
      have hmem : config.name ∈ namesFrom configs nowMs (config.sinceMs nowMs) :=
        List.mem_map.mpr ⟨config, List.mem_filter.mpr ⟨hc, decide_eq_true (sinceMs_eq config).symm⟩, rfl⟩
      have hgroup := hg.mem_iff.mpr (mem_groups.mpr ⟨rfl, List.ne_nil_of_mem hmem⟩)
      have hanswered : ∃ results, getStats (namesFrom configs nowMs (config.sinceMs nowMs)) (config.sinceMs nowMs) = .ok results := by
        cases hresults : getStats (namesFrom configs nowMs (config.sinceMs nowMs)) (config.sinceMs nowMs) with
        | error source =>
            have hfails : ∃ err, queryStats (pureUsage getStats) groups [] = .error err :=
              queryStats_fails_iff.mpr ⟨_, hgroup, source, hresults⟩
            obtain ⟨err, herr⟩ := hfails
            rw [h] at herr
            cases herr
        | ok results => exact ⟨results, rfl⟩
      obtain ⟨results, hresults⟩ := hanswered
      have hstat : stat ∈ results :=
        (hf.answer _ _ _ hresults).mem_iff.mpr (List.mem_filterMap.mpr ⟨config.name, hmem, hstats⟩)
      have hentry := (mem_queryStats h).mpr (.inr ⟨_, hgroup, results, hresults, hstat, hf.name _ _ _ hstats⟩)
      refine RoutedEmailSender.lookup_eq_of_unique hentry fun stat' hentry' => ?_
      exact Option.some.inj ((hown hentry').symm.trans hstats)

/-- What a sender's snapshot has to say: its counts are those of a query for the sender alone,
from the start of its own window. -/
structure CountedAlone (getStats : List SenderName → Int → Except SenderUsageError (List SenderStats))
    (stats : SenderName → Int → Option SenderStats) (nowMs : Int) (config : SenderConfig) (snapshot : SenderSnapshot) :
    Prop where
  same : snapshot.config = config
  found : ∀ stat, stats config.name (windowStart nowMs config) = some stat →
    snapshot.sentInRange = stat.sentInRange ∧ snapshot.failedInRange = stat.failedInRange
  missing : stats config.name (windowStart nowMs config) = none →
    snapshot.sentInRange = 0 ∧ snapshot.failedInRange = 0
  alone : ∀ results, getStats [config.name] (windowStart nowMs config) = .ok results →
    snapshot.sentInRange = (results.map SenderStats.sentInRange).sum ∧
      snapshot.failedInRange = (results.map SenderStats.failedInRange).sum

theorem countedAlone_snapshot (hf : NameByName getStats stats) (config : SenderConfig) :
    CountedAlone getStats stats nowMs config (config.snapshot (stats config.name (config.sinceMs nowMs))) := by
  rw [sinceMs_eq]
  cases hstats : stats config.name (windowStart nowMs config) with
  | none =>
      refine ⟨rfl, fun stat h => (by cases hstats.symm.trans h), fun _ => ⟨rfl, rfl⟩, fun results hresults => ?_⟩
      have hperm := hf.answer _ _ _ hresults
      rw [List.filterMap_cons, hstats, List.filterMap_nil, List.perm_nil] at hperm
      rw [hperm]
      exact ⟨rfl, rfl⟩
  | some stat =>
      refine ⟨rfl, fun stat' h => ?_, fun h => (by cases hstats.symm.trans h), fun results hresults => ?_⟩
      · cases hstats.symm.trans h
        exact ⟨rfl, rfl⟩
      · have hperm := hf.answer _ _ _ hresults
        rw [List.filterMap_cons, hstats, List.filterMap_nil, List.perm_singleton] at hperm
        rw [hperm]
        exact ⟨rfl, rfl⟩

/-- The grouped queries answer as one query for each sender would, and fail just when the query
of one group does. -/
theorem execute_eq_alone (hn : (configs.map SenderConfig.name).Nodup) (hf : NameByName getStats stats) (order : HashOrder)
    (nowMs : Int) :
    ((∃ err, executeInner configs (pureUsage getStats) order nowMs = .error err) ↔
      ∃ sinceMs, namesFrom configs nowMs sinceMs ≠ [] ∧
        ∃ source, getStats (namesFrom configs nowMs sinceMs) sinceMs = .error source) ∧
    ∀ snapshots, executeInner configs (pureUsage getStats) order nowMs = .ok snapshots →
      List.Forall₂ (CountedAlone getStats stats nowMs) configs snapshots := by
  by_cases hempty : configs = []
  · subst hempty
    refine ⟨iff_of_false (fun ⟨err, h⟩ => (by cases h)) fun ⟨sinceMs, h, _⟩ => h rfl, fun snapshots h => ?_⟩
    cases h
    exact .nil
  have hrun : executeInner configs (pureUsage getStats) order nowMs =
      (queryStats (pureUsage getStats) (order.iterate (groups configs nowMs)) []).map fun statsMap =>
        configs.map fun config => config.snapshot (statsMap.lookup config.name) := by
    rw [executeInner, if_neg (by simpa using hempty)]
    cases queryStats (pureUsage getStats) (order.iterate (groups configs nowMs)) [] <;> rfl
  have hg := order.perm (groups configs nowMs)
  rw [hrun]
  constructor
  · have hmap : (∃ err, (queryStats (pureUsage getStats) (order.iterate (groups configs nowMs)) []).map (fun statsMap =>
        configs.map fun config => config.snapshot (statsMap.lookup config.name)) = .error err) ↔
        ∃ err, queryStats (pureUsage getStats) (order.iterate (groups configs nowMs)) [] = .error err := by
      cases queryStats (pureUsage getStats) (order.iterate (groups configs nowMs)) [] with
      | error err => exact iff_of_true ⟨err, rfl⟩ ⟨err, rfl⟩
      | ok statsMap => exact iff_of_false (fun ⟨err, h⟩ => (by cases h)) fun ⟨err, h⟩ => (by cases h)
    rw [hmap, queryStats_fails_iff]
    constructor
    · rintro ⟨⟨s, names⟩, hgroup, hfails⟩
      obtain ⟨rfl, hne⟩ := mem_groups.mp (hg.mem_iff.mp hgroup)
      exact ⟨s, hne, hfails⟩
    · rintro ⟨s, hne, hfails⟩
      exact ⟨_, hg.mem_iff.mpr (mem_groups.mpr ⟨rfl, hne⟩), hfails⟩
  · intro snapshots h
    cases hmap : queryStats (pureUsage getStats) (order.iterate (groups configs nowMs)) [] with
    | error err =>
        rw [hmap] at h
        cases h
    | ok statsMap =>
        rw [hmap] at h
        cases h
        rw [List.forall₂_map_right_iff, List.forall₂_same]
        intro config hc
        rw [lookup_queryStats hn hf hg hmap hc]
        exact countedAlone_snapshot hf config

end Pure

def fourSenders : List SenderConfig :=
  [⟨⟨"alpha"⟩, none, none⟩, ⟨⟨"beta"⟩, some ⟨100, .hourly⟩, none⟩, ⟨⟨"gamma"⟩, some ⟨5, .daily⟩, none⟩,
    ⟨⟨"delta"⟩, some ⟨10, .hourly⟩, none⟩]

def sinceStats (name : SenderName) (sinceMs : Int) : Option SenderStats :=
  if name = ⟨"delta"⟩ then none else some ⟨name, sinceMs.toNat + 3, 1⟩

def sinceUsage (names : List SenderName) (sinceMs : Int) : Except SenderUsageError (List SenderStats) :=
  .ok (names.filterMap fun name => sinceStats name sinceMs)

theorem sinceUsage_nameByName : NameByName sinceUsage sinceStats where
  name name sinceMs stat h := by
    rw [sinceStats, Option.ite_none_left_eq_some] at h
    cases h.2
    rfl
  answer names sinceMs results h := by
    cases h
    exact .refl _

theorem execute_eq_alone_fourSenders :
    (∀ snapshots, executeInner fourSenders (pureUsage sinceUsage) ⟨List.reverse, List.reverse_perm⟩ 100000000 = .ok snapshots →
      List.Forall₂ (CountedAlone sinceUsage sinceStats 100000000) fourSenders snapshots) ∧
    ∃ snapshots, executeInner fourSenders (pureUsage sinceUsage) ⟨List.reverse, List.reverse_perm⟩ 100000000 = .ok snapshots ∧
      snapshots.map (fun snapshot => (snapshot.sentInRange, snapshot.failedInRange)) =
        [(3, 1), (96400003, 1), (13600003, 1), (0, 0)] :=
  ⟨(execute_eq_alone (by decide) sinceUsage_nameByName ⟨List.reverse, List.reverse_perm⟩ 100000000).2, _, rfl, by decide⟩

end ListSendersService

end Catapulte
