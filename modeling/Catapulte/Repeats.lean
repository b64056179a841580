import Catapulte.Quota
import Catapulte.Routing
import Catapulte.Smtp.MultiSender

namespace Catapulte

open Async RoutedEmailSender

section Taken

variable {names : List SenderName} {name : SenderName} {map : List (String × Nat × Nat)}

def countsOf (map : List (String × Nat × Nat)) (name : SenderName) : Nat × Nat := (map.lookup name.name).getD (0, 0)

theorem countsOf_taken (map : List (String × Nat × Nat)) (taken name : SenderName) :
    countsOf (map.filter fun entry => entry.1 ≠ taken.name) name = if name = taken then (0, 0) else countsOf map name := by
  by_cases h : name = taken
  · rw [if_pos h, countsOf, List.lookup_eq_none_iff.mpr]
    · rfl
    · intro entry hentry
      have hne := of_decide_eq_true (List.mem_filter.mp hentry).2
      simpa [h] using Ne.symm hne
  · have hne : name.name ≠ taken.name := by
      intro heq
      cases name
      cases taken
      exact h (congrArg SenderName.mk heq)
    rw [if_neg h, countsOf, lookup_filter_ne hne, countsOf]

theorem takeStats_eq_iff (own : SenderName → Nat × Nat) :
    takeStats names map = (names.map fun name => ⟨name, (own name).1, (own name).2⟩) ↔
      (∀ name ∈ names, own name = countsOf map name) ∧ ∀ name, 2 ≤ names.count name → own name = (0, 0) := by
  induction names generalizing map with
  | nil => exact iff_of_true rfl ⟨fun _ h => absurd h List.not_mem_nil, fun _ h => absurd h (by simp)⟩
  | cons first names ih =>
      have hfirst : (⟨first, (countsOf map first).1, (countsOf map first).2⟩ : SenderStats) = ⟨first, (own first).1, (own first).2⟩ ↔
          own first = countsOf map first := by
        rw [SenderStats.mk.injEq, Prod.ext_iff]
        exact ⟨fun h => ⟨h.2.1.symm, h.2.2.symm⟩, fun h => ⟨rfl, h.1.symm, h.2.symm⟩⟩
      have hrepeated : 2 ≤ (first :: names).count first ↔ first ∈ names := by
        rw [List.count_cons_self, ← List.one_le_count_iff]
        omega
      have hother {name : SenderName} (h : name ≠ first) : (first :: names).count name = names.count name :=
        List.count_cons_of_ne (Ne.symm h)
      rw [takeStats, List.map_cons, List.cons.injEq, ih, List.forall_mem_cons, ← countsOf, hfirst, and_assoc]
      refine and_congr_right fun h => ?_
      constructor
      · rintro ⟨hrest, hdup⟩
        refine ⟨fun name hname => ?_, fun name hcount => ?_⟩
        · by_cases hne : name = first
          · exact hne ▸ h
          · rw [hrest name hname, countsOf_taken, if_neg hne]
        · by_cases hne : name = first
          · subst hne
            rw [hrest name (hrepeated.mp hcount), countsOf_taken, if_pos rfl]
          · exact hdup name (hother hne ▸ hcount)
      · rintro ⟨hrest, hdup⟩
        refine ⟨fun name hname => ?_, fun name hcount => ?_⟩
        · by_cases hne : name = first
          · subst hne
            rw [hdup name (hrepeated.mpr hname), countsOf_taken, if_pos rfl]
          · rw [hrest name hname, countsOf_taken, if_neg hne]
        · exact hdup name (hcount.trans (List.count_le_count_cons))

theorem lookup_takeStats {m : List (SenderName × Nat)} : (insertAnswer m (.ok (takeStats names map))).lookup name =
    if name ∈ names then some (if names.count name = 1 then (countsOf map name).1 else 0) else m.lookup name := by
  induction names generalizing map m with
  | nil => rfl
  | cons first names ih =>
      have hstep : insertAnswer m (.ok (takeStats (first :: names) map)) =
          insertAnswer ((first, (countsOf map first).1) :: m) (.ok (takeStats names (map.filter fun entry => entry.1 ≠ first.name))) := rfl
      rw [hstep, ih, countsOf_taken, lookup_cons_eq]
      by_cases hname : name = first
      · subst hname
        rw [if_pos rfl, if_pos rfl, if_pos List.mem_cons_self, List.count_cons_self]
        by_cases hmem : name ∈ names
        · have hcount := List.one_le_count_iff.mpr hmem
          have hrepeated : ¬names.count name + 1 = 1 := by omega
          rw [if_pos hmem, if_neg hrepeated]
          split <;> rfl
        · rw [if_neg hmem, List.count_eq_zero_of_not_mem hmem, if_pos rfl]
      · rw [if_neg hname, if_neg hname, List.count_cons_of_ne (Ne.symm hname)]
        have hmem : name ∈ first :: names ↔ name ∈ names := by rw [List.mem_cons, or_iff_right hname]
        by_cases h : name ∈ names
        · rw [if_pos h, if_pos (hmem.mpr h)]
        · rw [if_neg h, if_neg (mt hmem.mp h)]

end Taken

section History

variable {history : List Publication} {names : List SenderName} {name : SenderName} {sinceMs : Int} {w : World}
  {c : Choice}

def recorded (history : List Publication) (w : World) : World := { w with events := history.map Publication.row }

def statsMap (history : List Publication) (names : List SenderName) (sinceMs : Int) : List (String × Nat × Nat) :=
  (statsQuery "delivery.succeeded" "delivery.failed" (history.map Publication.row) names sinceMs).map fun row =>
    (row.senderName, row.sentCount.toNat, row.failedCount.toNat)

theorem countsOf_statsMap (hname : name ∈ names) :
    countsOf (statsMap history names sinceMs) name = (sentCount history sinceMs name, failedCount history sinceMs name) := by
  have hw : (recorded history .empty).events = history.map Publication.row := rfl
  rw [← countOfType_sent hw, ← countOfType_failed hw]
  exact lookup_statsQuery hname

theorem getStats_answered (hc : c.fails = false) : SqliteAdapter.getStats (recorded history w) c names sinceMs =
    .ok (takeStats names (statsMap history names sinceMs)) := by
  rw [SqliteAdapter.getStats, senderStats]
  by_cases hempty : names.isEmpty = true
  · rw [if_pos hempty, List.isEmpty_iff.mp hempty]
    rfl
  · rw [if_neg hempty, if_neg (by simp [hc])]
    rfl

theorem getStats_failed (history : List Publication) (w : World) (sinceMs : Int) (hc : c.fails = true)
    (hname : name ∈ names) : ∃ e, SqliteAdapter.getStats (recorded history w) c names sinceMs = .error e := by
  have hempty : ¬names.isEmpty = true := fun h => List.ne_nil_of_mem hname (List.isEmpty_iff.mp h)
  rw [SqliteAdapter.getStats, senderStats, if_neg hempty, if_pos hc]
  exact ⟨_, rfl⟩

theorem stats_eq_usage_iff : takeStats names (statsMap history names sinceMs) = usage history names sinceMs ↔
    ∀ name, 2 ≤ names.count name → sentCount history sinceMs name = 0 ∧ failedCount history sinceMs name = 0 := by
  rw [usage, takeStats_eq_iff fun name => (sentCount history sinceMs name, failedCount history sinceMs name),
    and_iff_right fun name hname => (countsOf_statsMap hname).symm]
  simp only [Prod.mk.injEq]

end History

section Queries

variable {history : List Publication} {w : World} {c : List SenderName → Int → Choice} {name : SenderName}
  {group : Int × List SenderName} {groups : List (Int × List SenderName)} {m : List (SenderName × Nat)}

def answerOf (history : List Publication) (w : World) (c : List SenderName → Int → Choice) (names : List SenderName)
    (sinceMs : Int) : Except SenderUsageError (List SenderStats) :=
  SqliteAdapter.getStats (recorded history w) (c names sinceMs) names sinceMs

def reported (history : List Publication) (group : Int × List SenderName) (name : SenderName) : Nat :=
  if group.2.count name = 1 then sentCount history group.1 name else 0

def Heard (c : List SenderName → Int → Choice) (name : SenderName) (group : Int × List SenderName) : Prop :=
  name ∈ group.2 ∧ (c group.2 group.1).fails = false

theorem lookup_insertStats_heard (h : Heard c name group) :
    (insertStats (answerOf history w c) m group).lookup name = some (reported history group name) := by
  rw [insertStats, answerOf, getStats_answered h.2, lookup_takeStats, if_pos h.1, countsOf_statsMap h.1, reported]

theorem lookup_insertStats_unheard (h : ¬Heard c name group) :
    (insertStats (answerOf history w c) m group).lookup name = m.lookup name := by
  rw [insertStats, answerOf]
  cases hc : (c group.2 group.1).fails with
  | false => rw [getStats_answered hc, lookup_takeStats, if_neg fun hname => h ⟨hname, hc⟩]
  | true =>
      cases hnames : group.2 with
      | nil => rfl
      | cons first names =>
          obtain ⟨e, he⟩ := getStats_failed history w group.1 hc
            (hnames ▸ List.mem_cons_self : first ∈ group.2)
          rw [← hnames, he]
          rfl

theorem lookup_sentMap (name : SenderName) (groups : List (Int × List SenderName)) :
    (∃ group ∈ groups, Heard c name group ∧
      (sentMap (answerOf history w c) groups).lookup name = some (reported history group name)) ∨
    (∀ group ∈ groups, ¬Heard c name group) ∧ (sentMap (answerOf history w c) groups).lookup name = none := by
  induction groups using List.reverseRecOn with
  | nil => exact .inr ⟨fun _ h => absurd h List.not_mem_nil, rfl⟩
  | append_singleton groups last ih =>
      rw [sentMap, List.foldl_concat, ← sentMap]
      by_cases h : Heard c name last
      · exact .inl ⟨last, List.mem_append_right _ List.mem_cons_self, h, lookup_insertStats_heard h⟩
      · rw [lookup_insertStats_unheard h]
        rcases ih with ⟨group, hgroup, hheard, hlookup⟩ | ⟨hunheard, hlookup⟩
        · exact .inl ⟨group, List.mem_append_left _ hgroup, hheard, hlookup⟩
        · refine .inr ⟨fun group hgroup => ?_, hlookup⟩
          rcases List.mem_append.mp hgroup with hgroup | hgroup
          · exact hunheard group hgroup
          · exact List.mem_singleton.mp hgroup ▸ h

theorem lookup_sentMap_last (h : Heard c name group) :
    (sentMap (answerOf history w c) (groups ++ [group])).lookup name = some (reported history group name) := by
  rw [sentMap, List.foldl_concat]
  exact lookup_insertStats_heard h

variable {order : HashOrder} {nowMs : Int} {email : OutboundEmail} {t : List (Exchange SendPorts)}
  {passed : List (SenderRoute × Except String Unit)}

/-- Every query of the run is answered by the adapter over this history. -/
def AnsweredFrom (history : List Publication) (w : World) (c : List SenderName → Int → Choice)
    (t : List (Exchange SendPorts)) : Prop :=
  ∀ names sinceMs answer, (⟨.getStats names sinceMs, answer⟩ : Exchange SendPorts) ∈ t →
    answer = answerOf history w c names sinceMs

theorem AnsweredFrom.append {t' : List (Exchange SendPorts)} (h : AnsweredFrom history w c t)
    (h' : AnsweredFrom history w c t') : AnsweredFrom history w c (t ++ t') := by
  intro names sinceMs answer hmem
  rcases List.mem_append.mp hmem with hmem | hmem
  · exact h _ _ _ hmem
  · exact h' _ _ _ hmem

/-- The routes that the first pass of a run of `send` uses. -/
def FirstPass (self : RoutedEmailSender) (order : HashOrder) (nowMs : Int) (email : OutboundEmail)
    (t : List (Exchange SendPorts)) (passed : List SenderRoute) : Prop :=
  ∃ t₁ t₂ t₃ sentMap r, t = t₁ ++ (t₂ ++ t₃) ∧
    (querySent usagePort (order.iterate (sinceMsToNames nowMs (self.candidates email.senderDomain))) []).Answered t₁ sentMap ∧
    (tryRoutes transportPort email (overQuota sentMap) (self.candidates email.senderDomain) none).Answered t₂ r ∧
    passed = (t₂.filterMap tried).map Prod.fst

theorem querySent_sentMap {sentMap' : List (SenderName × Nat)} (h : (querySent usagePort groups []).Answered t sentMap')
    (ht : AnsweredFrom history w c t) : sentMap' = sentMap (answerOf history w c) groups := by
  obtain ⟨hfst, rfl, -⟩ := querySent_answered h
  have hqueried : groups.map (fun group => (group, answerOf history w c group.2 group.1)) = t.filterMap queried := by
    rw [← hfst, List.map_map]
    refine (List.map_congr_left fun x hx => ?_).trans (List.map_id _)
    obtain ⟨⟨sinceMs, names⟩, answer⟩ := x
    rw [ht names sinceMs answer (mem_queried.mp hx)]
    rfl
  rw [sentMap_eq, hqueried]
  rfl

theorem querySent_run (history : List Publication) (w : World) (c : List SenderName → Int → Choice)
    (groups : List (Int × List SenderName)) (m : List (SenderName × Nat)) :
    ∃ t, (querySent usagePort groups m).Answered t (groups.foldl (insertStats (answerOf history w c)) m) ∧
      AnsweredFrom history w c t := by
  induction groups generalizing m with
  | nil => exact ⟨[], ⟨rfl, rfl⟩, fun _ _ _ h => absurd h List.not_mem_nil⟩
  | cons group groups ih =>
      obtain ⟨t, hrun, ht⟩ := ih (insertStats (answerOf history w c) m group)
      refine ⟨_, ⟨answerOf history w c group.2 group.1, t, rfl, hrun⟩, fun names sinceMs answer hmem => ?_⟩
      rcases List.mem_cons.mp hmem with heq | hmem
      · cases heq
        rfl
      · exact ht _ _ _ hmem

theorem tryRoutes_run (email : OutboundEmail) (skip : SenderRoute → Bool) (routes : List SenderRoute) (last : Option SendError) :
    ∃ t r, (tryRoutes transportPort email skip routes last).Answered t r ∧ ∀ x ∈ t.filterMap tried, x.2 ≠ .ok () := by
  induction routes generalizing last with
  | nil => exact ⟨[], _, ⟨rfl, rfl⟩, fun _ h => absurd h List.not_mem_nil⟩
  | cons route routes ih =>
      rw [tryRoutes]
      split
      · exact ih last
      · obtain ⟨t, r, hrun, ht⟩ := ih (some (.send route.name "refused"))
        exact ⟨_, r, ⟨.error "refused", t, rfl, hrun⟩, List.forall_mem_cons.mpr ⟨fun h => (by cases h), ht⟩⟩

variable {self : RoutedEmailSender} {passed : List SenderRoute} {result : Option (Except SendError SenderName)}

/-- The candidates that the collected counts leave. -/
def withinQuota (history : List Publication) (w : World) (c : List SenderName → Int → Choice) (order : HashOrder)
    (nowMs : Int) (candidates : List SenderRoute) : List SenderRoute :=
  candidates.filter fun route =>
    !overQuota (sentMap (answerOf history w c) (order.iterate (sinceMsToNames nowMs candidates))) route

theorem FirstPass.subset (h : FirstPass self order nowMs email t passed) (ht : AnsweredFrom history w c t) :
    passed ⊆ withinQuota history w c order nowMs (self.candidates email.senderDomain) := by
  obtain ⟨t₁, t₂, t₃, sentMap', r, rfl, hquery, htry, rfl⟩ := h
  have hmap := querySent_sentMap hquery fun _ _ _ hmem => ht _ _ _ (List.mem_append_left _ hmem)
  rw [withinQuota, ← hmap]
  exact (tryRoutes_pass htry).1.order.subset

theorem firstPass_refused (hne : withinQuota history w c order nowMs (self.candidates email.senderDomain) ≠ []) :
    ∃ t result, (self.send usagePort transportPort order nowMs email).Answered t result ∧ AnsweredFrom history w c t ∧
      FirstPass self order nowMs email t (withinQuota history w c order nowMs (self.candidates email.senderDomain)) := by
  obtain ⟨t₁, hquery, ht₁⟩ := querySent_run history w c
    (order.iterate (sinceMsToNames nowMs (self.candidates email.senderDomain))) []
  rw [← sentMap] at hquery
  obtain ⟨t₂, r, htry, hrefused⟩ := tryRoutes_run email (overQuota (sentMap (answerOf history w c)
    (order.iterate (sinceMsToNames nowMs (self.candidates email.senderDomain))))) (self.candidates email.senderDomain) none
  obtain ⟨hpass, hqueried⟩ := tryRoutes_pass htry
  rw [← withinQuota] at hpass
  obtain ⟨hfst, hlast⟩ := hpass.refused_all hrefused
  have ht₂ : AnsweredFrom history w c t₂ := by
    intro names sinceMs answer hmem
    rw [← mem_queried, hqueried] at hmem
    cases hmem
  rcases hlast with ⟨hnil, -⟩ | ⟨route, err, -, rfl⟩
  · rw [hnil] at hfst
    exact absurd hfst.symm hne
  · have hcandidates : ¬(self.candidates email.senderDomain).isEmpty = true := by
      intro hempty
      rw [List.isEmpty_iff] at hempty
      rw [hempty] at hne
      exact hne rfl
    refine ⟨t₁ ++ (t₂ ++ []), some (.error (.send route.name err)), ?_, ?_, t₁, t₂, [], _, _, rfl, hquery, htry, hfst.symm⟩
    · rw [send, if_neg hcandidates]
      exact Program.answered_bind.mpr ⟨t₁, _, _, rfl, hquery, Program.answered_bind.mpr ⟨t₂, [], _, rfl, htry, rfl, rfl⟩⟩
    · rw [List.append_nil]
      exact ht₁.append ht₂

def lastly (group : Int × List SenderName) : HashOrder where
  iterate groups := if group ∈ groups then groups.erase group ++ [group] else groups
  perm groups := by
    split
    · rename_i h
      exact (List.perm_append_comm.trans (List.perm_cons_erase h).symm)
    · exact .refl groups

variable {route : SenderRoute} {quota : SenderQuota}

theorem overQuota_iff_lookup {m : List (SenderName × Nat)} (hq : route.quota = some quota) :
    overQuota m route = true ↔ quota.count ≤ (m.lookup route.name).getD 0 := by
  rw [overQuota, hq, Option.any_some, decide_eq_true_iff]

theorem overQuota_always_iff (history : List Publication) (w : World) (c : List SenderName → Int → Choice)
    (groups : List (Int × List SenderName)) (hq : route.quota = some quota) (hpos : 0 < quota.count) :
    (∀ order : HashOrder, overQuota (sentMap (answerOf history w c) (order.iterate groups)) route = true) ↔
      (∃ group ∈ groups, Heard c route.name group) ∧
        ∀ group ∈ groups, Heard c route.name group → quota.count ≤ reported history group route.name := by
  simp only [overQuota_iff_lookup hq]
  constructor
  · intro h
    refine ⟨?_, fun group hgroup hheard => ?_⟩
    · rcases lookup_sentMap route.name groups with ⟨group, hgroup, hheard, -⟩ | ⟨-, hnone⟩
      · exact ⟨group, hgroup, hheard⟩
      · have hzero := h insertionOrder
        simp only [insertionOrder, id_eq] at hzero
        rw [hnone, Option.getD_none] at hzero
        omega
    · have hlast := h (lastly group)
      simp only [lastly, if_pos hgroup] at hlast
      rw [lookup_sentMap_last hheard, Option.getD_some] at hlast
      exact hlast
  · rintro ⟨⟨group, hgroup, hheard⟩, h⟩ order
    rcases lookup_sentMap route.name (order.iterate groups) with ⟨group', hgroup', hheard', hsome⟩ | ⟨hunheard, -⟩
    · rw [hsome, Option.getD_some]
      exact h group' ((order.perm groups).mem_iff.mp hgroup') hheard'
    · exact absurd hheard (hunheard group ((order.perm groups).mem_iff.mpr hgroup))

/-- The quotas survive for this request and this email: every name is answered with its own
counts, and the first pass of no run uses a route whose name has its quota of Sent events
in the own window of the route. -/
structure QuotasSurvive (history : List Publication) (w : World) (c : List SenderName → Int → Choice)
    (names : List SenderName) (sinceMs : Int) (sender : RoutedEmailSender) (nowMs : Int) (email : OutboundEmail) : Prop where
  stats : ∀ choice stats, SqliteAdapter.getStats (recorded history w) choice names sinceMs = .ok stats →
    stats = usage history names sinceMs
  firstPass : ∀ order t result passed, (sender.send usagePort transportPort order nowMs email).Answered t result →
    AnsweredFrom history w c t → FirstPass sender order nowMs email t passed → ∀ route ∈ passed, ∀ quota,
    route.quota = some quota → sentCount history (quota.range.sinceMs nowMs) route.name < quota.count

/-- A name that is asked for twice has no events in the window. -/
def RepeatsUnused (history : List Publication) (names : List SenderName) (sinceMs : Int) : Prop :=
  ∀ name, 2 ≤ names.count name → sentCount history sinceMs name = 0 ∧ failedCount history sinceMs name = 0

/-- Some answer speaks about a route that has its quota used up, and every one that does
has the name of the route once, with a count that uses the quota up as well. -/
def ShowsQuotas (history : List Publication) (c : List SenderName → Int → Choice) (nowMs : Int)
    (candidates : List SenderRoute) : Prop :=
  ∀ route ∈ candidates, ∀ quota, route.quota = some quota → 0 < quota.count →
    quota.count ≤ sentCount history (quota.range.sinceMs nowMs) route.name →
    (∃ group ∈ sinceMsToNames nowMs candidates, Heard c route.name group) ∧
    ∀ group ∈ sinceMsToNames nowMs candidates, Heard c route.name group →
      group.2.count route.name = 1 ∧ quota.count ≤ sentCount history group.1 route.name

theorem le_reported_iff {group : Int × List SenderName} {name : SenderName} {n : Nat} (hn : 0 < n) :
    n ≤ reported history group name ↔ group.2.count name = 1 ∧ n ≤ sentCount history group.1 name := by
  rw [reported]
  split
  · rename_i h
    exact (and_iff_right h).symm
  · rename_i h
    exact iff_of_false (by omega) fun hle => h hle.1

theorem stats_survive_iff {names : List SenderName} {sinceMs : Int} :
    (∀ choice stats, SqliteAdapter.getStats (recorded history w) choice names sinceMs = .ok stats →
      stats = usage history names sinceMs) ↔ RepeatsUnused history names sinceMs := by
  rw [RepeatsUnused, ← stats_eq_usage_iff]
  constructor
  · exact fun h => h {} _ (getStats_answered rfl)
  · intro h choice stats hstats
    cases hc : choice.fails with
    | false =>
        rw [getStats_answered hc, Except.ok.injEq] at hstats
        rw [← hstats, h]
    | true =>
        cases names with
        | nil => exact (Except.ok.inj hstats).symm
        | cons first names =>
            obtain ⟨e, he⟩ := getStats_failed history w sinceMs hc (List.mem_cons_self (a := first) (l := names))
            rw [he] at hstats
            cases hstats

theorem firstPass_survives_iff :
    (∀ order t result passed, (self.send usagePort transportPort order nowMs email).Answered t result →
      AnsweredFrom history w c t → FirstPass self order nowMs email t passed → ∀ route ∈ passed, ∀ quota,
      route.quota = some quota → sentCount history (quota.range.sinceMs nowMs) route.name < quota.count) ↔
    ShowsQuotas history c nowMs (self.candidates email.senderDomain) := by
  constructor
  · intro h route hroute quota hq hpos hspent
    have halways := (overQuota_always_iff history w c
      (sinceMsToNames nowMs (self.candidates email.senderDomain)) hq hpos).mp
    simp only [le_reported_iff hpos] at halways
    refine halways fun order => ?_
    by_contra hleft
    have hmem : route ∈ withinQuota history w c order nowMs (self.candidates email.senderDomain) :=
      List.mem_filter.mpr ⟨hroute, by simpa using hleft⟩
    obtain ⟨t, result, hrun, ht, hpass⟩ := firstPass_refused (List.ne_nil_of_mem hmem)
    have hlt := h order t result _ hrun ht hpass route hmem quota hq
    omega
  · intro h order t result passed hrun ht hpass route hroute quota hq
    by_contra hspent
    obtain ⟨hcandidate, hleft⟩ := List.mem_filter.mp (hpass.subset ht hroute)
    have hover : overQuota (sentMap (answerOf history w c)
        (order.iterate (sinceMsToNames nowMs (self.candidates email.senderDomain)))) route = true := by
      rcases Nat.eq_zero_or_pos quota.count with hzero | hpos
      · rw [overQuota_iff_lookup hq, hzero]
        exact Nat.zero_le _
      · have hshown := h route hcandidate quota hq hpos (Nat.le_of_not_lt hspent)
        simp only [← le_reported_iff hpos] at hshown
        exact (overQuota_always_iff history w c _ hq hpos).mpr hshown order
    rw [hover] at hleft
    cases hleft

end Queries

section Config

variable {history : List Publication} {w : World} {c : List SenderName → Int → Choice} {names : List SenderName}
  {sinceMs nowMs : Int} {email : OutboundEmail} {candidates : List SenderRoute} {pairs : List (Int × SenderName)}
  {name : SenderName} {toUppercase : String → String} {lookup : String → Option String} {config : MultiSenderConfig}
  {self : RoutedEmailSender}

theorem count_namesAt : (namesAt pairs sinceMs).count name = pairs.count (sinceMs, name) := by
  induction pairs using List.reverseRecOn with
  | nil => rfl
  | append_singleton pairs pair ih =>
      obtain ⟨s, n⟩ := pair
      rw [namesAt_concat, List.count_append, List.count_append, ih]
      by_cases h : sinceMs = s
      · simp [h, List.count_singleton]
      · simp [h, Ne.symm h]

theorem heard_iff (hsame : ∀ route ∈ candidates, ∀ route' ∈ candidates, route.name = route'.name → route = route')
    (hc : ∀ names sinceMs, (c names sinceMs).fails = false) {route : SenderRoute} {quota : SenderQuota}
    (hr : route ∈ candidates) (hq : route.quota = some quota) {group : Int × List SenderName} :
    group ∈ sinceMsToNames nowMs candidates ∧ Heard c route.name group ↔
      group = (quota.range.sinceMs nowMs, namesAt (candidates.filterMap (windowOf nowMs)) (quota.range.sinceMs nowMs)) := by
  obtain ⟨s, names⟩ := group
  have hown : (quota.range.sinceMs nowMs, route.name) ∈ candidates.filterMap (windowOf nowMs) :=
    List.mem_filterMap.mpr ⟨route, hr, by rw [windowOf, hq]; rfl⟩
  rw [sinceMsToNames_eq, mem_grouped, Heard, Prod.mk.injEq, and_iff_left (hc _ _)]
  constructor
  · rintro ⟨⟨rfl, -⟩, hmem⟩
    obtain ⟨route', hr', hwindow⟩ := List.mem_filterMap.mp (mem_namesAt.mp hmem)
    obtain ⟨quota', hq', heq⟩ := Option.map_eq_some_iff.mp hwindow
    obtain ⟨rfl, hname⟩ := Prod.mk.inj heq
    obtain rfl := hsame route' hr' route hr hname
    rw [hq, Option.some.injEq] at hq'
    rw [hq']
    exact ⟨rfl, rfl⟩
  · rintro ⟨rfl, rfl⟩
    have hmem := mem_namesAt.mpr hown
    exact ⟨⟨rfl, List.ne_nil_of_mem hmem⟩, hmem⟩

theorem count_window (nowMs : Int)
    (hsame : ∀ route ∈ candidates, ∀ route' ∈ candidates, route.name = route'.name → route = route')
    {route : SenderRoute} {quota : SenderQuota} (hr : route ∈ candidates) (hq : route.quota = some quota) :
    (namesAt (candidates.filterMap (windowOf nowMs)) (quota.range.sinceMs nowMs)).count route.name =
      (candidates.map SenderRoute.name).count route.name := by
  rw [count_namesAt, List.count_filterMap, List.count, List.countP_map]
  refine List.countP_congr fun route' hr' => ?_
  simp only [beq_iff_eq, Function.comp_apply]
  constructor
  · intro hwindow
    obtain ⟨quota', -, heq⟩ := Option.map_eq_some_iff.mp hwindow
    exact (Prod.mk.inj heq).2
  · intro hname
    obtain rfl := hsame route' hr' route hr hname
    rw [windowOf, hq]
    rfl

theorem showsQuotas_iff (hsame : ∀ route ∈ candidates, ∀ route' ∈ candidates, route.name = route'.name → route = route')
    (hc : ∀ names sinceMs, (c names sinceMs).fails = false) : ShowsQuotas history c nowMs candidates ↔
    ∀ route ∈ candidates, ∀ quota, route.quota = some quota → 0 < quota.count →
      quota.count ≤ sentCount history (quota.range.sinceMs nowMs) route.name →
      (candidates.map SenderRoute.name).count route.name = 1 := by
  refine forall₂_congr fun route hr => forall₂_congr fun quota hq => forall₂_congr fun hpos hspent => ?_
  rw [← count_window nowMs hsame hr hq]
  constructor
  · rintro ⟨⟨group, hgroup, hheard⟩, h⟩
    have hcount := (h group hgroup hheard).1
    rwa [(heard_iff hsame hc hr hq).mp ⟨hgroup, hheard⟩] at hcount
  · intro hcount
    obtain ⟨hgroup, hheard⟩ := (heard_iff hsame hc hr hq).mpr rfl
    refine ⟨⟨_, hgroup, hheard⟩, fun group hgroup hheard => ?_⟩
    rw [(heard_iff hsame hc hr hq).mp ⟨hgroup, hheard⟩]
    exact ⟨hcount, hspent⟩

theorem route_of_name (hconfig : MultiSenderConfig.fromLookup toUppercase lookup = .ok config)
    (hnew : RoutedEmailSender.new config.routes = .ok self) : ∀ route ∈ self.candidates email.senderDomain,
    ∀ route' ∈ self.candidates email.senderDomain, route.name = route'.name → route = route' := by
  have hsender {route : SenderRoute} (hr : route ∈ self.candidates email.senderDomain) : ∃ sender ∈ config.senders,
      route = SenderRoute.normalize ⟨sender.name, sender.priority, sender.quota, sender.matchSenderDomain⟩ := by
    have hmem : route ∈ self.routes := by
      rcases List.mem_append.mp hr with hr | hr <;> exact (List.mem_filter.mp hr).1
    rw [routes_of_new hnew] at hmem
    obtain ⟨given, hgiven, rfl⟩ := List.mem_map.mp ((List.perm_insertionSort byPriority _).mem_iff.mp hmem)
    obtain ⟨sender, hs, rfl⟩ := List.mem_map.mp hgiven
    exact ⟨sender, hs, rfl⟩
  intro route hr route' hr' hname
  obtain ⟨sender, hs, rfl⟩ := hsender hr
  obtain ⟨sender', hs', rfl⟩ := hsender hr'
  rw [MultiSenderConfig.sender_of_name hconfig hs hs' hname]

theorem config_quotas_iff (hconfig : MultiSenderConfig.fromLookup toUppercase lookup = .ok config)
    (hnew : RoutedEmailSender.new config.routes = .ok self) (hc : ∀ names sinceMs, (c names sinceMs).fails = false) :
    QuotasSurvive history w c names sinceMs self nowMs email ↔ RepeatsUnused history names sinceMs ∧
      ∀ route ∈ self.candidates email.senderDomain, ∀ quota, route.quota = some quota → 0 < quota.count →
        quota.count ≤ sentCount history (quota.range.sinceMs nowMs) route.name →
        ((self.candidates email.senderDomain).map SenderRoute.name).count route.name = 1 := by
  rw [← showsQuotas_iff (route_of_name hconfig hnew) hc, ← stats_survive_iff (w := w), ← firstPass_survives_iff (w := w)]
  exact ⟨fun h => ⟨h.stats, h.firstPass⟩, fun h => ⟨h.1, h.2⟩⟩

end Config

/-- Repeated names keep their quotas exactly where an answer drops no count that matters. -/
theorem quotasSurvive_iff (history : List Publication) (w : World) (c : List SenderName → Int → Choice)
    (names : List SenderName) (sinceMs : Int) (self : RoutedEmailSender) (nowMs : Int) (email : OutboundEmail) :
    QuotasSurvive history w c names sinceMs self nowMs email ↔
      RepeatsUnused history names sinceMs ∧ ShowsQuotas history c nowMs (self.candidates email.senderDomain) :=
  ⟨fun h => ⟨stats_survive_iff.mp h.stats, firstPass_survives_iff.mp h.firstPass⟩,
    fun h => ⟨stats_survive_iff.mpr h.1, firstPass_survives_iff.mpr h.2⟩⟩

/-- The variables of a primary sender that is listed twice, and of a backup. -/
def listedTwice : String → Option String
  | "CATAPULTE_SENDERS" => some "primary,primary,backup"
  | "CATAPULTE_SENDER_PRIMARY_HOST" | "CATAPULTE_SENDER_BACKUP_HOST" => some "smtp.example.com"
  | "CATAPULTE_SENDER_PRIMARY_QUOTA_COUNT" => some "1"
  | "CATAPULTE_SENDER_PRIMARY_QUOTA_RANGE" => some "daily"
  | _ => none

def upper (s : String) : String := String.ofList (s.toList.map Char.toUpper)

def primaryOnce : SenderRoute := ⟨⟨"primary"⟩, 100, some ⟨1, .daily⟩, none⟩

def sentOnce : List Publication := [⟨1, .sent ⟨1⟩ ⟨"primary"⟩ none, 0⟩]

/-- The second entry of the primary sender wipes out the first, and the email goes
through the primary sender in the first pass. -/
theorem quotas_lost : ∃ config self, MultiSenderConfig.fromLookup upper listedTwice = .ok config ∧
    RoutedEmailSender.new config.routes = .ok self ∧
    SqliteAdapter.getStats (recorded sentOnce .empty) {} [⟨"primary"⟩, ⟨"primary"⟩] 0 =
      .ok [⟨⟨"primary"⟩, 1, 0⟩, ⟨⟨"primary"⟩, 0, 0⟩] ∧
    (∃ t, (self.send usagePort transportPort insertionOrder 0 newsletter).Answered t (some (.ok ⟨"primary"⟩)) ∧
      AnsweredFrom sentOnce .empty (fun _ _ => {}) t ∧ FirstPass self insertionOrder 0 newsletter t [primaryOnce]) ∧
    primaryOnce.quota = some ⟨1, .daily⟩ ∧ sentCount sentOnce (QuotaRange.daily.sinceMs 0) ⟨"primary"⟩ = 1 ∧
    ¬QuotasSurvive sentOnce .empty (fun _ _ => {}) [⟨"primary"⟩, ⟨"primary"⟩] 0 self 0 newsletter := by
  have hstats : SqliteAdapter.getStats (recorded sentOnce .empty) {} [⟨"primary"⟩, ⟨"primary"⟩] 0 =
      .ok [⟨⟨"primary"⟩, 1, 0⟩, ⟨⟨"primary"⟩, 0, 0⟩] := by decide
  refine ⟨_, _, rfl, rfl, hstats, ?_, rfl, by decide, ?_⟩
  · refine ⟨[⟨.getStats [⟨"primary"⟩, ⟨"primary"⟩] 0, .ok [⟨⟨"primary"⟩, 1, 0⟩, ⟨⟨"primary"⟩, 0, 0⟩]⟩,
      ⟨.deliver primaryOnce newsletter, .ok ()⟩], ?_, ?_, ?_⟩
    · exact ⟨_, _, rfl, _, _, rfl, rfl, rfl⟩
    · intro names sinceMs answer hmem
      rcases List.mem_cons.mp hmem with heq | hmem
      · cases heq
        exact hstats.symm
      · cases List.mem_singleton.mp hmem
    · exact ⟨[_], [_], [], _, _, rfl, ⟨_, _, rfl, rfl, rfl⟩, ⟨_, _, rfl, rfl, rfl⟩, rfl⟩
  · intro h
    have hwrong := h.stats {} _ hstats
    revert hwrong
    decide

end Catapulte
