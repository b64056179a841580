import Catapulte.Async.Answered
import Catapulte.Domain.RoutedEmailSender

namespace Catapulte

open Async RoutedEmailSender

inductive SendOp
  | getStats (names : List SenderName) (sinceMs : Int)
  | deliver (route : SenderRoute) (email : OutboundEmail)

@[reducible] def SendOp.Reply : SendOp → Type
  | getStats .. => Except SenderUsageError (List SenderStats)
  | deliver .. => Except String Unit

@[reducible] def SendPorts : Interface := ⟨SendOp, SendOp.Reply⟩

def usagePort : SenderUsage (Program SendPorts) := ⟨fun names sinceMs => @Program.call SendPorts (.getStats names sinceMs)⟩

def transportPort : EmailTransport (Program SendPorts) := ⟨fun route email => @Program.call SendPorts (.deliver route email)⟩

def queried : Exchange SendPorts → Option ((Int × List SenderName) × Except SenderUsageError (List SenderStats))
  | ⟨.getStats names sinceMs, r⟩ => some ((sinceMs, names), r)
  | ⟨.deliver .., _⟩ => none

def tried : Exchange SendPorts → Option (SenderRoute × Except String Unit)
  | ⟨.getStats .., _⟩ => none
  | ⟨.deliver route _, r⟩ => some (route, r)

/-- Sorted by priority, and routes of one priority keep their order. -/
structure StableSorted (before after : List SenderRoute) : Prop where
  perm : after.Perm before
  sorted : after.Pairwise fun a b => a.priority ≤ b.priority
  stable : ∀ priority, after.filter (·.priority = priority) = before.filter (·.priority = priority)

instance : Std.Total byPriority := ⟨fun a b => UInt8.le_total a.priority b.priority⟩

instance : IsTrans SenderRoute byPriority := ⟨fun _ _ _ h h' => UInt8.le_trans h h'⟩

theorem sortByPriority_stable (routes : List SenderRoute) : StableSorted routes (sortByPriority routes) where
  perm := List.perm_insertionSort byPriority routes
  sorted := List.pairwise_insertionSort byPriority routes
  stable := by
    intro priority
    have hpairwise : (routes.filter (·.priority = priority)).Pairwise byPriority := by
      refine List.pairwise_of_forall_mem_list fun a ha b hb => ?_
      have ha := of_decide_eq_true (List.mem_filter.mp ha).2
      have hb := of_decide_eq_true (List.mem_filter.mp hb).2
      rw [byPriority, ha, hb]
      exact UInt8.le_refl priority
    have hsub := (List.sublist_insertionSort hpairwise List.filter_sublist).filter (·.priority = priority)
    simp only [List.filter_filter, Bool.and_self] at hsub
    refine (hsub.eq_of_length ?_).symm
    exact ((List.perm_insertionSort byPriority routes).filter _).length_eq.symm

theorem StableSorted.filter {before after : List SenderRoute} (h : StableSorted before after)
    (p : SenderRoute → Bool) : StableSorted (before.filter p) (after.filter p) where
  perm := h.perm.filter p
  sorted := h.sorted.filter p
  stable := by
    intro priority
    rw [List.filter_filter, List.filter_filter]
    simp only [Bool.and_comm _ (p _)]
    rw [← List.filter_filter, ← List.filter_filter, h.stable]

structure TriesInOrder (routes : List SenderRoute) (tries : List (SenderRoute × Except String Unit))
    (result : Except SendError SenderName) : Prop where
  order : tries.map Prod.fst <+: routes
  accepted : ∀ route, (route, .ok ()) ∈ tries →
    (∃ refused, tries = refused ++ [(route, .ok ())] ∧ ∀ x ∈ refused, x.2 ≠ .ok ()) ∧ result = .ok route.name
  refused : (∀ x ∈ tries, x.2 ≠ .ok ()) → tries.map Prod.fst = routes ∧
    ∃ route err, tries.getLast? = some (route, .error err) ∧ result = .error (.send route.name err)

/-- What one pass does with the routes it does not skip. -/
inductive Pass : List SenderRoute → Option SendError → List (SenderRoute × Except String Unit) →
    Except (Option SendError) SenderName → Prop
  | exhausted {last} : Pass [] last [] (.error last)
  | accepted {route rest last} : Pass (route :: rest) last [(route, .ok ())] (.ok route.name)
  | refused {route rest last err tries r} (h : Pass rest (some (.send route.name err)) tries r) :
      Pass (route :: rest) last ((route, .error err) :: tries) r

variable {email : OutboundEmail} {skip : SenderRoute → Bool} {routes : List SenderRoute}
  {last : Option SendError} {t : List (Exchange SendPorts)} {r : Except (Option SendError) SenderName}
  {tries : List (SenderRoute × Except String Unit)}

theorem tryRoutes_pass (h : (tryRoutes transportPort email skip routes last).Answered t r) :
    Pass (routes.filter fun route => !skip route) last (t.filterMap tried) r ∧ t.filterMap queried = [] := by
  induction routes generalizing last t with
  | nil =>
      obtain ⟨rfl, rfl⟩ := h
      exact ⟨.exhausted, rfl⟩
  | cons route rest ih =>
      rw [tryRoutes] at h
      split at h
      · rename_i hskip
        rw [List.filter_cons_of_neg (by simp [hskip])]
        exact ih h
      · rename_i hskip
        rw [List.filter_cons_of_pos (by simp [hskip])]
        obtain ⟨answer, t', rfl, h⟩ := h
        cases answer with
        | ok =>
            obtain ⟨rfl, rfl⟩ := h
            exact ⟨.accepted, rfl⟩
        | error err =>
            obtain ⟨hpass, hqueried⟩ := ih h
            exact ⟨.refused hpass, hqueried⟩

theorem Pass.order (h : Pass routes last tries r) : tries.map Prod.fst <+: routes := by
  induction h with
  | exhausted => exact List.prefix_rfl
  | accepted => exact ⟨_, rfl⟩
  | refused _ ih => exact List.cons_prefix_cons.mpr ⟨rfl, ih⟩

theorem Pass.accepted_last (h : Pass routes last tries r) {route : SenderRoute} (ht : (route, .ok ()) ∈ tries) :
    (∃ refused, tries = refused ++ [(route, .ok ())] ∧ ∀ x ∈ refused, x.2 ≠ .ok ()) ∧ r = .ok route.name := by
  induction h with
  | exhausted => cases ht
  | accepted =>
      cases List.mem_singleton.mp ht
      exact ⟨⟨[], rfl, nofun⟩, rfl⟩
  | @refused route' _ _ err _ _ _ ih =>
      rcases List.mem_cons.mp ht with heq | ht
      · cases heq
      · obtain ⟨⟨refused, rfl, hrefused⟩, rfl⟩ := ih ht
        exact ⟨⟨(route', .error err) :: refused, rfl, List.forall_mem_cons.mpr ⟨nofun, hrefused⟩⟩, rfl⟩

theorem Pass.refused_all (h : Pass routes last tries r) (ht : ∀ x ∈ tries, x.2 ≠ .ok ()) :
    tries.map Prod.fst = routes ∧ ((tries = [] ∧ r = .error last) ∨
      ∃ route err, tries.getLast? = some (route, .error err) ∧ r = .error (some (.send route.name err))) := by
  induction h with
  | exhausted => exact ⟨rfl, .inl ⟨rfl, rfl⟩⟩
  | accepted => exact absurd rfl (ht _ (List.mem_singleton_self _))
  | @refused route _ _ err _ _ _ ih =>
      obtain ⟨hfst, hlast⟩ := ih (List.forall_mem_cons.mp ht).2
      refine ⟨by rw [List.map_cons, hfst], .inr ?_⟩
      rcases hlast with ⟨rfl, rfl⟩ | ⟨route', err', hlast, rfl⟩
      · exact ⟨route, err, rfl, rfl⟩
      · exact ⟨route', err', by rw [List.getLast?_cons, hlast]; rfl, rfl⟩

theorem Pass.triesInOrder (h : Pass routes none tries r) {result : Except SendError SenderName}
    (hr : r = result.mapError some) : TriesInOrder routes tries result where
  order := h.order
  accepted := by
    intro route hroute
    obtain ⟨hlast, hok⟩ := h.accepted_last hroute
    refine ⟨hlast, ?_⟩
    cases result with
    | error e => rw [hok] at hr; cases hr
    | ok name => rw [hok] at hr; cases hr; rfl
  refused := by
    intro hrefused
    obtain ⟨hfst, ⟨-, hnone⟩ | ⟨route, err, hlast, herr⟩⟩ := h.refused_all hrefused
    · cases result <;> rw [hnone] at hr <;> cases hr
    · refine ⟨hfst, route, err, hlast, ?_⟩
      cases result with
      | error e => rw [herr] at hr; cases hr; rfl
      | ok name => rw [herr] at hr; cases hr

theorem Pass.nothing_tried (h : Pass routes none tries (.error none)) : routes = [] ∧ tries = [] := by
  have hrefused : ∀ x ∈ tries, x.2 ≠ .ok () := by
    rintro ⟨route, answer⟩ hx rfl
    cases (h.accepted_last hx).2
  obtain ⟨hfst, ⟨rfl, -⟩ | ⟨_, _, _, herr⟩⟩ := h.refused_all hrefused
  · exact ⟨hfst.symm, rfl⟩
  · cases herr

variable {self : RoutedEmailSender} {order : HashOrder} {nowMs : Int} {groups : List (Int × List SenderName)}
  {sentMap sentMap' : List (SenderName × Nat)} {result : Option (Except SendError SenderName)}
  {candidates : List SenderRoute}

theorem querySent_answered (h : (querySent usagePort groups sentMap).Answered t sentMap') :
    (t.filterMap queried).map Prod.fst = groups ∧
      sentMap' = ((t.filterMap queried).map Prod.snd).foldl insertAnswer sentMap ∧ t.filterMap tried = [] := by
  induction groups generalizing sentMap t with
  | nil =>
      obtain ⟨rfl, rfl⟩ := h
      exact ⟨rfl, rfl, rfl⟩
  | cons group groups ih =>
      obtain ⟨answer, t', rfl, h⟩ := h
      obtain ⟨hfst, hmap, htried⟩ := ih h
      refine ⟨?_, hmap, htried⟩
      simp only [List.filterMap_cons, queried, List.map_cons, hfst]

/-- What `send` does with its candidates, when a pass skips the given routes. -/
structure Routed (candidates : List SenderRoute) (senderDomain : String) (skipped : SenderRoute → Bool)
    (t : List (Exchange SendPorts)) (result : Option (Except SendError SenderName)) : Prop where
  noRoute : candidates = [] → t = [] ∧ result = some (.error (.noMatchingRoute senderDomain))
  within : (candidates.filter fun route => !skipped route) ≠ [] → ∃ r, result = some r ∧
    TriesInOrder (candidates.filter fun route => !skipped route) (t.filterMap tried) r
  bypass : candidates ≠ [] → (candidates.filter fun route => !skipped route) = [] → ∃ r, result = some r ∧
    TriesInOrder candidates (t.filterMap tried) r

theorem bypassQuota_answered (hne : candidates ≠ [])
    (h : (bypassQuota transportPort email candidates).Answered t result) :
    (∃ r, result = some r ∧ TriesInOrder candidates (t.filterMap tried) r) ∧ t.filterMap queried = [] := by
  obtain ⟨t₁, t₂, r, rfl, htry, h⟩ := Program.answered_bind.mp h
  obtain ⟨hpass, hqueried⟩ := tryRoutes_pass htry
  simp only [Bool.not_false, List.filter_true] at hpass
  rcases r with (_ | err) | name
  · exact absurd hpass.nothing_tried.1 hne
  · obtain ⟨rfl, rfl⟩ := h
    rw [List.append_nil]
    exact ⟨⟨_, rfl, hpass.triesInOrder rfl⟩, hqueried⟩
  · obtain ⟨rfl, rfl⟩ := h
    rw [List.append_nil]
    exact ⟨⟨_, rfl, hpass.triesInOrder rfl⟩, hqueried⟩

theorem send_answered (h : (self.send usagePort transportPort order nowMs email).Answered t result) :
    Routed (self.candidates email.senderDomain) email.senderDomain
      (overQuota (collected (t.filterMap queried))) t result ∧
    (self.candidates email.senderDomain ≠ [] → ((t.filterMap queried).map Prod.fst).Perm
      (sinceMsToNames nowMs (self.candidates email.senderDomain))) := by
  rw [send] at h
  split at h
  · rename_i hempty
    have hnil := List.isEmpty_iff.mp hempty
    obtain ⟨rfl, rfl⟩ := h
    rw [hnil]
    exact ⟨⟨fun _ => ⟨rfl, rfl⟩, fun hne => absurd rfl hne, fun hne => absurd rfl hne⟩, fun hne => absurd rfl hne⟩
  · rename_i hempty
    have hne : self.candidates email.senderDomain ≠ [] := fun hnil => hempty (List.isEmpty_iff.mpr hnil)
    obtain ⟨t₁, _, sentMap, rfl, hquery, h⟩ := Program.answered_bind.mp h
    obtain ⟨t₂, t₃, r, rfl, htry, h⟩ := Program.answered_bind.mp h
    obtain ⟨hfst, hmap, htried⟩ := querySent_answered hquery
    obtain ⟨hpass, hqueried⟩ := tryRoutes_pass htry
    subst hmap
    have hpass : Pass ((self.candidates email.senderDomain).filter fun route =>
        !overQuota (collected (t₁.filterMap queried)) route) none (t₂.filterMap tried) r := hpass
    -- Only the first part of the exchanges are queries, only the rest are tries.
    have hqueries : ∀ t₃, t₃.filterMap queried = [] →
        (t₁ ++ (t₂ ++ t₃)).filterMap queried = t₁.filterMap queried := by
      intro t₃ ht₃
      simp only [List.filterMap_append, hqueried, ht₃, List.append_nil]
    have htries : (t₁ ++ (t₂ ++ t₃)).filterMap tried = t₂.filterMap tried ++ t₃.filterMap tried := by
      simp only [List.filterMap_append, htried, List.nil_append]
    have hdecided : ∀ r', r = Except.mapError some r' → t₃ = [] → result = some r' → Routed
        (self.candidates email.senderDomain) email.senderDomain
        (overQuota (collected (t₁.filterMap queried))) (t₁ ++ (t₂ ++ t₃)) result := by
      rintro r' hr rfl hresult
      refine ⟨fun hnil => absurd hnil hne, fun _ => ⟨r', hresult, ?_⟩, fun _ hnil => ?_⟩
      · rw [htries, List.filterMap_nil, List.append_nil]
        exact hpass.triesInOrder hr
      · rw [hnil, hr] at hpass
        generalize t₂.filterMap tried = tries at hpass
        cases r' <;> cases hpass
    rcases r with (_ | err) | name
    · obtain ⟨hbypass, hqueried'⟩ := bypassQuota_answered hne h
      obtain ⟨hskipped, hnone⟩ := hpass.nothing_tried
      rw [hqueries t₃ hqueried', hfst]
      refine ⟨⟨fun hnil => absurd hnil hne, fun hsome => absurd hskipped hsome, fun _ _ => ?_⟩,
        fun _ => order.perm _⟩
      rwa [htries, hnone, List.nil_append]
    · obtain ⟨rfl, rfl⟩ := h
      rw [hqueries [] rfl, hfst]
      exact ⟨hdecided (.error err) rfl rfl rfl, fun _ => order.perm _⟩
    · obtain ⟨rfl, rfl⟩ := h
      rw [hqueries [] rfl, hfst]
      exact ⟨hdecided (.ok name) rfl rfl rfl, fun _ => order.perm _⟩

/-- The query for the window that starts there succeeded. -/
def Known (t : List (Exchange SendPorts)) (sinceMs : Int) : Prop :=
  ∃ names stats, (⟨.getStats names sinceMs, .ok stats⟩ : Exchange SendPorts) ∈ t

/-- The query for the window of the route reported at least as many sent emails as its quota allows. -/
def Exhausted (t : List (Exchange SendPorts)) (nowMs : Int) (route : SenderRoute) : Prop :=
  ∃ quota, route.quota = some quota ∧ ∃ names stats,
    (⟨.getStats names (quota.range.sinceMs nowMs), .ok stats⟩ : Exchange SendPorts) ∈ t ∧
    ∃ stat ∈ stats, stat.name = route.name ∧ quota.count ≤ stat.sentInRange

/-- The usage port answers a query with one entry for each queried name, or fails. -/
def UsageAnswers (t : List (Exchange SendPorts)) : Prop :=
  ∀ names sinceMs stats, (⟨.getStats names sinceMs, .ok stats⟩ : Exchange SendPorts) ∈ t →
    (stats.map SenderStats.name).Perm names

theorem mem_queried {names : List SenderName} {sinceMs : Int}
    {answer : Except SenderUsageError (List SenderStats)} :
    ((sinceMs, names), answer) ∈ t.filterMap queried ↔
      (⟨.getStats names sinceMs, answer⟩ : Exchange SendPorts) ∈ t := by
  rw [List.mem_filterMap]
  constructor
  · rintro ⟨⟨op, r⟩, hx, heq⟩
    cases op with
    | getStats => cases heq; exact hx
    | deliver => cases heq
  · exact fun hx => ⟨_, hx, rfl⟩

/-- A route whose quota is zero is skipped also when the query for its window failed;
otherwise a route is skipped exactly when its quota is exhausted. -/
theorem overQuota_iff (hn : (candidates.map SenderRoute.name).Nodup)
    (hg : ((t.filterMap queried).map Prod.fst).Perm (sinceMsToNames nowMs candidates)) (ha : UsageAnswers t)
    {route : SenderRoute} (hr : route ∈ candidates) :
    overQuota (collected (t.filterMap queried)) route = true ↔ Exhausted t nowMs route ∨
      ∃ quota, route.quota = some quota ∧ quota.count = 0 ∧ ¬ Known t (quota.range.sinceMs nowMs) := by
  have hanswers : Answers (t.filterMap queried) :=
    fun group stats hstats => ha _ _ _ (mem_queried.mp hstats)
  cases hq : route.quota with
  | none => simp [overQuota, Exhausted, hq]
  | some quota =>
      have hread : ∀ {names stats}, (⟨.getStats names (quota.range.sinceMs nowMs), .ok stats⟩ :
          Exchange SendPorts) ∈ t → ∀ stat ∈ stats, stat.name = route.name →
          (collected (t.filterMap queried)).lookup route.name = some stat.sentInRange :=
        fun hstats stat hs hname => lookup_collected hn hg hanswers hr hq (mem_queried.mpr hstats) hs hname
      have hover : overQuota (collected (t.filterMap queried)) route = true ↔
          quota.count ≤ ((collected (t.filterMap queried)).lookup route.name).getD 0 := by
        simp [overQuota, hq]
      rw [hover]
      by_cases hknown : Known t (quota.range.sinceMs nowMs)
      · obtain ⟨names, stats, hstats⟩ := hknown
        obtain ⟨names', hgroup, hname⟩ := (asked_iff hg).mpr ⟨route, hr, quota, hq, rfl, rfl⟩
        obtain rfl : names' = names :=
          group_unique hg hgroup (List.mem_map.mpr ⟨_, mem_queried.mpr hstats, rfl⟩)
        obtain ⟨stat, hs, hname⟩ := List.mem_map.mp ((ha _ _ _ hstats).mem_iff.mpr hname)
        rw [hread hstats stat hs hname, Option.getD_some]
        constructor
        · exact fun hle => .inl ⟨quota, hq, names', stats, hstats, stat, hs, hname, hle⟩
        · rintro (⟨quota', hq', _, _, hstats', stat', hs', hname', hle⟩ | ⟨quota', hq', -, hunknown⟩)
          · rw [hq] at hq'
            cases hq'
            have hsame := hread hstats' stat' hs' hname'
            rw [hread hstats stat hs hname, Option.some.injEq] at hsame
            omega
          · cases hq'
            exact absurd ⟨names', stats, hstats⟩ hunknown
      · have hnone : (collected (t.filterMap queried)).lookup route.name = none :=
          lookup_collected_failed hn hg hanswers hr hq fun names stats hmem =>
            hknown ⟨names, stats, mem_queried.mp hmem⟩
        rw [hnone, Option.getD_none, Nat.le_zero]
        constructor
        · exact fun hzero => .inr ⟨quota, rfl, hzero, hknown⟩
        · rintro (⟨quota', hq', names, stats, hstats, -⟩ | ⟨quota', hq', hzero, -⟩)
          · rw [hq] at hq'
            cases hq'
            exact absurd ⟨names, stats, hstats⟩ hknown
          · cases hq'
            exact hzero

theorem Exhausted.known {route : SenderRoute} {quota : SenderQuota} (h : Exhausted t nowMs route)
    (hq : route.quota = some quota) : Known t (quota.range.sinceMs nowMs) := by
  obtain ⟨quota', hq', names, stats, hstats, -⟩ := h
  rw [hq] at hq'
  cases hq'
  exact ⟨names, stats, hstats⟩

theorem routes_of_new {given : List SenderRoute} (hnew : RoutedEmailSender.new given = .ok self) :
    self.routes = sortByPriority (given.map SenderRoute.normalize) := by
  unfold RoutedEmailSender.new at hnew
  split at hnew
  · cases hnew
  · cases hnew
    rfl

theorem candidates_nodup (hn : (self.routes.map SenderRoute.name).Nodup) (senderDomain : String) :
    ((self.candidates senderDomain).map SenderRoute.name).Nodup := by
  rw [RoutedEmailSender.candidates, List.map_append]
  refine List.nodup_append.mpr ⟨hn.sublist (List.filter_sublist.map _), hn.sublist (List.filter_sublist.map _), ?_⟩
  rintro name hmatched name' hcatch rfl
  obtain ⟨route, hroute, hname⟩ := List.mem_map.mp hmatched
  obtain ⟨route', hroute', hname'⟩ := List.mem_map.mp hcatch
  obtain ⟨hroute, hdomain⟩ := List.mem_filter.mp hroute
  obtain ⟨hroute', hnone⟩ := List.mem_filter.mp hroute'
  obtain rfl := List.inj_on_of_nodup_map hn hroute hroute' (hname.trans hname'.symm)
  rw [Option.isNone_iff_eq_none] at hnone
  simp [hnone] at hdomain

theorem Routed.once {senderDomain : String} {skipped : SenderRoute → Bool}
    (h : Routed candidates senderDomain skipped t result) (hn : (candidates.map SenderRoute.name).Nodup) :
    ((t.filterMap tried).map fun x => x.1.name).Nodup := by
  have hsub : ((t.filterMap tried).map Prod.fst).Sublist candidates := by
    by_cases hne : candidates = []
    · rw [(h.noRoute hne).1]
      exact List.nil_sublist _
    · by_cases hskip : (candidates.filter fun route => !skipped route) = []
      · obtain ⟨_, -, htries⟩ := h.bypass hne hskip
        exact htries.order.sublist
      · obtain ⟨_, -, htries⟩ := h.within hskip
        exact htries.order.sublist.trans List.filter_sublist
  have hnames := hn.sublist (hsub.map SenderRoute.name)
  rwa [List.map_map] at hnames

/-- `send` tries the candidates as specified, skipping in its first pass what
`overQuota` says; and that is exactly the exhausted routes where the query of every
zero quota succeeded. -/
theorem send_routed {given : List SenderRoute} (hnew : RoutedEmailSender.new given = .ok self)
    (hn : (given.map SenderRoute.name).Nodup)
    (h : (self.send usagePort transportPort order nowMs email).Answered t result) (ha : UsageAnswers t) :
    ∃ matched catchAll,
      StableSorted ((given.map SenderRoute.normalize).filter fun route =>
        route.matchSenderDomain = some email.senderDomain) matched ∧
      StableSorted ((given.map SenderRoute.normalize).filter fun route => route.matchSenderDomain = none) catchAll ∧
      Routed (matched ++ catchAll) email.senderDomain (overQuota (collected (t.filterMap queried))) t result ∧
      ((t.filterMap tried).map fun x => x.1.name).Nodup ∧
      ((∀ route ∈ matched ++ catchAll,
          overQuota (collected (t.filterMap queried)) route = true ↔ Exhausted t nowMs route) ↔
        ∀ route ∈ matched ++ catchAll, ∀ quota, route.quota = some quota → quota.count = 0 →
          Known t (quota.range.sinceMs nowMs)) := by
  have hroutes := routes_of_new hnew
  have hsorted : StableSorted (given.map SenderRoute.normalize) self.routes :=
    hroutes ▸ sortByPriority_stable _
  have hnames : (self.routes.map SenderRoute.name).Nodup := by
    refine (hsorted.perm.map SenderRoute.name).nodup_iff.mpr ?_
    rw [List.map_map]
    exact hn
  have hcandidates : self.candidates email.senderDomain =
      self.routes.filter (fun route => route.matchSenderDomain = some email.senderDomain) ++
        self.routes.filter fun route => route.matchSenderDomain = none := by
    rw [RoutedEmailSender.candidates]
    congr 1 <;> refine List.filter_congr fun route _ => ?_ <;> cases route.matchSenderDomain <;> simp
  obtain ⟨hrouted, hasked⟩ := send_answered h
  have hnodup := candidates_nodup hnames email.senderDomain
  rw [hcandidates] at hrouted hasked hnodup
  refine ⟨_, _, hsorted.filter _, hsorted.filter _, hrouted, hrouted.once hnodup, ?_⟩
  have hover := fun (route : SenderRoute) (hr : route ∈ _) =>
    overQuota_iff hnodup (hasked (List.ne_nil_of_mem hr)) ha hr
  constructor
  · intro hexact route hr quota hq hzero
    by_contra hunknown
    exact hunknown (((hexact route hr).mp ((hover route hr).mpr (.inr ⟨quota, hq, hzero, hunknown⟩))).known hq)
  · intro hknown route hr
    rw [hover route hr, or_iff_left_iff_imp]
    rintro ⟨quota, hq, hzero, hunknown⟩
    exact absurd (hknown route hr quota hq hzero) hunknown

def insertionOrder : HashOrder := ⟨id, fun groups => .refl groups⟩

def primary : SenderRoute := ⟨⟨"primary"⟩, 10, some ⟨0, .daily⟩, none⟩

def backup : SenderRoute := ⟨⟨"backup"⟩, 20, none, none⟩

def newsletter : OutboundEmail := ⟨"news@example.com"⟩

/-- The usage port is down when the newsletter is sent at `nowMs = 0`. -/
def usageDown : List (Exchange SendPorts) :=
  [⟨.getStats [⟨"primary"⟩] 0, .error (.storage "database is locked")⟩, ⟨.deliver backup newsletter, .ok ()⟩]

theorem usageDown_answered : ∃ self, RoutedEmailSender.new [primary, backup] = .ok self ∧
    (self.send usagePort transportPort insertionOrder 0 newsletter).Answered usageDown
      (some (.ok ⟨"backup"⟩)) ∧ UsageAnswers usageDown := by
  refine ⟨_, rfl, ⟨_, _, rfl, _, _, rfl, rfl, rfl⟩, ?_⟩
  simp [UsageAnswers, usageDown]

/-- The query for the window of the primary route fails, and the route is skipped. -/
theorem zero_quota_skipped : ∃ self, RoutedEmailSender.new [primary, backup] = .ok self ∧
    (self.send usagePort transportPort insertionOrder 0 newsletter).Answered usageDown
      (some (.ok ⟨"backup"⟩)) ∧ UsageAnswers usageDown ∧ ¬ Exhausted usageDown 0 primary ∧
    primary ∈ self.candidates newsletter.senderDomain ∧ usageDown.filterMap tried = [(backup, .ok ())] := by
  obtain ⟨self, hnew, hrun, hanswers⟩ := usageDown_answered
  refine ⟨self, hnew, hrun, hanswers, ?_, ?_, rfl⟩
  · rintro ⟨quota, -, names, stats, hmem, -⟩
    simp [usageDown] at hmem
  · cases hnew
    decide

def usageUp : List (Exchange SendPorts) :=
  [⟨.getStats [⟨"primary"⟩] 0, .ok [⟨⟨"primary"⟩, 0, 0⟩]⟩, ⟨.deliver backup newsletter, .ok ()⟩]

theorem send_routed_answered : ∃ self candidates, RoutedEmailSender.new [primary, backup] = .ok self ∧
    (self.send usagePort transportPort insertionOrder 0 newsletter).Answered usageUp (some (.ok ⟨"backup"⟩)) ∧
    Routed candidates newsletter.senderDomain (overQuota (collected (usageUp.filterMap queried))) usageUp
      (some (.ok ⟨"backup"⟩)) ∧
    ∀ route ∈ candidates, overQuota (collected (usageUp.filterMap queried)) route = true ↔
      Exhausted usageUp 0 route := by
  have hrun : ∃ self, RoutedEmailSender.new [primary, backup] = .ok self ∧
      (self.send usagePort transportPort insertionOrder 0 newsletter).Answered usageUp
        (some (.ok ⟨"backup"⟩)) := ⟨_, rfl, ⟨_, _, rfl, _, _, rfl, rfl, rfl⟩⟩
  obtain ⟨self, hnew, hsend⟩ := hrun
  have hanswers : UsageAnswers usageUp := by
    rintro names sinceMs stats hmem
    simp only [usageUp, List.mem_cons, Sigma.mk.injEq, SendOp.getStats.injEq, List.not_mem_nil] at hmem
    rcases hmem with ⟨⟨rfl, rfl⟩, hstats⟩ | ⟨hop, -⟩ | h
    · cases hstats
      exact .refl _
    · cases hop
    · cases h
  obtain ⟨matched, catchAll, -, -, hrouted, -, hexact⟩ := send_routed hnew (by decide) hsend hanswers
  refine ⟨self, _, hnew, hsend, hrouted, hexact.mpr fun route _ quota _ _ => ?_⟩
  have hwindow : quota.range.sinceMs 0 = 0 := by cases quota.range <;> decide
  rw [hwindow]
  exact ⟨_, _, .head _⟩

end Catapulte
