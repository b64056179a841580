import Catapulte.Http.TemplateResolver
import Catapulte.Http.AttachmentFetcher

namespace Catapulte

open Http

namespace TemplateResolverAdapter

variable (http : HttpLibrary)

def requests (adapter : TemplateResolverAdapter) (url : Url) (answers : Nat → Answer Url (Except String String)) :
    List (Request Url String String) :=
  (resolve http adapter (.mjml (.remote url)) answers).1

/-- Every host that is contacted is allowed. -/
def Within (adapter : TemplateResolverAdapter) (url : Url) (answers : Nat → Answer Url (Except String String)) : Prop :=
  ∀ r ∈ requests http adapter url answers, ∃ host, (http.authority r.url).host = some host ∧ host ∈ adapter.allowedDomains

def without (adapter : TemplateResolverAdapter) (host : String) : TemplateResolverAdapter :=
  { adapter with authHeaders := adapter.authHeaders.filter fun e => e.1 ≠ host }

def elsewhere (host : String) (rs : List (Request Url String String)) : List (Request Url String String) :=
  rs.filter fun r => (http.authority r.url).host ≠ some host

/-- What is sent to other hosts than that of an entry is what is sent if the entry is
not there. -/
def Confined (templates : List (String × String)) (allowedDomains : List String) (authEntries : List ResolverAuthEntry)
    (url : Url) (answers : Nat → Answer Url (Except String String)) : Prop :=
  ∀ entry ∈ authEntries, ∀ adapter adapter', new http templates allowedDomains authEntries = .ok adapter →
    new http templates allowedDomains (authEntries.filter fun e => e.host ≠ entry.host) = .ok adapter' →
      elsewhere http entry.host (requests http adapter url answers) =
        elsewhere http entry.host (requests http adapter' url answers)

/-- Every redirect that is followed leads to an allowed host, and to the first one if
the headers for that are more than credentials. -/
def Harmless (adapter : TemplateResolverAdapter) (url : Url) (answers : Nat → Answer Url (Except String String)) : Prop :=
  ∀ target ∈ followed http.authority adapter.httpClient.policy.max answers,
    (∃ host, (http.authority target).host = some host ∧ host ∈ adapter.allowedDomains) ∧
      ((http.authority target).host = (http.authority url).host ∨
        adapter.httpClient.kept (headersFor http adapter url) = [])

variable {http} {templates : List (String × String)} {allowedDomains : List String}
  {authEntries : List ResolverAuthEntry} {adapter : TemplateResolverAdapter} {url : Url}
  {answers : Nat → Answer Url (Except String String)}

theorem lookup_filter {V : Type} (l : List (String × V)) {k host : String} :
    (l.filter fun e => e.1 ≠ host).lookup k = if k = host then none else l.lookup k := by
  induction l with
  | nil => simp
  | cons e l ih =>
      by_cases he : e.1 = host
      · rw [List.filter_cons_of_neg (by simpa using he), ih, List.lookup_cons]
        split
        · rfl
        · have hne : (k == e.1) = false := by simpa [he] using ‹¬ k = host›
          rw [hne]
      · rw [List.filter_cons_of_pos (by simpa using he), List.lookup_cons, List.lookup_cons, ih]
        cases hk : k == e.1 with
        | true =>
            rw [beq_iff_eq.mp hk]
            simp [he]
        | false => rfl

theorem lookup_mem {V : Type} {l : List (String × V)} {k : String} {v : V} (h : l.lookup k = some v) : (k, v) ∈ l := by
  obtain ⟨l₁, l₂, rfl, -⟩ := List.lookup_eq_some_iff.mp h
  exact List.mem_append_right _ List.mem_cons_self

theorem insertEntries_keys {entries : List ResolverAuthEntry} {acc out : List (String × HeaderMap)}
    (h : insertEntries http entries acc = .ok out) : out.map Prod.fst = acc.map Prod.fst ++ entries.map (·.host) := by
  induction entries generalizing acc with
  | nil =>
      cases h
      simp
  | cons e entries ih =>
      simp only [insertEntries] at h
      split at h
      · cases h
      · cases hmap : headerMap http e with
        | error source =>
            rw [hmap] at h
            cases h
        | ok map =>
            rw [hmap] at h
            simpa using ih h

theorem insertEntries_without {host : String} {entries : List ResolverAuthEntry} {acc out : List (String × HeaderMap)}
    (h : insertEntries http entries acc = .ok out) :
    insertEntries http (entries.filter fun e => e.host ≠ host) (acc.filter fun e => e.1 ≠ host) =
      .ok (out.filter fun e => e.1 ≠ host) := by
  induction entries generalizing acc with
  | nil =>
      cases h
      rfl
  | cons e entries ih =>
      simp only [insertEntries] at h
      split at h
      · cases h
      · rename_i hlookup
        cases hmap : headerMap http e with
        | error source =>
            rw [hmap] at h
            cases h
        | ok map =>
            rw [hmap] at h
            have hrest := ih h
            by_cases he : e.host = host
            · rw [List.filter_cons_of_neg (by simpa using he)]
              simpa [he] using hrest
            · rw [List.filter_cons_of_pos (by simpa using he), insertEntries, lookup_filter, if_neg he,
                if_neg hlookup, hmap]
              rw [List.filter_append, List.filter_cons_of_pos (by simpa using he)] at hrest
              exact hrest

theorem new_eq_ok (h : new http templates allowedDomains authEntries = .ok adapter) :
    http.build = .ok adapter.httpClient ∧ insertEntries http authEntries [] = .ok adapter.authHeaders ∧
      adapter.templates = templates ∧ adapter.allowedDomains = allowedDomains := by
  unfold new at h
  cases hbuild : http.build with
  | error source =>
      rw [hbuild] at h
      cases h
  | ok client =>
      rw [hbuild] at h
      cases hentries : insertEntries http authEntries [] with
      | error source =>
          rw [hentries] at h
          cases h
      | ok authHeaders =>
          rw [hentries] at h
          cases h
          exact ⟨rfl, rfl, rfl, rfl⟩

theorem new_without (h : new http templates allowedDomains authEntries = .ok adapter) (host : String) :
    new http templates allowedDomains (authEntries.filter fun e => e.host ≠ host) =
      .ok (adapter.without host) := by
  obtain ⟨hbuild, hentries, rfl, rfl⟩ := new_eq_ok h
  have hrest : insertEntries http (authEntries.filter fun e => e.host ≠ host) [] = _ := insertEntries_without hentries
  unfold new
  rw [hbuild, hrest]
  rfl

theorem requests_of_allowed (h : checkDomain http adapter url = .ok ()) :
    requests http adapter url answers = (adapter.httpClient.get http.authority url (headersFor http adapter url) answers).1 := by
  simp only [requests, resolve, resolveMjml, h]
  rfl

theorem requests_eq_nil (h : ¬ (checkDomain http adapter url = .ok () ∧ Reachable http.authority url)) :
    requests http adapter url answers = [] := by
  cases hcheck : checkDomain http adapter url with
  | error e => simp only [requests, resolve, resolveMjml, hcheck]
  | ok u =>
      rw [requests_of_allowed hcheck]
      exact Client.exchange_of_not_reachable fun hr => h ⟨hcheck, hr⟩

theorem checkDomain_eq_ok : checkDomain http adapter url = .ok () ↔
    (http.authority url).host.getD "" ∈ adapter.allowedDomains := by
  unfold checkDomain
  split <;> simp [*]

theorem within_iff (hcheck : checkDomain http adapter url = .ok ()) (hr : Reachable http.authority url) :
    Within http adapter url answers ↔ ∀ target ∈ followed http.authority adapter.httpClient.policy.max answers,
      ∃ host, (http.authority target).host = some host ∧ host ∈ adapter.allowedDomains := by
  have hurls : (requests http adapter url answers).map Request.url =
      url :: followed http.authority adapter.httpClient.policy.max answers := by
    rw [requests_of_allowed hcheck]
    exact Client.exchange_urls hr
  have hfirst : ∃ host, (http.authority url).host = some host ∧ host ∈ adapter.allowedDomains := by
    obtain ⟨host, hhost⟩ := Option.isSome_iff_exists.mp hr.2
    have hin := checkDomain_eq_ok.mp hcheck
    rw [hhost] at hin
    exact ⟨host, hhost, hin⟩
  calc Within http adapter url answers
      ↔ ∀ u ∈ (requests http adapter url answers).map Request.url,
          ∃ host, (http.authority u).host = some host ∧ host ∈ adapter.allowedDomains := by
        simp only [Within, List.forall_mem_map]
    _ ↔ _ := by rw [hurls, List.forall_mem_cons, and_iff_right hfirst]

theorem elsewhere_requests {host : String} (hcheck : checkDomain http adapter url = .ok ())
    (hr : Reachable http.authority url) (hhost : (http.authority url).host = some host) :
    elsewhere http host (requests http adapter url answers) =
      ((followed http.authority adapter.httpClient.policy.max answers).filter
        fun u => (http.authority u).host ≠ some host).map (⟨·, adapter.httpClient.kept (headersFor http adapter url)⟩) := by
  rw [requests_of_allowed hcheck]
  exact Client.exchange_elsewhere hr hhost

theorem headersFor_of_host {host : String} (hhost : (http.authority url).host = some host) :
    headersFor http adapter url = (adapter.authHeaders.lookup host).getD [] := by
  unfold headersFor
  rw [hhost, Option.bind_some]
  cases adapter.authHeaders.lookup host <;> rfl

theorem headersFor_without_self {host : String} (hhost : (http.authority url).host = some host) :
    headersFor http (adapter.without host) url = [] := by
  rw [headersFor_of_host hhost, without, lookup_filter, if_pos rfl]
  rfl

theorem headersFor_without_other {host host' : String} (hhost : (http.authority url).host = some host)
    (hne : host ≠ host') : headersFor http (adapter.without host') url = headersFor http adapter url := by
  rw [headersFor_of_host hhost, headersFor_of_host hhost, without, lookup_filter, if_neg hne]

theorem confined_iff (h : new http templates allowedDomains authEntries = .ok adapter)
    (hcheck : checkDomain http adapter url = .ok ()) (hr : Reachable http.authority url) :
    Confined http templates allowedDomains authEntries url answers ↔
      ∀ target ∈ followed http.authority adapter.httpClient.policy.max answers,
        (http.authority target).host = (http.authority url).host ∨
          adapter.httpClient.kept (headersFor http adapter url) = [] := by
  obtain ⟨host, hhost⟩ := Option.isSome_iff_exists.mp hr.2
  have hkeys : adapter.authHeaders.map Prod.fst = authEntries.map (·.host) := insertEntries_keys (new_eq_ok h).2.1
  have hcheck' (host' : String) : checkDomain http (adapter.without host') url = .ok () := hcheck
  have hwithout (host' : String) : elsewhere http host (requests http (adapter.without host') url answers) =
      ((followed http.authority adapter.httpClient.policy.max answers).filter
        fun u => (http.authority u).host ≠ some host).map
          (⟨·, adapter.httpClient.kept (headersFor http (adapter.without host') url)⟩) :=
    elsewhere_requests (hcheck' host') hr hhost
  rw [hhost]
  constructor
  · intro hconfined target htarget
    by_cases hsame : (http.authority target).host = some host
    · exact .inl hsame
    · refine .inr ?_
      cases hlookup : adapter.authHeaders.lookup host with
      | none => rw [headersFor_of_host hhost, hlookup, Option.getD_none, Client.kept_nil]
      | some headers =>
          have hmem : host ∈ authEntries.map (·.host) := hkeys ▸ List.mem_map.mpr ⟨_, lookup_mem hlookup, rfl⟩
          obtain ⟨entry, hentry, rfl⟩ := List.mem_map.mp hmem
          have heq := hconfined entry hentry _ _ h (new_without h entry.host)
          rw [elsewhere_requests hcheck hr hhost, hwithout] at heq
          have hrequest := List.map_inj_left.mp heq target (List.mem_filter.mpr ⟨htarget, by simpa using hsame⟩)
          rw [Request.mk.injEq, headersFor_without_self hhost] at hrequest
          exact hrequest.2
  · intro hsafe entry hentry a a' ha ha'
    cases h.symm.trans ha
    cases (new_without h entry.host).symm.trans ha'
    by_cases hown : entry.host = host
    · subst hown
      rw [elsewhere_requests hcheck hr hhost, hwithout]
      refine List.map_congr_left fun u hu => ?_
      obtain ⟨hu, haway⟩ := List.mem_filter.mp hu
      rw [(hsafe u hu).resolve_left (by simpa using haway), headersFor_without_self hhost]
      rfl
    · rw [requests_of_allowed hcheck, requests_of_allowed (hcheck' entry.host),
        headersFor_without_other hhost (Ne.symm hown)]
      rfl

/-- However the servers answer, only allowed hosts are contacted and the headers of an
entry stay with its host, exactly when no redirect leads astray. -/
theorem resolve_confined (h : new http templates allowedDomains authEntries = .ok adapter) (url : Url)
    (answers : Nat → Answer Url (Except String String)) :
    Within http adapter url answers ∧ Confined http templates allowedDomains authEntries url answers ↔
      (checkDomain http adapter url = .ok () → Reachable http.authority url → Harmless http adapter url answers) := by
  by_cases hsent : checkDomain http adapter url = .ok () ∧ Reachable http.authority url
  · obtain ⟨hcheck, hr⟩ := hsent
    rw [within_iff hcheck hr, confined_iff h hcheck hr]
    simp only [hcheck, hr, forall_const, Harmless, forall_and]
  · -- Nothing is sent, with or without an entry.
    have hnothing : requests http adapter url answers = [] := requests_eq_nil hsent
    refine iff_of_true ⟨?_, ?_⟩ fun hcheck hr => absurd ⟨hcheck, hr⟩ hsent
    · intro r hr
      rw [hnothing] at hr
      cases hr
    · intro entry _ a a' ha ha'
      cases h.symm.trans ha
      cases (new_without h entry.host).symm.trans ha'
      have hnothing' : requests http (adapter.without entry.host) url answers = [] := requests_eq_nil hsent
      rw [hnothing, hnothing']

def slashed (u : Url) : Authority where
  scheme := "https"
  host := some (.ofList (u.text.toList.takeWhile (· ≠ '/')))
  port := some 443

/-- Every header is well formed, and its name in lower case. The client is the one
that a bare builder gives. -/
def plainHttp : HttpLibrary where
  authority := slashed
  headerName name := some name
  headerValue value := some value
  build := .ok ⟨.limited 10, fun name =>
    name ∈ ["authorization", "cookie", "cookie2", "proxy-authorization", "www-authenticate"]⟩

def tokenEntry : ResolverAuthEntry := ⟨"git.example", none, [("private-token", "secret")]⟩

/-- An allowed host redirects to one that is not. -/
def astray : Nat → Answer Url (Except String String)
  | 0 => .response 302 (some ⟨"evil.example/a"⟩) (.ok "")
  | _ => .response 200 none (.ok "<mjml/>")

theorem resolve_confined_direct : ∃ adapter, new plainHttp [] ["git.example"] [tokenEntry] = .ok adapter ∧
    Within plainHttp adapter ⟨"git.example/a"⟩ (fun _ => .response 200 none (.ok "<mjml/>")) ∧
    Confined plainHttp [] ["git.example"] [tokenEntry] ⟨"git.example/a"⟩ fun _ => .response 200 none (.ok "<mjml/>") := by
  refine ⟨_, rfl, (resolve_confined rfl ⟨"git.example/a"⟩ _).mpr fun _ _ target htarget => ?_⟩
  cases htarget

/-- The token goes to a host that is not allowed. -/
theorem resolve_leaks : ∃ adapter, new plainHttp [] ["git.example"] [tokenEntry] = .ok adapter ∧
    (⟨⟨"evil.example/a"⟩, [("private-token", "secret")]⟩ : Request Url String String) ∈
      requests plainHttp adapter ⟨"git.example/a"⟩ astray ∧
    ¬ Within plainHttp adapter ⟨"git.example/a"⟩ astray ∧
    ¬ Confined plainHttp [] ["git.example"] [tokenEntry] ⟨"git.example/a"⟩ astray := by
  refine ⟨_, rfl, by decide, fun h => ?_, fun h => ?_⟩
  · obtain ⟨host, hhost, hin⟩ := h ⟨⟨"evil.example/a"⟩, [("private-token", "secret")]⟩ (by decide)
    cases hhost
    revert hin
    decide
  · have heq := h tokenEntry List.mem_cons_self _ _ rfl rfl
    revert heq
    decide

end TemplateResolverAdapter

namespace HttpAttachmentFetcher

variable {authority : Url → Authority} {toLowercase : String → String} {build : Policy → Except String (Client String)}
  {allowedDomains : List String} {allowHttp : Bool} {maxBytes : Nat} {fetcher : HttpAttachmentFetcher} {url : Url}

theorem fetch_within (hbuild : ∀ policy client, build policy = .ok client → client.policy = policy)
    (h : new toLowercase build allowedDomains allowHttp maxBytes = .ok fetcher) (answers : Nat → Answer Url BodyStream) :
    ∀ r ∈ (fetch authority toLowercase fetcher url answers).1, r = ⟨url, []⟩ ∧
      ∃ host, (authority url).host = some host ∧
        normalize toLowercase host ∈ allowedDomains.map (normalize toLowercase) := by
  intro r hr
  unfold new at h
  cases hclient : build .none with
  | error source =>
      rw [hclient] at h
      cases h
  | ok client =>
      rw [hclient] at h
      cases h
      simp only [fetch] at hr
      split at hr
      · cases hr
      · split at hr
        · cases hr
        · rename_i hin
          rw [Client.get, hbuild .none client hclient] at hr
          obtain ⟨rfl, -, hhost⟩ := Client.eq_of_mem_exchange hr
          obtain ⟨host, hhost⟩ := Option.isSome_iff_exists.mp hhost
          rw [hhost] at hin
          exact ⟨rfl, host, hhost, not_not.mp hin⟩

end HttpAttachmentFetcher

end Catapulte
