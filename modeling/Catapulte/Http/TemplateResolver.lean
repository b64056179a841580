import Catapulte.Domain.Entity
import Catapulte.Http.Exchange

namespace Catapulte

open Http

inductive ResolvedBody
  | plain (p : Plain)
  | mjml (source : String)

inductive ResolveError
  | notFound (name : String)
  | domainNotAllowed (url : String)
  | fetch (url source : String)
  deriving DecidableEq, Repr

def ResolveError.display : ResolveError → String
  | notFound name => "template " ++ name.quote ++ " not found"
  | domainNotAllowed url => "domain not allowed for remote template: " ++ url.quote
  | fetch url _ => "failed to fetch template from " ++ url.quote

structure ResolverAuthEntry where
  host : String
  bearerToken : Option String
  headers : List (String × String)
  deriving DecidableEq, Repr

/-- Names are in lower case. A name may stand more than once. -/
abbrev HeaderMap := List (String × String)

/-- What the adapter uses of the HTTP libraries: the parts of a URL, the checks of
header names and values, and the client that a bare builder builds. -/
structure HttpLibrary where
  authority : Url → Authority
  headerName : String → Option String
  headerValue : String → Option String
  build : Except String (Client String)

structure TemplateResolverAdapter where
  templates : List (String × String)
  allowedDomains : List String
  httpClient : Client String
  authHeaders : List (String × HeaderMap)

namespace TemplateResolverAdapter

variable (http : HttpLibrary)

def authorization : String := "authorization"

/-- The generic headers of the entry, after `map`. -/
def appendHeaders (entry : ResolverAuthEntry) : List (String × String) → HeaderMap → Except String HeaderMap
  | [], map => .ok map
  | (name, value) :: headers, map =>
      match http.headerName name with
      | none => .error ("invalid header name for host " ++ entry.host)
      | some headerName =>
          if entry.bearerToken.isSome ∧ headerName = authorization then
            .error ("conflicting Authorization header for host " ++ entry.host ++
              ": both a bearer token and an explicit authorization header are configured")
          else
            match http.headerValue value with
            | none => .error ("invalid header value for host " ++ entry.host ++ " header " ++ name)
            | some headerValue => appendHeaders entry headers (map ++ [(headerName, headerValue)])

def headerMap (entry : ResolverAuthEntry) : Except String HeaderMap :=
  match entry.bearerToken with
  | none => appendHeaders http entry entry.headers []
  | some token =>
      match http.headerValue ("Bearer " ++ token) with
      | none => .error ("invalid resolver bearer token for host " ++ entry.host)
      | some value => appendHeaders http entry entry.headers [(authorization, value)]

def insertEntries : List ResolverAuthEntry → List (String × HeaderMap) → Except String (List (String × HeaderMap))
  | [], authHeaders => .ok authHeaders
  | entry :: entries, authHeaders =>
      if (authHeaders.lookup entry.host).isSome then
        .error ("duplicate host in resolver auth entries: " ++ entry.host)
      else do
        let map ← headerMap http entry
        insertEntries entries (authHeaders ++ [(entry.host, map)])

def new (templates : List (String × String)) (allowedDomains : List String) (authEntries : List ResolverAuthEntry) :
    Except String TemplateResolverAdapter :=
  match http.build with
  | .error _ => .error "building reqwest client for template resolver"
  | .ok httpClient => do
      let authHeaders ← insertEntries http authEntries []
      pure ⟨templates, allowedDomains, httpClient, authHeaders⟩

variable (adapter : TemplateResolverAdapter)

def checkDomain (url : Url) : Except ResolveError Unit :=
  if ((http.authority url).host.getD "") ∈ adapter.allowedDomains then .ok ()
  else .error (.domainNotAllowed url.text)

def headersFor (url : Url) : HeaderMap :=
  match (http.authority url).host.bind (adapter.authHeaders.lookup ·) with
  | none => []
  | some headers => headers

/-- The requests of a fetch, and what becomes of its answers. The body of an answer
is its text, or why it cannot be read. -/
def resolveRemote (url : Url) (answers : Nat → Answer Url (Except String String)) :
    List (Request Url String String) × Except ResolveError String :=
  let (requests, outcome) := adapter.httpClient.get http.authority url (headersFor http adapter url) answers
  let result :=
    match outcome with
    | .error _ => .error (.fetch url.text "http request failed")
    | .ok (status, body) =>
        if 400 ≤ status ∧ status < 600 then .error (.fetch url.text "http error response")
        else
          match body with
          | .error _ => .error (.fetch url.text "reading response body")
          | .ok text => .ok text
  (requests, result)

def resolveMjml (source : MjmlSource) (answers : Nat → Answer Url (Except String String)) :
    List (Request Url String String) × Except ResolveError String :=
  match source with
  | .inline s => ([], .ok s)
  | .named name =>
      match adapter.templates.lookup name with
      | none => ([], .error (.notFound name))
      | some template => ([], .ok template)
  | .remote url =>
      match checkDomain http adapter url with
      | .error e => ([], .error e)
      | .ok () => resolveRemote http adapter url answers

def resolve (body : BodySource) (answers : Nat → Answer Url (Except String String)) :
    List (Request Url String String) × Except ResolveError ResolvedBody :=
  match body with
  | .plain p => ([], .ok (.plain p))
  | .mjml source =>
      let (requests, result) := resolveMjml http adapter source answers
      (requests, result.map .mjml)

end TemplateResolverAdapter

end Catapulte
