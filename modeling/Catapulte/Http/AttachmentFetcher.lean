import Catapulte.Domain.Port
import Catapulte.Http.Exchange

namespace Catapulte

open Http

/-- A response body: the length its header announces, its chunks, and whether reading
breaks off after them. -/
structure BodyStream where
  contentLength : Option Nat
  chunks : List (List UInt8)
  broken : Option String

structure HttpAttachmentFetcher where
  client : Client String
  allowedDomains : List String
  allowHttp : Bool
  maxBytes : Nat

namespace HttpAttachmentFetcher

/-- Lower case, without the dots at the end. -/
def normalize (toLowercase : String → String) (domain : String) : String :=
  .ofList ((toLowercase domain).toList.reverse.dropWhile (· = '.')).reverse

variable (authority : Url → Authority) (toLowercase : String → String)

/-- The builder is told not to follow redirects. -/
def new (build : Policy → Except String (Client String)) (allowedDomains : List String) (allowHttp : Bool) (maxBytes : Nat) :
    Except String HttpAttachmentFetcher :=
  match build .none with
  | .error _ => .error "building reqwest client for attachment fetcher"
  | .ok client => .ok ⟨client, allowedDomains.map (normalize toLowercase), allowHttp, maxBytes⟩

/-- At most one byte more than the limit is read. The sum is one of `u64`, and wraps. -/
def readBody (maxBytes : Nat) (body : BodyStream) : Except AttachmentFetchError AttachmentReader :=
  let limit := (maxBytes + 1) % 2 ^ 64
  let buf := body.chunks.flatten.take limit
  if buf.length = limit then .error .tooLarge
  else
    match body.broken with
    | some _ => .error (.fetch "reading attachment body")
    | none => .ok buf

def readResponse (maxBytes : Nat) : Except String (Nat × BodyStream) → Except AttachmentFetchError AttachmentReader
  | .error _ => .error (.fetch "fetching attachment")
  | .ok (status, body) =>
      if ¬ (200 ≤ status ∧ status < 300) then
        .error (.fetch ("attachment fetch returned non-2xx status: " ++ toString status))
      else if body.contentLength.any (maxBytes < ·) then .error .tooLarge
      else readBody maxBytes body

def fetch (fetcher : HttpAttachmentFetcher) (url : Url) (answers : Nat → Answer Url BodyStream) :
    List (Request Url String String) × Except AttachmentFetchError AttachmentReader :=
  let scheme := (authority url).scheme
  if ¬ (scheme = "https" ∨ scheme = "http" ∧ fetcher.allowHttp = true) then ([], .error (.schemeNotAllowed scheme))
  else
    let rawHost := (authority url).host.getD ""
    if normalize toLowercase rawHost ∉ fetcher.allowedDomains then ([], .error (.domainNotAllowed rawHost))
    else
      let (requests, outcome) := fetcher.client.get authority url [] answers
      (requests, readResponse fetcher.maxBytes outcome)

end HttpAttachmentFetcher

end Catapulte
