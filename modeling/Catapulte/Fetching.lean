import Catapulte.Async.Read
import Catapulte.Http.AttachmentFetcher
import Catapulte.Queue.Jetstream

namespace Catapulte

open Async Http
open Nats (parseU64 splitCommas trim)

structure HttpAttachmentFetcherConfig where
  allowedDomains : List String
  allowHttp : Bool
  maxBytes : Nat
  fetchTimeout : Duration

namespace HttpAttachmentFetcherConfig

/-- A variable that holds a `u64`, where it is set. -/
def u64Var (env : String → Option String) (key : String) : Except String (Option Nat) :=
  match env key with
  | none => .ok none
  | some v => (parseU64 v.toList).elim (.error s!"invalid {key}") fun n => .ok (some n)

def allowHttpVar (env : String → Option String) (key : String) : Except String Bool :=
  match (env key).getD "" with
  | "true" => .ok true
  | "false" | "" => .ok false
  | other => .error s!"invalid {key} value: {other.quote}"

/-- `env` gives the variables that are set to a Unicode value. -/
def fromEnv (pfx : String) (env : String → Option String) : Except String HttpAttachmentFetcherConfig := do
  let allowedDomains := ((splitCommas ((env (pfx ++ "_ALLOWED_DOMAINS")).getD "").toList).map trim).filter (· ≠ [])
  let allowHttp ← allowHttpVar env (pfx ++ "_ALLOW_HTTP")
  let maxBytes ← u64Var env (pfx ++ "_MAX_BYTES")
  let fetchTimeoutMs ← u64Var env (pfx ++ "_FETCH_TIMEOUT_MS")
  pure {
    allowedDomains := allowedDomains.map String.ofList
    allowHttp
    maxBytes := maxBytes.getD (25 * 1024 * 1024)
    fetchTimeout := fetchTimeoutMs.elim (.fromSecs 30) fun ms => ⟨ms * 1000000⟩ }

def build (toLowercase : String → String) (client : Duration → Policy → Except String (Client String))
    (config : HttpAttachmentFetcherConfig) : Except String HttpAttachmentFetcher :=
  HttpAttachmentFetcher.new toLowercase (client config.fetchTimeout) config.allowedDomains config.allowHttp config.maxBytes

variable {pfx : String} {env : String → Option String} {config : HttpAttachmentFetcherConfig}
  {toLowercase : String → String} {client : Duration → Policy → Except String (Client String)}
  {fetcher : HttpAttachmentFetcher}

theorem maxBytes_of_build (h : config.build toLowercase client = .ok fetcher) : fetcher.maxBytes = config.maxBytes := by
  rw [build, HttpAttachmentFetcher.new] at h
  split at h
  · cases h
  · cases h
    rfl

theorem lt_two_pow_of_parseU64 {cs : List Char} {n : Nat} (h : parseU64 cs = some n) : n < 2 ^ 64 := by
  simp only [parseU64, Option.bind_eq_bind, Option.bind_eq_some_iff] at h
  obtain ⟨m, -, hm⟩ := h
  split at hm
  · cases hm
    assumption
  · cases hm

theorem maxBytes_of_fromEnv (h : fromEnv pfx env = .ok config) : config.maxBytes < 2 ^ 64 := by
  rw [fromEnv] at h
  obtain ⟨allowHttp, -, h⟩ := exists_of_bind_eq_ok h
  obtain ⟨maxBytes, hmax, h⟩ := exists_of_bind_eq_ok h
  obtain ⟨fetchTimeoutMs, -, h⟩ := exists_of_bind_eq_ok h
  cases h
  rw [u64Var] at hmax
  split at hmax
  · cases hmax
    exact (by decide : 25 * 1024 * 1024 < 2 ^ 64)
  · rename_i v _
    cases hparsed : parseU64 v.toList with
    | none =>
        rw [hparsed] at hmax
        cases hmax
    | some n =>
        rw [hparsed] at hmax
        cases hmax
        exact lt_two_pow_of_parseU64 hparsed

end HttpAttachmentFetcherConfig

namespace HttpAttachmentFetcher

/-- How many bytes are read at most: a sum of `u64`, which wraps. -/
def readLimit (maxBytes : Nat) : Nat := (maxBytes + 1) % 2 ^ 64

/-- Reads a body through `Take` into a buffer. -/
def buffer {R : Type} [AsyncRead R] (room : List (List UInt8) → Nat) (polls maxBytes : Nat) (reader : R) :
    Option (Except AttachmentFetchError AttachmentReader) :=
  (readToEnd room polls (Take.mk reader (readLimit maxBytes)) []).map fun
    | .error _ => .error (.fetch "reading attachment body")
    | .ok buf => if buf.length = readLimit maxBytes then .error .tooLarge else .ok buf

variable {R : Type} [AsyncRead R] {room : List (List UInt8) → Nat} {n polls maxBytes status : Nat} {body : BodyStream}

theorem buffer_eq_readBody {reader : R} (hroom : ∀ pieces, 0 < room pieces)
    (h : Delivers n reader body.chunks.flatten) (hpolls : n ≤ polls) (hread : body.broken = none) :
    buffer room polls maxBytes reader = some (readBody maxBytes body) := by
  rw [buffer, readToEnd_delivers room hroom (h.take _) hpolls, readBody, hread]
  rfl

theorem readLimit_eq_iff : readLimit maxBytes = maxBytes + 1 ↔ maxBytes < 2 ^ 64 - 1 := by
  rw [readLimit, Nat.mod_eq_iff_lt (by decide), Nat.lt_sub_iff_add_lt]

theorem readBody_of_lt (h : maxBytes < 2 ^ 64 - 1) (hread : body.broken = none) :
    readBody maxBytes body =
      if body.chunks.flatten.length ≤ maxBytes then .ok body.chunks.flatten else .error .tooLarge := by
  have hlimit := readLimit_eq_iff.mpr h
  rw [readLimit] at hlimit
  rw [readBody, hlimit, hread]
  by_cases hle : body.chunks.flatten.length ≤ maxBytes
  · have htake : body.chunks.flatten.take (maxBytes + 1) = body.chunks.flatten :=
      List.take_of_length_le (Nat.le_succ_of_le hle)
    rw [htake, if_pos hle]
    exact if_neg (Nat.ne_of_lt (Nat.lt_succ_of_le hle))
  · have hlength : (body.chunks.flatten.take (maxBytes + 1)).length = maxBytes + 1 := by
      rw [List.length_take, Nat.min_eq_left (Nat.lt_of_not_le hle)]
    rw [if_neg hle]
    exact if_pos hlength

theorem readBody_max (body : BodyStream) : readBody (2 ^ 64 - 1) body = .error .tooLarge := by
  have hlimit : (2 ^ 64 - 1 + 1) % 2 ^ 64 = 0 := by decide
  rw [readBody, hlimit]
  rfl

theorem readResponse_of_ok (hstatus : 200 ≤ status ∧ status < 300) : readResponse maxBytes (.ok (status, body)) =
    if body.contentLength.any (maxBytes < ·) then .error .tooLarge else readBody maxBytes body := by
  rw [readResponse, if_neg (not_not.mpr hstatus)]

variable (authority : Url → Authority) (toLowercase : String → String)

/-- Scheme and host are allowed. -/
def Allowed (fetcher : HttpAttachmentFetcher) (url : Url) : Prop :=
  ((authority url).scheme = "https" ∨ (authority url).scheme = "http" ∧ fetcher.allowHttp = true) ∧
  normalize toLowercase ((authority url).host.getD "") ∈ fetcher.allowedDomains

/-- The whole body, or `TooLarge` where it or the length it announces is beyond the limit,
and no sum that wraps. -/
structure Sized (maxBytes : Nat) (body : BodyStream) (result : Except AttachmentFetchError AttachmentReader) : Prop where
  exact : body.chunks.flatten.length ≤ maxBytes ∧ (∀ length ∈ body.contentLength, length ≤ maxBytes) →
    result = .ok body.chunks.flatten
  tooLarge : ¬ (body.chunks.flatten.length ≤ maxBytes ∧ ∀ length ∈ body.contentLength, length ≤ maxBytes) →
    result = .error .tooLarge
  noOverflow : readLimit maxBytes = maxBytes + 1

variable {authority toLowercase} {fetcher : HttpAttachmentFetcher} {url : Url} {answers : Nat → Answer Url BodyStream}

theorem fetch_of_allowed (hallowed : Allowed authority toLowercase fetcher url) :
    (fetch authority toLowercase fetcher url answers).2 =
      readResponse fetcher.maxBytes (fetcher.client.get (V := String) authority url [] answers).2 := by
  rw [fetch, if_neg (not_not.mpr hallowed.1), if_neg (not_not.mpr hallowed.2)]

theorem sized_readResponse (h : maxBytes < 2 ^ 64 - 1) (hstatus : 200 ≤ status ∧ status < 300)
    (hread : body.broken = none) : Sized maxBytes body (readResponse maxBytes (.ok (status, body))) := by
  rw [readResponse_of_ok hstatus, readBody_of_lt h hread]
  have hannounced : body.contentLength.any (maxBytes < ·) = true ↔ ¬ ∀ length ∈ body.contentLength, length ≤ maxBytes := by
    cases body.contentLength with
    | none => simp
    | some length => simp
  refine ⟨fun ⟨hbody, hlength⟩ => ?_, fun hlarge => ?_, readLimit_eq_iff.mpr h⟩
  · rw [if_neg (fun hany => hannounced.mp hany hlength), if_pos hbody]
  · by_cases hlength : ∀ length ∈ body.contentLength, length ≤ maxBytes
    · rw [if_neg (fun hany => hannounced.mp hany hlength), if_neg fun hbody => hlarge ⟨hbody, hlength⟩]
    · rw [if_pos (hannounced.mpr hlength)]

/-- A fetch keeps to its limit unless that is the largest `u64`. -/
theorem fetch_sized_iff {config : HttpAttachmentFetcherConfig}
    {client : Duration → Policy → Except String (Client String)} (hfetcher : config.build toLowercase client = .ok fetcher)
    (hallowed : Allowed authority toLowercase fetcher url)
    (hresponse : (fetcher.client.get (V := String) authority url [] answers).2 = .ok (status, body))
    (hstatus : 200 ≤ status ∧ status < 300) (hread : body.broken = none) :
    Sized config.maxBytes body (fetch authority toLowercase fetcher url answers).2 ↔ config.maxBytes < 2 ^ 64 - 1 := by
  rw [fetch_of_allowed hallowed, hresponse, HttpAttachmentFetcherConfig.maxBytes_of_build hfetcher]
  exact ⟨fun h => readLimit_eq_iff.mp h.noOverflow, fun h => sized_readResponse h hstatus hread⟩

def filesHost (_ : Url) : Authority := ⟨"https", some "files.example", none⟩

def plainClient (_ : Duration) (policy : Policy) : Except String (Client String) := .ok ⟨policy, fun _ => false⟩

/-- A body of two chunks that is as long as the limit. -/
theorem fetch_sized_iff_full :
    Sized 3 ⟨some 3, [[1], [2, 3]], none⟩
      (fetch filesHost id ⟨⟨.none, fun _ => false⟩, ["files.example"], false, 3⟩ ⟨"https://files.example/a"⟩
        fun _ => .response 200 none ⟨some 3, [[1], [2, 3]], none⟩).2 := by
  have hfetcher : (⟨["files.example"], false, 3, .fromSecs 30⟩ : HttpAttachmentFetcherConfig).build id plainClient =
      .ok ⟨⟨.none, fun _ => false⟩, ["files.example"], false, 3⟩ := rfl
  exact (fetch_sized_iff hfetcher ⟨.inl rfl, by decide⟩ rfl (by decide) rfl).mpr (by decide)

def largestLimit : String → Option String
  | "ATTACHMENTS_ALLOWED_DOMAINS" => some "files.example"
  | "ATTACHMENTS_MAX_BYTES" => some "18446744073709551615"
  | _ => none

/-- With the largest limit one byte is too much. -/
theorem fetch_not_sized : ∃ config fetcher, HttpAttachmentFetcherConfig.fromEnv "ATTACHMENTS" largestLimit = .ok config ∧
    config.build id plainClient = .ok fetcher ∧ Allowed filesHost id fetcher ⟨"https://files.example/a"⟩ ∧
    (fetch filesHost id fetcher ⟨"https://files.example/a"⟩ fun _ => .response 200 none ⟨none, [[1]], none⟩).2 =
      .error .tooLarge ∧
    ¬ Sized config.maxBytes ⟨none, [[1]], none⟩
      (fetch filesHost id fetcher ⟨"https://files.example/a"⟩ fun _ => .response 200 none ⟨none, [[1]], none⟩).2 := by
  have htooLarge : (fetch filesHost id ⟨⟨.none, fun _ => false⟩, ["files.example"], false, 2 ^ 64 - 1⟩
      ⟨"https://files.example/a"⟩ fun _ => .response 200 none ⟨none, [[1]], none⟩).2 = .error .tooLarge := by
    rw [fetch_of_allowed ⟨.inl rfl, by decide⟩]
    exact readBody_max ⟨none, [[1]], none⟩
  refine ⟨⟨["files.example"], false, 2 ^ 64 - 1, .fromSecs 30⟩, _, rfl, rfl, ⟨.inl rfl, by decide⟩, htooLarge, fun h => ?_⟩
  have hexact := h.exact ⟨by decide, fun length hlength => (by cases hlength)⟩
  cases htooLarge.symm.trans hexact

end HttpAttachmentFetcher

end Catapulte
