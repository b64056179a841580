import Catapulte.Http.Dto
import Catapulte.Http.LimitedReader

namespace Catapulte

open Async

inductive AppError
  | badRequest (e : EnvelopeConversionError)
  | badRequestRaw (message : String)
  | submit (e : SubmitEmailError)

structure Field (R : Type) where
  name : Option String
  fileName : Option String
  contentType : Option String
  reader : R

/-- The text and the data errors of `serde_json`. -/
structure JsonLibrary where
  parse : List UInt8 → Except String Json
  mismatch : Json → String

namespace JsonLibrary

def fromSlice {α : Type} (json : JsonLibrary) (decode : Json → Option α) (bytes : List UInt8) : Except String α :=
  match json.parse bytes with
  | .error e => .error e
  | .ok j =>
      match decode j with
      | none => .error (json.mismatch j)
      | some a => .ok a

end JsonLibrary

section Handlers

variable (json : JsonLibrary) (parsers : Parsers)

/-- `axum::body::to_bytes`, of a body that arrives in full or breaks off. -/
def toBytes (limit : Nat) (body : Except String (List UInt8)) : Except String (List UInt8) :=
  match body with
  | .error e => .error e
  | .ok bytes => if limit < bytes.length then .error "length limit exceeded" else .ok bytes

def handleJson (body : Except String (List UInt8)) : Except AppError SubmitEmailInput :=
  match toBytes maxRequestBodyBytes body with
  | .error e => .error (.badRequestRaw ("failed to read request body: " ++ e))
  | .ok bytes =>
      match json.fromSlice SubmitEmailRequest.fromJson bytes with
      | .error e => .error (.badRequestRaw ("invalid JSON: " ++ e))
      | .ok req => (req.intoSubmitInput parsers).mapError .badRequest

variable {R : Type} [AsyncRead R] (room : List (List UInt8) → Nat) (polls : Nat)

def readEnvelope (field : Field R) : Option (Except AppError EnvelopeCoreDto) := do
  match ← readToEnd room polls (LimitedReader.new field.reader maxEnvelopeBytes) [] with
  | .error _ => pure (.error (.badRequestRaw "envelope field exceeds size limit"))
  | .ok buf =>
      match json.fromSlice EnvelopeCoreDto.fromJson buf with
      | .error e => pure (.error (.badRequestRaw ("invalid envelope JSON: " ++ e)))
      | .ok dto => pure (.ok dto)

def readAttachment (attachments : List AttachmentInput) (field : Field R) :
    Option (Except AppError AttachmentInput) :=
  if maxAttachmentsPerEmail ≤ attachments.length then some (.error (.badRequestRaw "too many attachments"))
  else
    match field.fileName with
    | none => some (.error (.badRequestRaw "attachment field missing filename in Content-Disposition"))
    | some filename => do
        let contentType := field.contentType.getD "application/octet-stream"
        match ← readToEnd room polls (LimitedReader.new field.reader maxAttachmentBytes) [] with
        | .error e => pure (.error (.badRequestRaw ("attachment too large or read error: " ++ e)))
        | .ok buf => pure (.ok (.inline filename contentType buf))

def readFields : List (Except String (Field R)) → Option EnvelopeCoreDto → List AttachmentInput →
    Option (Except AppError (Option EnvelopeCoreDto × List AttachmentInput))
  | [], envelope, attachments => some (.ok (envelope, attachments))
  | .error e :: _, _, _ => some (.error (.badRequestRaw ("multipart read error: " ++ e)))
  | .ok field :: fields, envelope, attachments => do
      match field.name.getD "" with
      | "envelope" =>
          match ← readEnvelope json room polls field with
          | .error e => pure (.error e)
          | .ok dto => readFields fields (some dto) attachments
      | "attachment" =>
          match ← readAttachment room polls attachments field with
          | .error e => pure (.error e)
          | .ok attachment => readFields fields envelope (attachments ++ [attachment])
      | _ => readFields fields envelope attachments

/-- `none` when a reader does not end within `polls` polls. -/
def handleMultipart (multipart : Except String (List (Except String (Field R)))) :
    Option (Except AppError SubmitEmailInput) :=
  match multipart with
  | .error e => some (.error (.badRequestRaw ("invalid multipart: " ++ e)))
  | .ok fields => do
      match ← readFields json room polls fields none [] with
      | .error e => pure (.error e)
      | .ok (none, _) => pure (.error (.badRequestRaw "missing required 'envelope' field"))
      | .ok (some envelope, attachments) => pure ((envelope.intoSubmitInput parsers attachments).mapError .badRequest)

end Handlers

end Catapulte
