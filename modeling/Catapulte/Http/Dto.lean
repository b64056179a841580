import Catapulte.Domain.SubmitEmail
import Catapulte.Serde.Dto

namespace Catapulte

/-! The wire types of the HTTP server. -/

def maxAttachmentsPerEmail : Nat := 10

def maxAttachmentBytes : Nat := 25 * 1024 * 1024

def maxEnvelopeBytes : Nat := 1024 * 1024

def maxRequestBodyBytes : Nat := 352 * 1024 * 1024

structure AttachmentDto where
  filename : String
  contentType : String
  inlineBase64 : Option String
  url : Option String

/-- It has the variants of the body that the queue and the databases store. -/
abbrev BodyDto := BodySourceDto

structure SubmitEmailRequest where
  idempotencyKey : Option String
  correlationId : Option String
  subject : Option String
  sender : String
  recipients : List RecipientDto
  body : BodyDto
  vars : Json.Map
  attachments : List AttachmentDto

structure EnvelopeCoreDto where
  idempotencyKey : Option String
  correlationId : Option String
  subject : Option String
  sender : String
  recipients : List RecipientDto
  body : BodyDto
  vars : Json.Map

inductive BodyConversionError
  | invalidPlain (source : InvalidPlainBody)
  | invalidRemoteUrl (source : String)

inductive EnvelopeConversionError
  | body (e : BodyConversionError)
  | invalidSender (source : String)
  | emptyRecipients
  | invalidRecipient (source : String)
  | invalidAttachmentBase64 (filename source : String)
  | invalidAttachmentShape (filename : String)
  | invalidAttachmentUrl (filename source : String)
  | tooManyAttachments
  | attachmentTooLarge (filename : String)

def BodyConversionError.display : BodyConversionError → String
  | invalidPlain _ => "invalid plain body"
  | invalidRemoteUrl _ => "invalid remote url"

def EnvelopeConversionError.display : EnvelopeConversionError → String
  | body e => e.display
  | invalidSender _ => "invalid sender address"
  | emptyRecipients => "recipients must not be empty"
  | invalidRecipient _ => "invalid recipient address"
  | invalidAttachmentBase64 .. => "invalid attachment base64"
  | invalidAttachmentShape _ => "invalid attachment shape: exactly one of inline_base64 or url must be set"
  | invalidAttachmentUrl .. => "invalid attachment url"
  | tooManyAttachments => "too many attachments"
  | attachmentTooLarge _ => "attachment too large"

/-- An object may not name a field twice. -/
def Json.unrepeated (names : List String) : Json → Bool
  | object members => names.all fun name => (members.filter fun m => m.1 = name).length ≤ 1
  | _ => true

def Json.struct {α : Type} (names : List String) (decode : Fields → Option α) (j : Json) : Option α := do
  let f ← j.fields names.length
  if j.unrepeated names then decode f else none

def recipientFields : List String := ["kind", "address"]

def RecipientDto.fromJson (j : Json) : Option RecipientDto :=
  if j.unrepeated recipientFields then RecipientDto.deserialize j else none

def BodyDto.fieldNames : String → List String
  | "plain" => ["text", "html"]
  | "mjml_inline" => ["source"]
  | "mjml_named" => ["name"]
  | "mjml_remote" => ["url"]
  | _ => []

def BodyDto.fromJson (j : Json) : Option BodyDto := do
  let (kind, _) ← j.tagged "kind"
  if j.unrepeated ("kind" :: fieldNames kind) then BodySourceDto.deserialize j else none

def AttachmentDto.fromJson : Json → Option AttachmentDto :=
  Json.struct ["filename", "content_type", "inline_base64", "url"] fun f => do
    let filename ← f.required 0 "filename" Json.asString
    let contentType ← f.required 1 "content_type" Json.asString
    let inlineBase64 ← f.defaulted 2 "inline_base64" (Json.nullable Json.asString) none
    let url ← f.defaulted 3 "url" (Json.nullable Json.asString) none
    pure ⟨filename, contentType, inlineBase64, url⟩

def envelopeFields : List String :=
  ["idempotency_key", "correlation_id", "subject", "sender", "recipients", "body", "variables"]

def EnvelopeCoreDto.fromFields (f : Json.Fields) : Option EnvelopeCoreDto := do
  let idempotencyKey ← f.defaulted 0 "idempotency_key" (Json.nullable Json.asString) none
  let correlationId ← f.defaulted 1 "correlation_id" (Json.nullable Json.asString) none
  let subject ← f.defaulted 2 "subject" (Json.nullable Json.asString) none
  let sender ← f.required 3 "sender" Json.asString
  let recipients ← f.required 4 "recipients" (Json.asSeq RecipientDto.fromJson)
  let body ← f.required 5 "body" BodyDto.fromJson
  let vars ← f.defaulted 6 "variables" Json.asMap .new
  pure ⟨idempotencyKey, correlationId, subject, sender, recipients, body, vars⟩

def EnvelopeCoreDto.fromJson : Json → Option EnvelopeCoreDto := Json.struct envelopeFields fromFields

def SubmitEmailRequest.fromFields (f : Json.Fields) : Option SubmitEmailRequest := do
  let idempotencyKey ← f.defaulted 0 "idempotency_key" (Json.nullable Json.asString) none
  let correlationId ← f.defaulted 1 "correlation_id" (Json.nullable Json.asString) none
  let subject ← f.defaulted 2 "subject" (Json.nullable Json.asString) none
  let sender ← f.required 3 "sender" Json.asString
  let recipients ← f.required 4 "recipients" (Json.asSeq RecipientDto.fromJson)
  let body ← f.required 5 "body" BodyDto.fromJson
  let vars ← f.defaulted 6 "variables" Json.asMap .new
  let attachments ← f.defaulted 7 "attachments" (Json.asSeq AttachmentDto.fromJson) []
  pure ⟨idempotencyKey, correlationId, subject, sender, recipients, body, vars, attachments⟩

def SubmitEmailRequest.fromJson : Json → Option SubmitEmailRequest :=
  Json.struct (envelopeFields ++ ["attachments"]) fromFields

/-- What the conversions use of other crates. -/
structure Parsers where
  emailAddress : String → Bool
  url : String → Option Url
  base64 : String → Option (List UInt8)

variable (parsers : Parsers)

def validateSender (sender : String) : Except EnvelopeConversionError Unit :=
  if parsers.emailAddress sender then .ok () else .error (.invalidSender "parsing sender")

def validateRecipients (recipients : List RecipientDto) :
    Except EnvelopeConversionError (List (RecipientKind × String)) :=
  if recipients.isEmpty then .error .emptyRecipients
  else
    recipients.mapM fun r =>
      if parsers.emailAddress r.address then .ok (r.kind.toRecipientKind, r.address)
      else .error (.invalidRecipient "parsing recipient")

def plainBody (text html : Option String) : Except BodyConversionError BodySource :=
  match Plain.tryNew text html with
  | .ok p => .ok (.plain p)
  | .error e => .error (.invalidPlain e)

def remoteMjmlBody (url : String) : Except BodyConversionError BodySource :=
  match parsers.url url with
  | some parsed => .ok (.mjml (.remote parsed))
  | none => .error (.invalidRemoteUrl "parsing mjml remote url")

def BodyDto.tryInto : BodyDto → Except BodyConversionError BodySource
  | .plain text html => plainBody text html
  | .mjmlInline source => .ok (.mjml (.inline source))
  | .mjmlNamed name => .ok (.mjml (.named name))
  | .mjmlRemote url => remoteMjmlBody parsers url

def attachmentDtoToInput (a : AttachmentDto) : Except EnvelopeConversionError AttachmentInput :=
  match a.inlineBase64, a.url with
  | some b64, none =>
      match parsers.base64 b64 with
      | none => .error (.invalidAttachmentBase64 a.filename ("decoding base64 for attachment '" ++ a.filename ++ "'"))
      | some decoded =>
          if maxAttachmentBytes < decoded.length then .error (.attachmentTooLarge a.filename)
          else .ok (.inline a.filename a.contentType decoded)
  | none, some rawUrl =>
      match parsers.url rawUrl with
      | none => .error (.invalidAttachmentUrl a.filename ("parsing url for attachment '" ++ a.filename ++ "'"))
      | some parsed => .ok (.remote a.filename a.contentType parsed)
  | _, _ => .error (.invalidAttachmentShape a.filename)

def SubmitEmailRequest.intoSubmitInput (req : SubmitEmailRequest) : Except EnvelopeConversionError SubmitEmailInput := do
  validateSender parsers req.sender
  let recipients ← validateRecipients parsers req.recipients
  let body ← (BodyDto.tryInto parsers req.body).mapError .body
  if maxAttachmentsPerEmail < req.attachments.length then throw .tooManyAttachments
  let atts ← req.attachments.mapM (attachmentDtoToInput parsers)
  pure ⟨req.idempotencyKey, req.correlationId, req.subject, req.sender, recipients, body, req.vars, atts⟩

def EnvelopeCoreDto.intoSubmitInput (dto : EnvelopeCoreDto) (attachments : List AttachmentInput) :
    Except EnvelopeConversionError SubmitEmailInput := do
  validateSender parsers dto.sender
  let recipients ← validateRecipients parsers dto.recipients
  let body ← (BodyDto.tryInto parsers dto.body).mapError .body
  pure ⟨dto.idempotencyKey, dto.correlationId, dto.subject, dto.sender, recipients, body, dto.vars, attachments⟩

end Catapulte
