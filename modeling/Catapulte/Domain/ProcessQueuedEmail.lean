import Catapulte.Async.Answered
import Catapulte.Domain.Port
import Catapulte.Domain.RoutedEmailSender
import Catapulte.Http.TemplateResolver

namespace Catapulte

open Async

inductive InterpolatedBody
  | plain (p : Plain)
  | mjml (source : String)

structure RenderedBody where
  plain : Plain

structure ResolvedAttachment where
  filename : String
  contentType : String
  bytes : List UInt8

/-- The whole of the email that the senders get. -/
structure OutboundMessage extends OutboundEmail where
  subject : Option String
  recipients : List (RecipientKind × String)
  body : RenderedBody
  attachments : List ResolvedAttachment

inductive InterpolateError
  | engine (source : String)

def InterpolateError.display : InterpolateError → String
  | engine _ => "interpolation engine error"

inductive RenderError
  | mjml (source : String)

def RenderError.display : RenderError → String
  | mjml _ => "mjml render error"

def AttachmentStoreError.display : AttachmentStoreError → String
  | io _ => "attachment store I/O failed"
  | notFound => "attachment not found"

structure MiniJinja where
  Template : Type
  addTemplate : String → Except String Template
  render : Template → Json.Map → Except String String

namespace MiniJinja

variable (jinja : MiniJinja)

def renderStr (vars : Json.Map) (source : String) : Except InterpolateError String :=
  match jinja.addTemplate source with
  | .error _ => .error (.engine "adding template")
  | .ok tmpl =>
      match jinja.render tmpl vars with
      | .error _ => .error (.engine "rendering template")
      | .ok s => .ok s

def interpolatePlain (vars : Json.Map) (plain : Plain) : Except InterpolateError InterpolatedBody := do
  let text ← plain.text.mapM (jinja.renderStr vars)
  let html ← plain.html.mapM (jinja.renderStr vars)
  match Plain.tryNew text html with
  | .error _ => .error (.engine "reconstructing plain body")
  | .ok plain => .ok (.plain plain)

def interpolate (vars : Json.Map) : ResolvedBody → Except InterpolateError InterpolatedBody
  | .mjml source => (jinja.renderStr vars source).map .mjml
  | .plain p => jinja.interpolatePlain vars p

end MiniJinja

structure ReaderHandle where
  handle : Nat

inductive PortCall
  | resolve (body : BodySource)
  | render (body : InterpolatedBody)
  | get (blob : BlobRef)
  | readToEnd (reader : ReaderHandle)
  | send (email : OutboundMessage)

def PortCall.Reply : PortCall → Type
  | resolve _ => Except ResolveError ResolvedBody
  | render _ => Except RenderError RenderedBody
  | get _ => Except AttachmentStoreError ReaderHandle
  | readToEnd _ => Except String (List UInt8)
  | send _ => Except SendError SenderName

def Ports : Interface := ⟨PortCall, PortCall.Reply⟩

namespace Ports

abbrev ask (op : PortCall) : Program Ports op.Reply := @Program.call Ports op

def resolveAttachments : List AttachmentRef → List ResolvedAttachment →
    Program Ports (Except ProcessQueuedEmailError (List ResolvedAttachment))
  | [], resolved => return .ok resolved
  | att :: refs, resolved => do
      match ← ask (.get att.blob) with
      | .error e => return .error (.attachmentResolve e.display)
      | .ok reader =>
          match ← ask (.readToEnd reader) with
          | .error e => return .error (.attachmentResolve e)
          | .ok buf => resolveAttachments refs (resolved ++ [⟨att.filename, att.contentType, buf⟩])

def handOver (envelope : Envelope) (rendered : RenderedBody) (attachments : List ResolvedAttachment) :
    Program Ports (Except ProcessQueuedEmailError SenderName) := do
  match ← ask (.send {
      sender := envelope.sender
      subject := envelope.subject
      recipients := envelope.recipients
      body := rendered
      attachments }) with
  | .error e => return .error (.send e)
  | .ok senderName => return .ok senderName

def execute (jinja : MiniJinja) (envelope : Envelope) : Program Ports (Except ProcessQueuedEmailError SenderName) := do
  match ← ask (.resolve envelope.body) with
  | .error e => return .error (.resolve e.display)
  | .ok resolved =>
      match jinja.interpolate envelope.vars resolved with
      | .error e => return .error (.interpolate e.display)
      | .ok interpolated =>
          match ← ask (.render interpolated) with
          | .error e => return .error (.render e.display)
          | .ok rendered =>
              match ← resolveAttachments envelope.attachments [] with
              | .error e => return .error e
              | .ok attachments => handOver envelope rendered attachments

def processQueuedEmail (jinja : MiniJinja) : ProcessQueuedEmailUseCase (Program Ports) := ⟨execute jinja⟩

end Ports

end Catapulte
