import Catapulte.Http.Emails

namespace Catapulte

open Async

/-! The server that submits the emails of a NATS stream. -/

structure InboundMessage where
  seq : Nat
  payload : List UInt8
  deriving DecidableEq

/-- `ack` and `nak` answer the delivery of the message with this number. -/
structure InboundNatsServer (M : Type → Type) where
  fetchOne : M (Except String (Option InboundMessage))
  ack : Nat → M (Except String Unit)
  nak : Nat → M (Except String Unit)
  sleep : M Unit
  submitEmail : EmailId → SubmitEmailInput → M (Except SubmitEmailError EmailId)

namespace InboundNatsServer

/-- A round in which no email was submitted, or the result of the submission. -/
inductive Round
  | idle
  | discarded
  | submitted (result : Except SubmitEmailError EmailId)

variable {M : Type → Type} [Monad M]

def discard (server : InboundNatsServer M) (msg : InboundMessage) : M Round := do
  let _ ← server.ack msg.seq
  return .discarded

def settle (server : InboundNatsServer M) (msg : InboundMessage) : Except SubmitEmailError EmailId → M Round
  | .ok id => do
      let _ ← server.ack msg.seq
      return .submitted (.ok id)
  | .error e =>
      if e.isTransient then do
        let _ ← server.nak msg.seq
        return .submitted (.error e)
      else do
        let _ ← server.ack msg.seq
        return .submitted (.error e)

/-- `id` is the email id that a submission starts by generating. -/
def handleMessage (server : InboundNatsServer M) (json : JsonLibrary) (parsers : Parsers) (id : EmailId)
    (msg : InboundMessage) : M Round :=
  match json.fromSlice SubmitEmailRequest.fromJson msg.payload with
  | .error _ => server.discard msg
  | .ok request =>
      match request.intoSubmitInput parsers with
      | .error _ => server.discard msg
      | .ok input => do
          let result ← server.submitEmail id input
          server.settle msg result

/-- One round of the loop of `run`, which a cancellation only leaves before a message is there. -/
def round (server : InboundNatsServer M) (json : JsonLibrary) (parsers : Parsers) (id : EmailId) : M Round := do
  match ← server.fetchOne with
  | .ok (some msg) => server.handleMessage json parsers id msg
  | .ok none => return .idle
  | .error _ => do
      let _ ← server.sleep
      return .idle

end InboundNatsServer

def submissionOf (json : JsonLibrary) (parsers : Parsers) (payload : List UInt8) : Option SubmitEmailInput :=
  match json.fromSlice SubmitEmailRequest.fromJson payload with
  | .error _ => none
  | .ok request => (request.intoSubmitInput parsers).toOption

namespace InboundNatsServer

variable {M : Type → Type} [Monad M] (server : InboundNatsServer M) (json : JsonLibrary) (parsers : Parsers)
  (id : EmailId) (msg : InboundMessage)

theorem handleMessage_eq :
    server.handleMessage json parsers id msg = match submissionOf json parsers msg.payload with
      | none => server.discard msg
      | some input => server.submitEmail id input >>= server.settle msg := by
  unfold handleMessage submissionOf
  cases json.fromSlice SubmitEmailRequest.fromJson msg.payload with
  | error e => rfl
  | ok request =>
      cases hr : request.intoSubmitInput parsers with
      | error e | ok input => simp only [hr, Except.toOption]

end InboundNatsServer

end Catapulte
