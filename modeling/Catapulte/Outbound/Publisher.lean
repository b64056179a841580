import Catapulte.Async.Congruence
import Catapulte.Storage.Adapters

namespace Catapulte

open Async

def Duration.fromMillis (ms : Nat) : Duration := ⟨ms * 1000000⟩

inductive WebhookCall
  | sleep (delay : Duration)
  | post (url : Url) (body : Json)

/-- A response is its status. -/
@[reducible] def WebhookCall.Reply : WebhookCall → Type
  | sleep _ => Unit
  | post .. => Except String Nat

@[reducible] def Webhook : Interface := ⟨WebhookCall, WebhookCall.Reply⟩

def eventToJson (showUuid : EmailId → String) (event : LifecycleEvent) : Json :=
  .object [("event_type", .string event.eventType), ("email_id", .string (showUuid event.emailId)),
    ("payload", event.payload)]

/-- `error_for_status`, after the request itself. -/
def webhookResult : Except String Nat → Except String Unit
  | .error _ => .error "sending webhook request"
  | .ok status => if 400 ≤ status ∧ status < 600 then .error "webhook returned error status" else .ok ()

structure WebhookPublisher where
  url : Url
  deriving DecidableEq

namespace WebhookPublisher

abbrev ask (op : WebhookCall) : Program Webhook op.Reply := @Program.call Webhook op

def pause (attempt : Nat) (delay : Duration) : Program Webhook Duration :=
  if 0 < attempt then do
    let _ ← ask (.sleep delay)
    return .fromMillis 500
  else return delay

/-- The loop over the attempts. There is one, so there is a last error when it is left. -/
def deliver (w : WebhookPublisher) (body : Json) : List Nat → Duration → Option String →
    Program Webhook (Except EventPublisherError Unit)
  | [], _, lastErr => return .error (.publish (lastErr.getD ""))
  | attempt :: attempts, delay, _ => do
      let delay ← pause attempt delay
      match webhookResult (← ask (.post w.url body)) with
      | .ok () => return .ok ()
      | .error e => w.deliver body attempts delay (some e)

def publish (w : WebhookPublisher) (showUuid : EmailId → String) (event : LifecycleEvent) :
    Program Webhook (Except EventPublisherError Unit) :=
  w.deliver (eventToJson showUuid event) (List.range 3) (.fromMillis 100) none

end WebhookPublisher

inductive NatsCall
  | publish (subject : String) (body : Json)

@[reducible] def NatsCall.Reply : NatsCall → Type
  | publish .. => Except String Unit

@[reducible] def NatsClient : Interface := ⟨NatsCall, NatsCall.Reply⟩

structure NatsEventPublisher where
  subject : String
  deriving DecidableEq

def NatsEventPublisher.publish (n : NatsEventPublisher) (showUuid : EmailId → String) (event : LifecycleEvent) :
    Program NatsClient (Except EventPublisherError Unit) := do
  match ← @Program.call NatsClient (.publish n.subject (eventToJson showUuid event)) with
  | .error _ => return .error (.publish "publishing event to NATS")
  | .ok () => return .ok ()

inductive PublisherAdapter
  | storage
  | storageWebhook (w : WebhookPublisher)
  | storageNats (n : NatsEventPublisher)
  | storageBoth (w : WebhookPublisher) (n : NatsEventPublisher)
  deriving DecidableEq

abbrev Sinks : Interface := Webhook.beside NatsClient

/-- The sinks are polled beside the storage; only its result is returned. -/
def PublisherAdapter.publish (showUuid : EmailId → String) (K : Interface) :
    PublisherAdapter → LifecycleEvent → Program (Sys.beside (Sinks.beside K)) (Except EventPublisherError Unit)
  | storage, event => (Catapulte.publish event).left _
  | storageWebhook w, event => do
      let (sr, _) ← (Catapulte.publish event).join (((w.publish showUuid event).left NatsClient).left K)
      return sr
  | storageNats n, event => do
      let (sr, _) ← (Catapulte.publish event).join (((n.publish showUuid event).right Webhook).left K)
      return sr
  | storageBoth w n, event => do
      let (sr, _, _) ← (Catapulte.publish event).join
        (((w.publish showUuid event).join (n.publish showUuid event)).left K)
      return sr

theorem PublisherAdapter.erases_publish {showUuid : EmailId → String} {K : Interface} (p : PublisherAdapter)
    (event : LifecycleEvent) : (p.publish showUuid K event).Erases Eq (Catapulte.publish event) := by
  have hfirst {α β : Type} {x : Program Sys α} {y : Program (Sinks.beside K) β} :
      ((x.join y) >>= fun r => Program.done r.1).Erases Eq x :=
    (Program.erases_join x y).map Prod.fst fun _ _ h => h
  cases p with
  | storage => exact Program.erases_left _
  | storageWebhook w => exact hfirst
  | storageNats n => exact hfirst
  | storageBoth w n => exact hfirst

end Catapulte
