import Catapulte.Async.Pool
import Catapulte.Inbound.Nats

namespace Catapulte

open Async

inductive InboundCall
  | fetch
  | ack (seq : Nat)
  | nak (seq : Nat)
  | sleep (delay : Duration)

@[reducible] def InboundCall.Reply : InboundCall → Type
  | fetch => Except String (Option InboundMessage)
  | ack _ | nak _ => Except String Unit
  | sleep _ => Unit

@[reducible] def Inbound : Interface := ⟨InboundCall, InboundCall.Reply⟩

inductive InboundReply
  | ack (seq : Nat)
  | nak (seq : Nat)
  deriving DecidableEq

/-- A work queue stream and its consumer. `published` are the payloads of all messages so far, which
are numbered in this order; `buffer` is the outbound buffer of the client, oldest first. -/
structure InboundStream where
  published : List (List UInt8)
  messages : List InboundMessage
  buffer : List InboundReply
  deriving DecidableEq

namespace InboundStream

def empty : InboundStream := ⟨[], [], []⟩

/-- An acknowledged message leaves the stream; a `-NAK` only brings its next delivery forward. -/
def apply (messages : List InboundMessage) : InboundReply → List InboundMessage
  | .ack seq => messages.filter fun m => m.seq ≠ seq
  | .nak _ => messages

structure Choice where
  fails : Bool := false
  seq : Nat := 0

/-- A fetch may hand out any message of the stream: when the ack wait or the backoff of a delivery
has run out is left open. -/
def perform (w : InboundStream) : (op : InboundCall) → Choice → Option (InboundStream × op.Reply)
  | .fetch, c =>
      some (w, if c.fails then .error "fetching from NATS consumer"
        else .ok (w.messages.find? fun m => m.seq = c.seq))
  | .ack seq, c =>
      if c.fails then some (w, .error "publishing ack") else some ({ w with buffer := w.buffer ++ [.ack seq] }, .ok ())
  | .nak seq, c =>
      if c.fails then some (w, .error "publishing nak") else some ({ w with buffer := w.buffer ++ [.nak seq] }, .ok ())
  | .sleep _, _ => some (w, ())

inductive Drift
  | publish (payload : List UInt8)
  | transmit
  | lose (k : Nat)

/-- A producer publishes, the oldest answer reaches the server, or an answer is lost. -/
def drift (w : InboundStream) : Drift → Option InboundStream
  | .publish payload => some { w with
      published := w.published ++ [payload]
      messages := w.messages ++ [⟨w.published.length, payload⟩] }
  | .transmit =>
      match w.buffer with
      | [] => none
      | reply :: buffer => some { w with messages := apply w.messages reply, buffer }
  | .lose k => if k < w.buffer.length then some { w with buffer := w.buffer.eraseIdx k } else none

@[reducible] def machine : Machine Inbound InboundStream Choice Drift := ⟨perform, drift⟩

def Genuine (w : InboundStream) : Prop := ∀ m ∈ w.messages, w.published[m.seq]? = some m.payload

/-- A message that was published is in the stream, or its acknowledgement was sent. -/
def Accounted (w : InboundStream) (acked : Nat → Prop) : Prop :=
  (∀ seq payload, w.published[seq]? = some payload → ⟨seq, payload⟩ ∈ w.messages ∨ acked seq) ∧
    ∀ seq, .ack seq ∈ w.buffer → acked seq

theorem getElem?_snoc {α : Type} {l : List α} {x y : α} {k : Nat} :
    (l ++ [x])[k]? = some y ↔ l[k]? = some y ∨ k = l.length ∧ x = y := by
  rw [List.getElem?_append]
  split
  · rename_i hk
    simp [Nat.ne_of_lt hk]
  · rename_i hk
    rw [List.getElem?_singleton, List.getElem?_eq_none (Nat.not_lt.mp hk)]
    by_cases hkl : k = l.length
    · simp [hkl]
    · have hpos : k - l.length ≠ 0 := by omega
      simp [hkl, hpos]

theorem mem_of_apply {messages : List InboundMessage} {reply : InboundReply} {m : InboundMessage}
    (h : m ∈ apply messages reply) : m ∈ messages := by
  cases reply with
  | ack seq => exact (List.mem_filter.mp h).1
  | nak seq => exact h

theorem mem_apply_or {messages : List InboundMessage} {m : InboundMessage} (h : m ∈ messages) (reply : InboundReply) :
    m ∈ apply messages reply ∨ reply = .ack m.seq := by
  cases reply with
  | nak seq => exact .inl h
  | ack seq =>
      by_cases hm : m.seq = seq
      · exact .inr (congrArg _ hm.symm)
      · exact .inl (List.mem_filter.mpr ⟨h, decide_eq_true hm⟩)

section Steps

variable {w w' : InboundStream} {acked : Nat → Prop} {c : Choice} {op : InboundCall} {r : op.Reply} {e : Drift}

theorem published_perform (hp : w.perform op c = some (w', r)) : w'.published = w.published := by
  cases op with
  | fetch | sleep => cases hp; rfl
  | ack seq | nak seq =>
      simp only [InboundStream.perform] at hp
      split at hp <;> cases hp <;> rfl

theorem published_drift (hd : w.drift e = some w') : w.published <+: w'.published := by
  cases e with
  | publish payload => cases hd; exact List.prefix_append _ _
  | transmit | lose =>
      simp only [InboundStream.drift] at hd
      split at hd <;> cases hd
      exact List.prefix_rfl

theorem mem_of_fetch {m : InboundMessage} (hp : w.perform .fetch c = some (w', .ok (some m))) : m ∈ w.messages := by
  simp only [InboundStream.perform, Option.some.injEq, Prod.mk.injEq] at hp
  obtain ⟨-, hr⟩ := hp
  split at hr
  · cases hr
  · exact List.mem_of_find?_eq_some (Except.ok.inj hr)

theorem Genuine.perform (h : w.Genuine) (hp : w.perform op c = some (w', r)) : w'.Genuine := by
  cases op with
  | fetch | sleep => cases hp; exact h
  | ack seq | nak seq =>
      simp only [InboundStream.perform] at hp
      split at hp <;> cases hp <;> exact h

theorem Genuine.drift (h : w.Genuine) (hd : w.drift e = some w') : w'.Genuine := by
  cases e with
  | publish payload =>
      cases hd
      intro m hm
      rcases List.mem_append.mp hm with hm | hm
      · exact getElem?_snoc.mpr (.inl (h m hm))
      · obtain rfl := List.mem_singleton.mp hm
        exact getElem?_snoc.mpr (.inr ⟨rfl, rfl⟩)
  | transmit =>
      simp only [InboundStream.drift] at hd
      split at hd <;> cases hd
      exact fun m hm => h m (mem_of_apply hm)
  | lose k =>
      simp only [InboundStream.drift] at hd
      split at hd <;> cases hd
      exact h

theorem Accounted.mono {acked' : Nat → Prop} (h : w.Accounted acked) (ha : ∀ seq, acked seq → acked' seq) :
    w.Accounted acked' :=
  ⟨fun seq payload hs => (h.1 seq payload hs).imp_right (ha seq), fun seq hs => ha seq (h.2 seq hs)⟩

theorem Accounted.perform (h : w.Accounted acked) (hp : w.perform op c = some (w', r))
    (hack : ∀ seq, op = .ack seq → acked seq) : w'.Accounted acked := by
  cases op with
  | fetch | sleep => cases hp; exact h
  | ack seq =>
      simp only [InboundStream.perform] at hp
      split at hp <;> cases hp
      · exact h
      · refine ⟨h.1, fun seq' hs => ?_⟩
        rcases List.mem_append.mp hs with hs | hs
        · exact h.2 seq' hs
        · cases List.mem_singleton.mp hs
          exact hack seq rfl
  | nak seq =>
      simp only [InboundStream.perform] at hp
      split at hp <;> cases hp
      · exact h
      · refine ⟨h.1, fun seq' hs => ?_⟩
        rcases List.mem_append.mp hs with hs | hs
        · exact h.2 seq' hs
        · cases List.mem_singleton.mp hs

theorem Accounted.drift (h : w.Accounted acked) (hd : w.drift e = some w') : w'.Accounted acked := by
  cases e with
  | publish payload =>
      cases hd
      refine ⟨fun seq payload' hs => ?_, h.2⟩
      rcases getElem?_snoc.mp hs with hs | ⟨rfl, rfl⟩
      · exact (h.1 seq payload' hs).imp_left fun hm => List.mem_append_left _ hm
      · exact .inl (List.mem_append_right _ List.mem_cons_self)
  | transmit =>
      simp only [InboundStream.drift] at hd
      split at hd <;> cases hd
      rename_i reply buffer hb
      refine ⟨fun seq payload hs => ?_, fun seq hs => h.2 seq (hb ▸ List.mem_cons_of_mem _ hs)⟩
      rcases h.1 seq payload hs with hm | ha
      · rcases mem_apply_or hm reply with hm | rfl
        · exact .inl hm
        · exact .inr (h.2 seq (hb ▸ List.mem_cons_self))
      · exact .inr ha
  | lose k =>
      simp only [InboundStream.drift] at hd
      split at hd <;> cases hd
      exact ⟨h.1, fun seq hs => h.2 seq (List.mem_of_mem_eraseIdx hs)⟩

end Steps

end InboundStream

end Catapulte
