import Mathlib.Data.List.Nodup
import Mathlib.Data.List.Perm.Basic
import Catapulte.Async.History
import Catapulte.Queue.Jetstream
import Catapulte.Session.Only

namespace Catapulte.Nats

open Async

variable {ι : Type} {maxDeliver : Int} {w w' w'' : World} {calls : List (ι × Call Client World)} {token seq : Nat}
  {frame : Frame} {i : ι}

def Acked (token : Nat) : Call Client World → Prop
  | ⟨_, .reply t .ack, .ok (), _⟩ => t = token
  | _ => False

def Handed (token : Nat) : Call Client World → Prop
  | ⟨_, .fetch, .ok (some item), _⟩ => item.token = token
  | _ => False

instance : DecidablePred (Acked token)
  | ⟨_, .reply t .ack, .ok (), _⟩ => inferInstanceAs (Decidable (t = token))
  | ⟨_, .reply _ .ack, .error _, _⟩ | ⟨_, .reply _ (.nak _), _, _⟩ | ⟨_, .publish .., _, _⟩ | ⟨_, .fetch, _, _⟩
  | ⟨_, .rest _, _, _⟩ => isFalse fun h => h

def Frame.seq? : Frame → Option Nat
  | message seq .. => some seq
  | reply .. => none

namespace World

def pendingSeqs (w : World) : List Nat := w.buffer.filterMap Frame.seq?

def seqs (w : World) : List Nat := w.stream.map Message.seq ++ w.pendingSeqs

def push (w : World) (frame : Frame) : World := { w with buffer := w.buffer ++ [frame] }

@[simp] theorem push_stream : (w.push frame).stream = w.stream := rfl

@[simp] theorem push_published : (w.push frame).published = w.published := rfl

@[simp] theorem push_message_pendingSeqs {id : EmailId} {envelope : Envelope} :
    (w.push (.message seq id envelope)).pendingSeqs = w.pendingSeqs ++ [seq] := by
  simp [pendingSeqs, push, Frame.seq?]

@[simp] theorem push_reply_pendingSeqs {kind : AckKind} :
    (w.push (.reply token kind)).pendingSeqs = w.pendingSeqs := by
  simp [pendingSeqs, push, Frame.seq?]

@[simp] theorem deliver_pendingSeqs : (w.deliver seq).pendingSeqs = w.pendingSeqs := rfl

theorem mem_deliver {m : Message} (h : m ∈ (w.deliver seq).stream) :
    ∃ m' ∈ w.stream, m'.seq = m.seq ∧ m.delivered = m'.delivered + if m.seq = seq then 1 else 0 := by
  obtain ⟨m', hm', rfl⟩ := List.mem_map.mp h
  refine ⟨m', hm', ?_⟩
  split <;> simp [*]

theorem deliver_mem {m : Message} (h : m ∈ w.stream) : ∃ m' ∈ (w.deliver seq).stream, m'.seq = m.seq := by
  refine ⟨_, List.mem_map_of_mem h, ?_⟩
  split <;> rfl

@[simp] theorem deliver_seqs : (w.deliver seq).seqs = w.seqs := by
  have hmap : (w.deliver seq).stream.map Message.seq = w.stream.map Message.seq := by
    rw [deliver_stream, List.map_map]
    refine List.map_congr_left fun m _ => ?_
    simp only [Function.comp_apply]
    split <;> rfl
  rw [seqs, hmap, deliver_pendingSeqs, seqs]

def AckPending (w : World) (token : Nat) : Prop := .reply token .ack ∈ w.buffer

/-- No message with this number is in the stream, or it will leave it. -/
def Settled (w : World) (token : Nat) : Prop := w.AckPending token ∨ ∀ m ∈ w.stream, m.seq ≠ token

@[simp] theorem ackPending_deliver : (w.deliver seq).AckPending token ↔ w.AckPending token := Iff.rfl

@[simp] theorem ackPending_push_message {id : EmailId} {envelope : Envelope} :
    (w.push (.message seq id envelope)).AckPending token ↔ w.AckPending token := by
  simp [AckPending, push]

@[simp] theorem ackPending_push_nak {t delayNs : Nat} :
    (w.push (.reply t (.nak delayNs))).AckPending token ↔ w.AckPending token := by
  simp [AckPending, push]

@[simp] theorem ackPending_push_ack {t : Nat} :
    (w.push (.reply t .ack)).AckPending token ↔ w.AckPending token ∨ token = t := by
  simp [AckPending, push]

theorem settled_deliver : (w.deliver seq).Settled token ↔ w.Settled token := by
  refine or_congr Iff.rfl ⟨fun h m hm => ?_, fun h m hm => ?_⟩
  · obtain ⟨m', hm', hseq⟩ : ∃ m' ∈ (w.deliver seq).stream, m'.seq = m.seq := deliver_mem hm
    exact hseq ▸ h m' hm'
  · obtain ⟨m', hm', hseq, -⟩ := mem_deliver hm
    exact hseq ▸ h m' hm'

end World

open Catapulte.Nats.World

/-- Some frames of the buffer reached the server, or were lost. -/
structure Sends (w w' : World) : Prop where
  seqs : w'.seqs.Sublist w.seqs
  pending : w'.pendingSeqs.Sublist w.pendingSeqs
  published : w'.published = w.published
  arrived : ∀ m ∈ w'.stream, m ∈ w.stream ∨ m.seq ∈ w.pendingSeqs ∧ m.delivered = 0
  kept : ∀ m ∈ w.stream, m ∈ w'.stream ∨ w.AckPending m.seq
  acks : ∀ token, w'.AckPending token → w.AckPending token

def Settles (w w' : World) : Prop := ∀ token, token ∉ w.pendingSeqs → w.Settled token → w'.Settled token

theorem Sends.refl (w : World) : Sends w w :=
  ⟨List.Sublist.refl _, List.Sublist.refl _, rfl, fun _ h => .inl h, fun _ h => .inl h, fun _ h => h⟩

theorem Sends.trans (h : Sends w w') (h' : Sends w' w'') : Sends w w'' where
  seqs := h'.seqs.trans h.seqs
  pending := h'.pending.trans h.pending
  published := h'.published.trans h.published
  arrived m hm := (h'.arrived m hm).elim (h.arrived m) fun hp => .inr ⟨h.pending.subset hp.1, hp.2⟩
  kept m hm := (h.kept m hm).elim (fun hk => (h'.kept m hk).imp_right (h.acks _)) .inr
  acks token ht := h.acks token (h'.acks token ht)

theorem Settles.trans (hs : Sends w w') (h : Settles w w') (h' : Settles w' w'') : Settles w w'' :=
  fun token hp ht => h' token (fun hp' => hp (hs.pending.subset hp')) (h token hp ht)

theorem transmit_sends {buffer : List Frame} (hb : w.buffer = frame :: buffer) :
    Sends w { w with stream := frame.apply w.stream, buffer } := by
  obtain ⟨stream, _, published, rest⟩ := w
  cases hb
  cases frame with
  | message seq id envelope =>
      refine ⟨?_, List.sublist_cons_self _ _, rfl, fun m hm => ?_, fun m hm => .inl (List.mem_append_left _ hm),
        fun token ht => List.mem_cons_of_mem _ ht⟩
      · simp [seqs, pendingSeqs, Frame.apply, Frame.seq?]
      · rcases List.mem_append.mp hm with hm | hm
        · exact .inl hm
        · cases List.mem_singleton.mp hm
          exact .inr ⟨List.mem_cons_self, rfl⟩
  | reply token kind =>
      cases kind with
      | ack =>
          refine ⟨List.Sublist.append_right (List.filter_sublist.map _) _, List.Sublist.refl _, rfl,
            fun m hm => .inl (List.mem_filter.mp hm).1, fun m hm => ?_, fun token ht => List.mem_cons_of_mem _ ht⟩
          by_cases hseq : m.seq = token
          · exact .inr (hseq ▸ List.mem_cons_self)
          · exact .inl (List.mem_filter.mpr ⟨hm, by simpa using hseq⟩)
      | nak =>
          exact ⟨List.Sublist.refl _, List.Sublist.refl _, rfl, fun _ hm => .inl hm, fun _ hm => .inl hm,
            fun token ht => List.mem_cons_of_mem _ ht⟩

theorem transmit_settles {buffer : List Frame} (hb : w.buffer = frame :: buffer) :
    Settles w { w with stream := frame.apply w.stream, buffer } := by
  obtain ⟨stream, _, published, rest⟩ := w
  cases hb
  intro token hp ht
  cases frame with
  | message seq id envelope =>
      rcases ht with ht | ht
      · exact .inl ((List.mem_cons.mp ht).resolve_left nofun)
      · refine .inr fun m hm => ?_
        rcases List.mem_append.mp hm with hm | hm
        · exact ht m hm
        · cases List.mem_singleton.mp hm
          rintro rfl
          exact hp List.mem_cons_self
  | reply t kind =>
      cases kind with
      | ack =>
          by_cases heq : token = t
          · subst heq
            exact .inr fun m hm => by simpa using (List.mem_filter.mp hm).2
          · rcases ht with ht | ht
            · refine .inl ((List.mem_cons.mp ht).resolve_left ?_)
              rintro ⟨⟩
              exact heq rfl
            · exact .inr fun m hm => ht m (List.mem_filter.mp hm).1
      | nak =>
          rcases ht with ht | ht
          · exact .inl ((List.mem_cons.mp ht).resolve_left nofun)
          · exact .inr ht

theorem flush_sends (w : World) : Sends w w.flush ∧ Settles w w.flush := by
  obtain ⟨stream, buffer, published, rest⟩ := w
  induction buffer generalizing stream with
  | nil => exact ⟨.refl _, fun _ _ h => h⟩
  | cons frame buffer ih =>
      have hs := transmit_sends (w := ⟨stream, frame :: buffer, published, rest⟩) rfl
      exact ⟨hs.trans (ih (frame.apply stream)).1,
        (transmit_settles (w := ⟨stream, frame :: buffer, published, rest⟩) rfl).trans hs (ih (frame.apply stream)).2⟩

theorem send_sends (w : World) (frame : Frame) (flushed : Bool) :
    Sends (w.push frame) (w.send frame flushed) ∧ Settles (w.push frame) (w.send frame flushed) := by
  cases flushed with
  | true => exact flush_sends (w.push frame)
  | false => exact ⟨.refl _, fun _ _ h => h⟩

theorem lose_sends (w : World) (k : Nat) : Sends w { w with buffer := w.buffer.eraseIdx k } := by
  have hsub : (w.buffer.eraseIdx k).Sublist w.buffer := List.eraseIdx_sublist _ _
  exact ⟨List.Sublist.append_left (hsub.filterMap _) _, hsub.filterMap _, rfl, fun _ hm => .inl hm,
    fun _ hm => .inl hm, fun _ ht => hsub.subset ht⟩

theorem lose_settled {k : Nat} (hk : w.buffer[k]? ≠ some (.reply token .ack)) (h : w.Settled token) :
    World.Settled { w with buffer := w.buffer.eraseIdx k } token := by
  refine h.imp_left fun hp => ?_
  obtain ⟨n, hn, heq⟩ := List.getElem_of_mem hp
  refine List.mem_eraseIdx_iff_getElem?.mpr ⟨n, ?_, by rw [List.getElem?_eq_getElem hn, heq]⟩
  rintro rfl
  exact hk (by rw [List.getElem?_eq_getElem hn, heq])

/-- No two messages have one number, and a message that was handed out has arrived. -/
structure Numbering (w : World) (calls : List (ι × Call Client World)) : Prop where
  nodup : w.seqs.Nodup
  below : ∀ seq ∈ w.seqs, seq < w.published
  handed : ∀ token, Seen (Handed token) calls → token < w.published ∧ token ∉ w.pendingSeqs

namespace Numbering

theorem start : Numbering World.empty ([] : List (ι × Call Client World)) :=
  ⟨List.nodup_nil, nofun, fun _ h => absurd h seen_nil⟩

theorem unique (h : Numbering w calls) {m m' : Message} (hm : m ∈ w.stream) (hm' : m' ∈ w.stream)
    (heq : m.seq = m'.seq) : m = m' :=
  List.inj_on_of_nodup_map h.nodup.of_append_left hm hm' heq

theorem not_pending (h : Numbering w calls) {m : Message} (hm : m ∈ w.stream) : m.seq ∉ w.pendingSeqs :=
  fun hp => List.disjoint_of_nodup_append h.nodup (List.mem_map_of_mem hm) hp

theorem sends (h : Numbering w calls) (hs : Sends w w') : Numbering w' calls :=
  ⟨h.nodup.sublist hs.seqs, fun seq hq => hs.published ▸ h.below seq (hs.seqs.subset hq),
    fun token ht => ⟨hs.published ▸ (h.handed token ht).1, fun hp => (h.handed token ht).2 (hs.pending.subset hp)⟩⟩

theorem other {c : Call Client World} (h : Numbering w calls) (hc : ∀ token, ¬ Handed token c) :
    Numbering w (calls ++ [(i, c)]) :=
  ⟨h.nodup, h.below, fun token ht => h.handed token ((seen_snoc.mp ht).resolve_right (hc token))⟩

theorem publish {id : EmailId} {envelope : Envelope} (h : Numbering w calls) :
    Numbering ({ w with published := w.published + 1 }.push (.message w.published id envelope)) calls := by
  have hseqs : ({ w with published := w.published + 1 }.push (.message w.published id envelope)).seqs =
      w.seqs ++ [w.published] := by
    rw [seqs, push_message_pendingSeqs, ← List.append_assoc]
    rfl
  refine ⟨?_, fun seq hq => ?_, fun token ht => ⟨Nat.lt_succ_of_lt (h.handed token ht).1, fun hp => ?_⟩⟩
  · rw [hseqs]
    refine List.nodup_append.mpr ⟨h.nodup, List.nodup_singleton _, fun x hx y hy => ?_⟩
    cases List.mem_singleton.mp hy
    exact Nat.ne_of_lt (h.below x hx)
  · rw [hseqs, List.mem_append, List.mem_singleton] at hq
    rcases hq with hq | rfl
    · exact Nat.lt_succ_of_lt (h.below seq hq)
    · exact Nat.lt_succ_self _
  · rw [push_message_pendingSeqs, List.mem_append, List.mem_singleton] at hp
    rcases hp with hp | rfl
    · exact (h.handed token ht).2 hp
    · exact Nat.lt_irrefl _ (h.handed _ ht).1

theorem reply {kind : AckKind} (h : Numbering w calls) : Numbering (w.push (.reply token kind)) calls := by
  have hseqs : (w.push (.reply token kind)).seqs = w.seqs := by
    rw [seqs, push_reply_pendingSeqs]
    rfl
  exact ⟨hseqs ▸ h.nodup, hseqs ▸ h.below, by simpa using h.handed⟩

theorem deliver (h : Numbering w calls) : Numbering (w.deliver seq) calls :=
  ⟨by simpa using h.nodup, by simpa using h.below, h.handed⟩

theorem fetch {m : Message} {heard : Bool} (h : Numbering w calls) (hm : m ∈ w.stream) :
    Numbering (w.deliver m.seq) (calls ++ [(i, ⟨w, .fetch, .ok (some m.item), heard⟩)]) := by
  refine ⟨h.deliver.nodup, h.deliver.below, fun token ht => ?_⟩
  rcases seen_snoc.mp ht with ht | rfl
  · exact h.handed token ht
  · exact ⟨h.below _ (List.mem_append_left _ (List.mem_map_of_mem hm)), h.not_pending hm⟩

theorem elsewhere {rest : Catapulte.World} (h : Numbering w calls) : Numbering { w with rest } calls :=
  ⟨h.nodup, h.below, h.handed⟩

end Numbering

/-- What a call does to the messages. -/
inductive Effects (maxDeliver : Int) (w : World) : (op : Op) → Choice → World → op.Reply → Prop
  | refused {op c r} (hack : ∀ heard token, ¬ Acked token ⟨w, op, r, heard⟩)
      (hhanded : ∀ heard token, ¬ Handed token ⟨w, op, r, heard⟩) : Effects maxDeliver w op c w r
  | published {id envelope c} : Effects maxDeliver w (.publish id envelope) c
      (({ w with published := w.published + 1 }).send (.message w.published id envelope) c.flushed) (.ok ())
  | replied {token kind c} (hf : c.fails = false) :
      Effects maxDeliver w (.reply token kind) c (w.send (.reply token kind) c.flushed) (.ok ())
  | wasted {m c e} (hm : m ∈ w.stream) (hd : m.deliverable maxDeliver = true) (hc : m.seq = c.seq)
      (hf : c.fails = true) (hl : c.lands = true) :
      Effects maxDeliver w .fetch c (w.deliver m.seq) (.error e)
  | fetched {m c} (hm : m ∈ w.stream) (hd : m.deliverable maxDeliver = true) (hc : m.seq = c.seq) :
      Effects maxDeliver w .fetch c (w.deliver m.seq) (.ok (some m.item))
  | elsewhere {op c rest r} : Effects maxDeliver w (.rest op) c { w with rest } r

theorem effects {op : Op} {c : Choice} {r : op.Reply} (h : perform maxDeliver w op c = some (w', r)) :
    Effects maxDeliver w op c w' r := by
  cases op with
  | publish id envelope =>
      simp only [perform] at h
      split at h
      · cases h
        exact .refused (fun _ _ h => h) fun _ _ h => h
      · cases h
        exact .published
  | reply token kind =>
      simp only [perform] at h
      split at h
      · cases h
        exact .refused (fun _ _ => by cases kind <;> exact fun h => h) fun _ _ h => h
      · cases h
        exact .replied (Bool.eq_false_iff.mpr ‹_›)
  | fetch =>
      simp only [perform] at h
      split at h
      · cases h
        exact .refused (fun _ _ h => h) fun _ _ => by split <;> exact fun h => h
      · rename_i m hfind
        have hm := List.mem_of_find?_eq_some hfind
        have hseq := List.find?_some hfind
        simp only [Bool.and_eq_true, decide_eq_true_eq] at hseq
        split at h
        · rename_i hf
          cases h
          split
          · exact .wasted hm hseq.2 hseq.1 hf ‹_›
          · exact .refused (fun _ _ h => h) fun _ _ h => h
        · cases h
          exact .fetched hm hseq.2 hseq.1
  | rest op =>
      simp only [perform, Option.map_eq_some_iff] at h
      obtain ⟨⟨rest, r⟩, -, heq⟩ := h
      cases heq
      exact .elsewhere

def Silent : Effect → Prop
  | .insertEvent .. | .process _ => False
  | _ => True

theorem lift_only {α : Type} {P : Op → Prop} {p : Catapulte.Prog α} (h : p.Only fun op => P (.rest op)) :
    (lift p).Only P := by
  induction p with
  | done => trivial
  | await op next ih => exact ⟨h.1, fun r => ih r (h.2 r)⟩

section Services

variable {a : StorageAdapter} {P : Op → Prop}

theorem save_only {id : EmailId} {envelope : Envelope} : (a.emailRepository.save id envelope).Only Silent := by
  have hresult : ∀ r, (saveResult id envelope r).Only Silent := by
    rintro (e | affected)
    · trivial
    · simp only [saveResult]
      split
      · trivial
      · cases envelope.idempotencyKey with
        | none => trivial
        | some key => exact ⟨trivial, by rintro (e | existing) <;> trivial⟩
  cases a with
  | sqlite | postgres => exact ⟨trivial, hresult⟩

theorem setAttachments_only {id : EmailId} {refs : List AttachmentRef} :
    (a.emailRepository.setAttachments id refs).Only Silent := by
  cases a with
  | sqlite | postgres => exact ⟨trivial, fun _ => trivial⟩

theorem delete_only {id : EmailId} : (a.emailRepository.delete id).Only Silent := by
  cases a with
  | sqlite | postgres => exact ⟨trivial, fun _ => trivial⟩

theorem publish_only {event : LifecycleEvent} (h : ∀ op, Silent op → P (.rest op))
    (hevent : ∀ uuid, P (.rest (.insertEvent uuid event))) : (eventPublisher.publish event).Only P :=
  ⟨h _ trivial, fun uuid => ⟨hevent uuid, fun _ => trivial⟩⟩

theorem submitEmail_only (h : ∀ op, Silent op → P (.rest op)) (henqueue : ∀ id envelope, P (.publish id envelope))
    (hevent : ∀ uuid id correlationId, P (.rest (.insertEvent uuid (.queued id correlationId)))) :
    (submitEmail a).Only P where
  save _ _ := lift_only (save_only.mono h)
  setAttachments _ _ := lift_only (setAttachments_only.mono h)
  delete _ := lift_only (delete_only.mono h)
  enqueue _ _ := ⟨henqueue _ _, fun _ => trivial⟩
  publish _ _ := publish_only h fun _ => hevent _ _ _
  put _ := ⟨h _ trivial, fun _ => trivial⟩
  deleteBlob _ := ⟨h _ trivial, fun _ => trivial⟩
  fetch _ := ⟨h _ trivial, fun _ => trivial⟩

end Services

/-- One submission; the other jobs are turns of the worker. -/
def oneEmail (k : Nat) : Job := if k = 0 then .submit ⟨1⟩ (plainSubmission none []) else .turn

/-- The enqueue is the second call of the submission. -/
def submitting (flushed : Bool) : List (Action Nat Choice Drift) :=
  [.step 0 { flushed }, .step 0 { flushed }, .step 0 { flushed, rest := { uuid := 1 } }, .step 0 { flushed }]

/-- The fetch, the Sending event, the use case, and the ack or the nack. -/
def delivering (k : Nat) (flushed : Bool) (result : Except ProcessQueuedEmailError SenderName) :
    List (Action Nat Choice Drift) :=
  [.step k { flushed }, .step k { flushed, rest := { uuid := k + 1 } }, .step k { flushed },
    .step k { flushed, rest := { result } }, .step k { flushed }]

end Catapulte.Nats
