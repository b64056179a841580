import Catapulte.Queue.Wire

namespace Catapulte.Nats

open Async Catapulte.Nats.World

variable {ι : Type} {maxDeliver : Int} {a : StorageAdapter} {jobs : ι → Job} {s s' : System ι}
  {w w' : World} {calls : List (ι × Call Client World)} {token seq : Nat} {i j : ι}

/-- The enqueue of the message with this number returned `Ok` to its caller. -/
def Enqueued (seq : Nat) : Call Client World → Prop
  | ⟨before, .publish .., .ok (), heard⟩ => heard = true ∧ before.published = seq
  | _ => False

/-- The acknowledgement of the message returned `Ok` to its caller. -/
def AckReturned (token : Nat) (c : Call Client World) : Prop := Acked token c ∧ c.heard = true

/-- Every message whose enqueue returned `Ok` is in the stream until it is
acknowledged. -/
def Stored (s : System ι) : Prop :=
  ∀ seq, Seen (Enqueued seq) s.calls → (∃ m ∈ s.world.stream, m.seq = seq) ∨ Seen (Acked seq) s.calls

/-- No message is handed out after an acknowledgement of it has returned `Ok`. -/
def Final (calls : List (ι × Call Client World)) : Prop :=
  ∀ pre x post token, calls = pre ++ x :: post → AckReturned token x.2 → ∀ y ∈ post, ¬ Handed token y.2

/-- An acknowledgement that has returned `Ok` is still in the buffer. -/
def Underway (s : System ι) (token : Nat) : Prop := s.world.AckPending token ∧ Seen (AckReturned token) s.calls

/-- The call puts its message into the stream before it returns, and hands out no
message whose acknowledgement is under way. -/
def Prompt (s : System ι) : Op → Choice → Prop
  | .publish .., c => c.fails = false → c.flushed = true
  | .fetch, c => ¬ Underway s c.seq
  | _, _ => True

/-- The calls are prompt, and no acknowledgement that is under way is lost. -/
def Taken (s : System ι) : Act ι → Prop
  | .step i c => ∀ op next, s.task i = some (.await op next) → Prompt s op c
  | .abandon i (some c) => ∀ next, s.task i = some (.await .fetch next) → ¬ Underway s c.seq
  | .drift (.lose k) => ∀ token, s.world.buffer[k]? = some (.reply token .ack) → ¬ Underway s token
  | _ => True

/-- How the stream and the buffer agree with the calls made so far. -/
structure Ledger (w : World) (calls : List (ι × Call Client World)) : Prop where
  numbering : Numbering w calls
  acked : ∀ token, w.AckPending token → Seen (Acked token) calls
  ackedHanded : ∀ token, Seen (Acked token) calls → Seen (Handed token) calls
  stored : ∀ seq, Seen (Enqueued seq) calls → (∃ m ∈ w.stream, m.seq = seq) ∨ Seen (Acked seq) calls
  gone : ∀ token, Seen (AckReturned token) calls → w.Settled token

namespace Ledger

theorem start : Ledger World.empty ([] : List (ι × Call Client World)) :=
  ⟨.start, nofun, fun _ h => absurd h seen_nil, fun _ h => absurd h seen_nil, fun _ h => absurd h seen_nil⟩

theorem sends (h : Ledger w calls) (hs : Sends w w')
    (hsettled : ∀ token, Seen (AckReturned token) calls → w.Settled token → w'.Settled token) : Ledger w' calls := by
  refine ⟨h.numbering.sends hs, fun t ht => h.acked t (hs.acks t ht), h.ackedHanded, fun x hx => ?_,
    fun t ht => hsettled t ht (h.gone t ht)⟩
  rcases h.stored x hx with ⟨m, hm, rfl⟩ | hx
  · exact (hs.kept m hm).imp (fun hm => ⟨m, hm, rfl⟩) (h.acked m.seq)
  · exact .inr hx

theorem arrives (h : Ledger w calls) (hs : Sends w w' ∧ Settles w w') : Ledger w' calls := by
  refine h.sends hs.1 fun token ht => hs.2 token (h.numbering.handed token (h.ackedHanded token ?_)).2
  exact ht.imp fun _ hd => hd.mono fun _ hc => hc.1

theorem elsewhere {rest : Catapulte.World} (h : Ledger w calls) : Ledger { w with rest } calls :=
  ⟨h.numbering.elsewhere, h.acked, h.ackedHanded, h.stored, h.gone⟩

theorem other {c : Call Client World} (h : Ledger w calls) (he : ∀ seq, ¬ Enqueued seq c)
    (ha : ∀ token, ¬ Acked token c) (hh : ∀ token, ¬ Handed token c) : Ledger w (calls ++ [(i, c)]) := by
  have hreturned : ∀ token, ¬ AckReturned token c := fun token hr => ha token hr.1
  refine ⟨h.numbering.other hh, fun t ht => (h.acked t ht).append _, fun t ht => ?_, fun x hx => ?_, fun t ht => ?_⟩
  · exact (h.ackedHanded t ((seen_snoc.mp ht).resolve_right (ha t))).append _
  · exact (h.stored x ((seen_snoc.mp hx).resolve_right (he x))).imp_right fun hs => hs.append _
  · exact h.gone t ((seen_snoc.mp ht).resolve_right (hreturned t))

theorem publish {id : EmailId} {envelope : Envelope} {flushed heard : Bool} (h : Ledger w calls)
    (hf : heard = true → flushed = true) :
    Ledger (({ w with published := w.published + 1 }).send (.message w.published id envelope) flushed)
      (calls ++ [(i, ⟨w, .publish id envelope, .ok (), heard⟩)]) := by
  have hpushed : Ledger ({ w with published := w.published + 1 }.push (.message w.published id envelope)) calls := by
    refine ⟨h.numbering.publish, fun t ht => ?_, h.ackedHanded, h.stored, fun t ht => (h.gone t ht).imp_left ?_⟩
    · exact h.acked t (ackPending_push_message.mp ht)
    · exact fun hp => ackPending_push_message.mpr hp
  have hsent := hpushed.arrives (send_sends _ _ flushed)
  have hstored : ∀ {seq}, Enqueued seq ⟨w, .publish id envelope, .ok (), heard⟩ →
      ∃ m ∈ (({ w with published := w.published + 1 }).send (.message w.published id envelope) flushed).stream,
        m.seq = seq := by
    rintro seq ⟨hheard, rfl⟩
    rw [hf hheard]
    refine ⟨⟨w.published, id, envelope, 0⟩, ?_, rfl⟩
    simp [World.send, World.flush, Frame.apply]
  refine ⟨hsent.numbering.other fun _ h => h, fun t ht => (hsent.acked t ht).append _, fun t ht => ?_,
    fun x hx => ?_, fun t ht => ?_⟩
  · exact (hsent.ackedHanded t ((seen_snoc.mp ht).resolve_right fun h => h)).append _
  · rcases seen_snoc.mp hx with hx | hx
    · exact (hsent.stored x hx).imp_right fun hs => hs.append _
    · exact .inl (hstored hx)
  · exact hsent.gone t ((seen_snoc.mp ht).resolve_right And.left)

theorem ack {flushed heard : Bool} (h : Ledger w calls) (hh : Seen (Handed token) calls) :
    Ledger (w.send (.reply token .ack) flushed) (calls ++ [(i, ⟨w, .reply token .ack, .ok (), heard⟩)]) := by
  have hpushed : Ledger (w.push (.reply token .ack)) (calls ++ [(i, ⟨w, .reply token .ack, .ok (), heard⟩)]) := by
    refine ⟨h.numbering.reply.other fun _ h => h, fun t ht => ?_, fun t ht => ?_, fun x hx => ?_, fun t ht => ?_⟩
    · exact seen_snoc.mpr ((ackPending_push_ack.mp ht).imp (h.acked t) Eq.symm)
    · rcases seen_snoc.mp ht with ht | rfl
      · exact (h.ackedHanded t ht).append _
      · exact hh.append _
    · exact (h.stored x ((seen_snoc.mp hx).resolve_right fun h => h)).imp_right fun hs => hs.append _
    · rcases seen_snoc.mp ht with ht | ht
      · exact (h.gone t ht).imp_left fun hp => ackPending_push_ack.mpr (.inl hp)
      · exact .inl (ackPending_push_ack.mpr (.inr ht.1.symm))
  exact hpushed.arrives (send_sends _ _ _)

theorem nak {delayNs : Nat} {flushed heard : Bool} (h : Ledger w calls) :
    Ledger (w.send (.reply token (.nak delayNs)) flushed)
      (calls ++ [(i, ⟨w, .reply token (.nak delayNs), .ok (), heard⟩)]) := by
  have hpushed : Ledger (w.push (.reply token (.nak delayNs))) calls :=
    ⟨h.numbering.reply, fun t ht => h.acked t (ackPending_push_nak.mp ht), h.ackedHanded, h.stored,
      fun t ht => (h.gone t ht).imp_left ackPending_push_nak.mpr⟩
  exact (hpushed.arrives (send_sends _ _ _)).other (fun _ h => h) (fun _ h => h) fun _ h => h

theorem deliver (h : Ledger w calls) : Ledger (w.deliver seq) calls := by
  refine ⟨h.numbering.deliver, h.acked, h.ackedHanded, fun x hx => (h.stored x hx).imp_left ?_,
    fun t ht => settled_deliver.mpr (h.gone t ht)⟩
  rintro ⟨m, hm, rfl⟩
  exact deliver_mem hm

theorem fetch {m : Message} {heard : Bool} (h : Ledger w calls) (hm : m ∈ w.stream) :
    Ledger (w.deliver m.seq) (calls ++ [(i, ⟨w, .fetch, .ok (some m.item), heard⟩)]) := by
  have hd : Ledger (w.deliver m.seq) calls := h.deliver
  refine ⟨h.numbering.fetch hm, fun t ht => (hd.acked t ht).append _, fun t ht => ?_, fun x hx => ?_, fun t ht => ?_⟩
  · exact (hd.ackedHanded t ((seen_snoc.mp ht).resolve_right fun h => h)).append _
  · exact (hd.stored x ((seen_snoc.mp hx).resolve_right fun h => h)).imp_right fun hs => hs.append _
  · exact hd.gone t ((seen_snoc.mp ht).resolve_right And.left)

theorem call {op : Op} {c : Choice} {r : op.Reply} {heard : Bool} (h : Ledger w calls)
    (hp : perform maxDeliver w op c = some (w', r))
    (hhanded : ∀ token kind, op = .reply token kind → Seen (Handed token) calls)
    (hflushed : ∀ id envelope, op = .publish id envelope → heard = true → c.fails = false → c.flushed = true) :
    Ledger w' (calls ++ [(i, ⟨w, op, r, heard⟩)]) := by
  cases op with
  | publish id envelope =>
      simp only [perform] at hp
      split at hp <;> cases hp
      · exact h.other (fun _ h => h) (fun _ h => h) fun _ h => h
      · exact h.publish fun hh => hflushed id envelope rfl hh (Bool.eq_false_iff.mpr ‹_›)
  | reply token kind =>
      simp only [perform] at hp
      split at hp <;> cases hp
      · exact h.other (fun _ h => h) (fun _ => by cases kind <;> exact fun h => h) fun _ h => h
      · cases kind with
        | ack => exact h.ack (hhanded token .ack rfl)
        | nak delayNs => exact h.nak
  | fetch =>
      cases effects hp with
      | refused hack hhanded => exact h.other (fun _ h => h) (hack heard) (hhanded heard)
      | wasted => exact h.deliver.other (fun _ h => h) (fun _ h => h) fun _ h => h
      | fetched hm => exact h.fetch hm
  | rest op =>
      cases effects hp with
      | refused | elsewhere => exact h.elsewhere.other (fun _ h => h) (fun _ h => h) fun _ h => h

end Ledger

/-- A reply to a message that was given to the task, or a call that has nothing to
do with the messages. -/
def Answers (given : Nat → Prop) : Op → Prop
  | .reply token _ => given token
  | .fetch => False
  | .publish .. | .rest _ => True

inductive Progress (calls : List (ι × Call Client World)) : Prog JobResult → Prop
  | ready {next} (h : ∀ r, (next r).Only (Answers fun token => ∃ item, r = .ok (some item) ∧ item.token = token)) :
      Progress calls (.await .fetch next)
  | running {p} (h : p.Only (Answers fun token => Seen (Handed token) calls)) : Progress calls p

theorem worker_only {given : Nat → Prop} {item : DequeuedEmail} (h : given item.token) :
    (worker a).Only item (Answers given) where
  execute := ⟨trivial, fun _ => trivial⟩
  ack := ⟨h, fun _ => trivial⟩
  nack _ := ⟨h, fun _ => trivial⟩
  publish _ := publish_only (fun _ _ => trivial) fun _ => trivial
  setAttachments := lift_only (setAttachments_only.mono fun _ _ => trivial)
  deleteBlob _ := ⟨trivial, fun _ => trivial⟩

theorem progress_start (job : Job) : Progress calls (job.program a) := by
  cases job with
  | submit id input =>
      refine .running ((SubmitEmailService.execute_only ?_ id input).map _)
      exact submitEmail_only (fun _ _ => trivial) (fun _ _ => trivial) fun _ _ _ => trivial
  | turn =>
      refine .ready fun r => Program.Only.map ?_ _
      rcases r with e | ⟨⟩ | item
      · trivial
      · trivial
      · exact WorkerState.processOne_only (worker_only ⟨item, rfl, rfl⟩)

namespace Progress

theorem append {p : Prog JobResult} (h : Progress calls p) (calls' : List (ι × Call Client World)) :
    Progress (calls ++ calls') p := by
  cases h with
  | ready h => exact .ready h
  | running h =>
      refine .running (h.mono fun op hop => ?_)
      cases op with
      | reply => exact Seen.append hop _
      | _ => exact hop

theorem handed {op : Op} {next : op.Reply → Prog JobResult} (h : Progress calls (.await op next)) (token : Nat)
    (kind : AckKind) (hop : op = .reply token kind) : Seen (Handed token) calls := by
  cases h with
  | ready => cases hop
  | running h =>
      subst hop
      exact h.1

theorem answered {op : Op} {next : op.Reply → Prog JobResult} {r : op.Reply} (h : Progress calls (.await op next)) :
    Progress (calls ++ [(i, ⟨w, op, r, true⟩)]) (next r) := by
  cases h with
  | ready h =>
      refine .running ((h r).mono fun op hop => ?_)
      cases op with
      | reply token kind =>
          obtain ⟨item, rfl, rfl⟩ := hop
          exact seen_snoc.mpr (.inr rfl)
      | _ => exact hop
  | running h =>
      refine .running ((h.2 r).mono fun op hop => ?_)
      cases op with
      | reply => exact Seen.append hop _
      | _ => exact hop

end Progress

structure Sound (s : System ι) : Prop where
  ledger : Ledger s.world s.calls
  progress : ∀ {i p}, s.task i = some p → Progress s.calls p
  final : Final s.calls

theorem Final.snoc {x : ι × Call Client World} (h : Final calls)
    (hx : ∀ token, Handed token x.2 → ¬ Seen (AckReturned token) calls) : Final (calls ++ [x]) := by
  intro pre y post token heq hy z hz hh
  rcases snoc_eq heq with ⟨-, -, rfl⟩ | ⟨post, rfl, rfl⟩
  · cases hz
  · rcases List.mem_append.mp hz with hz | hz
    · exact h pre y post token rfl hy z hz hh
    · cases List.mem_singleton.mp hz
      exact hx token hh ⟨y.1, y.2, List.mem_append_right _ List.mem_cons_self, hy⟩

theorem handed_perform {op : Op} {c : Choice} {r : op.Reply} {heard : Bool}
    (hp : perform maxDeliver w op c = some (w', r)) (hh : Handed token ⟨w, op, r, heard⟩) :
    op = .fetch ∧ c.seq = token ∧ ∃ m ∈ w.stream, m.seq = token := by
  cases effects hp with
  | refused _ hhanded => exact absurd hh (hhanded heard token)
  | fetched hm _ hseq =>
      cases hh
      exact ⟨rfl, hseq.symm, _, hm, rfl⟩
  | published | replied | wasted | elsewhere => exact absurd hh fun h => h

theorem Sound.unsettled {op : Op} {c : Choice} {r : op.Reply} {heard : Bool} (h : Sound s)
    (hp : perform maxDeliver s.world op c = some (w', r)) (hf : op = .fetch → ¬ Underway s c.seq) (token : Nat)
    (hh : Handed token ⟨s.world, op, r, heard⟩) : ¬ Seen (AckReturned token) s.calls := by
  obtain ⟨hop, rfl, m, hm, hseq⟩ := handed_perform hp hh
  intro hack
  rcases h.ledger.gone _ hack with hpending | hgone
  · exact hf hop ⟨hpending, hack⟩
  · exact hgone m hm hseq

section Steps

variable [DecidableEq ι] {act : Act ι}

namespace Sound

theorem progress_step (h : Sound s) (hs : Pool.Step (machine maxDeliver) s act s') {p : Prog JobResult}
    (hp : s'.task i = some p) : Progress s'.calls p := by
  rcases Pool.task_cases hs hp with hp | ⟨op, next, r, htask, rfl, hcalls⟩
  · rcases Pool.step_calls hs with hcalls | ⟨x, hcalls⟩ <;> rw [hcalls]
    · exact h.progress hp
    · exact (h.progress hp).append _
  · rw [hcalls]
    exact (h.progress htask).answered

theorem step (h : Sound s) (ht : Taken s act) (hs : Pool.Step (machine maxDeliver) s act s') : Sound s' := by
  refine ⟨?_, h.progress_step hs, ?_⟩
  · cases hs with
    | answer htask hp =>
        have hprompt := ht _ _ htask
        refine h.ledger.call hp (h.progress htask).handed ?_
        rintro id envelope rfl -
        exact hprompt
    | drop => exact h.ledger
    | lose htask hp => exact h.ledger.call hp (h.progress htask).handed nofun
    | @drift e w hd =>
        cases e with
        | transmit =>
            simp only [drift] at hd
            split at hd
            · cases hd
            · rename_i frame buffer hb
              cases hd
              exact h.ledger.arrives ⟨transmit_sends hb, transmit_settles hb⟩
        | lose k =>
            simp only [drift] at hd
            split at hd <;> cases hd
            exact h.ledger.sends (lose_sends _ _) fun token hack hsettled => lose_settled (fun hk =>
              ht token hk ⟨List.mem_of_getElem? hk, hack⟩) hsettled
        | rest e =>
            simp only [drift, Option.map_eq_some_iff] at hd
            obtain ⟨rest, -, rfl⟩ := hd
            exact h.ledger.elsewhere
  · cases hs with
    | answer htask hp =>
        have hprompt := ht _ _ htask
        refine h.final.snoc (h.unsettled hp ?_)
        rintro rfl
        exact hprompt
    | lose htask hp =>
        refine h.final.snoc (h.unsettled hp ?_)
        rintro rfl
        exact ht _ htask
    | drop | drift => exact h.final

end Sound

/-- Where no acknowledgement under way is lost or overtaken by a delivery, and every
enqueue has its message on the server when it returns, `Ok` is durable. -/
theorem ok_durable {as : List (Act ι)} (hr : Reaches maxDeliver a jobs as s)
    (hm : (Pool.start World.empty fun i => (jobs i).program a).Meets (machine maxDeliver) Taken as) :
    Stored s ∧ Final s.calls := by
  have hstart : Sound (Pool.start World.empty fun i => (jobs i).program a) := by
    refine ⟨.start, fun {i p} hp => ?_, fun pre x post token heq => absurd heq (by simp [Pool.start])⟩
    cases hp
    exact progress_start (jobs i)
  have hsound := Pool.run_preserves (J := Sound) (fun h ht hs => h.step ht hs) hstart hm hr
  exact ⟨hsound.ledger.stored, hsound.final⟩

end Steps

def Flushed (s : System ι) : Act ι → Prop
  | .step _ c => c.flushed = true ∧ s.world.buffer.length = 0
  | .abandon .. | .drift _ => False

instance : ∀ (s : System ι) (act : Act ι), Decidable (Flushed s act)
  | _, .step .. => inferInstanceAs (Decidable (_ ∧ _))
  | _, .abandon .. | _, .drift _ => isFalse fun h => h

theorem taken_of_flushed {act : Act ι} (h : Flushed s act) : Taken s act := by
  cases act with
  | step i c =>
      intro op next _
      cases op with
      | publish => exact fun _ => h.1
      | fetch =>
          rintro ⟨hpending, -⟩
          rw [World.AckPending, List.eq_nil_of_length_eq_zero h.2] at hpending
          cases hpending
      | reply | rest => trivial
  | abandon | drift => cases h

theorem ok_durable_delivered : ∃ s, Reaches 3 .sqlite oneEmail (submitting true ++ delivering 1 true (.ok ⟨"smtp"⟩)) s ∧
    Seen (Enqueued 0) s.calls ∧ Seen (AckReturned 0) s.calls ∧ Stored s ∧ Final s.calls := by
  have hrun : ∃ s, Reaches 3 .sqlite oneEmail (submitting true ++ delivering 1 true (.ok ⟨"smtp"⟩)) s ∧
      Seen (Enqueued 0) s.calls ∧ Seen (AckReturned 0) s.calls := by
    refine ⟨_, rfl, ?_, ?_⟩
    · refine seen_iff.mpr ⟨_, .tail _ (.head _), ?_⟩
      exact And.intro rfl rfl
    · exact ⟨1, _, List.mem_of_getLast? rfl, rfl, rfl⟩
  obtain ⟨s, hr, henqueued, hacked⟩ := hrun
  refine ⟨s, hr, henqueued, hacked, ok_durable hr (Pool.Meets.mono ?_ fun _ _ => taken_of_flushed)⟩
  decide

/-- A loss after the enqueue returned `Ok`: no message is left of the email. A loss
after the ack returned `Ok`: the message is handed out again. -/
theorem ok_lost :
    (∃ s, Reaches 3 .sqlite oneEmail (submitting false ++ [.drift (.lose 0)]) s ∧
      s.task 0 = some (.done (.submitted (.ok ⟨1⟩))) ∧ ¬ Stored s) ∧
    ∃ s, Reaches 3 .sqlite oneEmail (submitting true ++ delivering 1 false (.ok ⟨"smtp"⟩) ++
      [.step 1 {}, .drift (.lose 0), .step 2 {}]) s ∧ ¬ Final s.calls := by
  refine ⟨⟨_, rfl, rfl, fun h => ?_⟩, ⟨_, rfl, fun h => ?_⟩⟩
  · rcases h 0 ⟨0, _, .tail _ (.head _), And.intro rfl rfl⟩ with ⟨m, hm, -⟩ | hack
    · cases hm
    · exact absurd hack (by decide)
  · exact h [_, _, _, _, _, _, _, _] _ [_, _] 0 rfl ⟨rfl, rfl⟩ _ (.tail _ (.head _)) rfl

end Catapulte.Nats
