import Catapulte.Deployment
import Catapulte.Survival
import Catapulte.Batches

namespace Catapulte

open Async

def Deployed.Elsewhere (op : Deployed.Op) : Prop := ∀ c : InboundCall, op ≠ .right (.right c)

def Decided : Except SubmitEmailError EmailId → Prop
  | .ok _ => True
  | .error e => e.isTransient = false

variable {d : Deployment} {id : EmailId} {t : List (Exchange Deployed)} {seq : Nat}

theorem publish_elsewhere (p : PublisherAdapter) (event : LifecycleEvent) :
    (p.publish d.showUuid Inbound event).Only Deployed.Elsewhere := by
  have hleft (op : Sys.Op) : Deployed.Elsewhere (.left op) := fun c h => by cases h
  have hjoin {α β : Type} (x : Prog α) (y : Program Sinks β) : ((x.join (y.left Inbound)) >>= fun r =>
      Program.done r.1).Only Deployed.Elsewhere :=
    ((Program.only_left (fun op c h => by cases h) y).join hleft (fun c h => by cases h) x).bind fun _ => trivial
  cases p with
  | storage => exact Program.only_left hleft _
  | storageWebhook w => exact hjoin _ _
  | storageNats n => exact hjoin _ _
  | storageBoth w n => exact hjoin _ _

theorem lifts_elsewhere (d : Deployment) : d.Lifts (Program.whereOnly Prog Deployed.Elsewhere) (.refl Prog) :=
  d.lifts_of_publisher (fun p => Program.only_left (fun op c h => by cases h) p) fun event => publish_elsewhere d.publisher event

theorem runs_once {op : Deployed.Op} {f : Deployed.Reply op → DeployedResult} {q : Program Deployed DeployedResult}
    (h : (Program.await op fun r => .done (f r)).Runs t q) : t = [] ∨ ∃ r, t = [⟨op, r⟩] := by
  rcases Program.runs_await h with ⟨rfl, -⟩ | ⟨r, rest, rfl, hrest⟩
  · exact .inl rfl
  · obtain ⟨rfl, -⟩ := Program.runs_done hrest
    exact .inr ⟨r, rfl⟩

theorem acked_once {op : InboundCall} {f : op.Reply → DeployedResult} {q : Program Deployed DeployedResult}
    {ack : Except String Unit} (h : (Program.await (.right (.right op)) fun r => .done (f r) : Program Deployed _).Runs t q)
    (hack : (⟨.right (.right (.ack seq)), ack⟩ : Exchange Deployed) ∈ t) : op = .ack seq ∧ Program.lefts t = [] := by
  rcases runs_once h with rfl | ⟨r, rfl⟩
  · exact absurd hack List.not_mem_nil
  · cases List.mem_singleton.mp hack
    exact ⟨rfl, rfl⟩

theorem settle_acked {msg : InboundMessage} {r : Except SubmitEmailError EmailId} {q : Program Deployed DeployedResult}
    {ack : Except String Unit} (h : (DeployedResult.round <$> d.inbound.settle msg r).Runs t q)
    (hack : (⟨.right (.right (.ack seq)), ack⟩ : Exchange Deployed) ∈ t) :
    msg.seq = seq ∧ Decided r ∧ Program.lefts t = [] := by
  cases r with
  | ok id =>
      obtain ⟨hop, hl⟩ := acked_once h hack
      exact ⟨InboundCall.ack.inj hop, trivial, hl⟩
  | error e =>
      simp only [InboundNatsServer.settle] at h
      split at h
      · obtain ⟨hop, -⟩ := acked_once h hack
        cases hop
      · rename_i he
        obtain ⟨hop, hl⟩ := acked_once h hack
        exact ⟨InboundCall.ack.inj hop, Bool.eq_false_iff.mpr he, hl⟩

theorem round_acked {q : Program Deployed DeployedResult} {ack : Except String Unit}
    (h : ((DeployedJob.round id).program d).Runs t q) (hack : (⟨.right (.right (.ack seq)), ack⟩ : Exchange Deployed) ∈ t) :
    ∃ msg, (⟨.right (.right .fetch), .ok (some msg)⟩ : Exchange Deployed) ∈ t ∧ msg.seq = seq ∧
      (submissionOf d.json d.parsers msg.payload = none ∨
        ∃ input r, submissionOf d.json d.parsers msg.payload = some input ∧ Decided r ∧
          (d.adapters.submitEmail.execute id input).Answered (Program.lefts t) r) := by
  rcases Program.runs_await h with ⟨rfl, -⟩ | ⟨fetched, rest, rfl, hrest⟩
  · exact absurd hack List.not_mem_nil
  replace hack := (List.mem_cons.mp hack).resolve_left fun heq => (by cases heq)
  rcases fetched with e | _ | msg
  · obtain ⟨hop, -⟩ := acked_once hrest hack
    cases hop
  · obtain ⟨rfl, -⟩ := Program.runs_done hrest
    exact absurd hack List.not_mem_nil
  · refine ⟨msg, List.mem_cons_self, ?_⟩
    change (DeployedResult.round <$> d.inbound.handleMessage d.json d.parsers id msg).Runs rest q at hrest
    rw [InboundNatsServer.handleMessage_eq] at hrest
    cases hi : submissionOf d.json d.parsers msg.payload with
    | none =>
        rw [hi] at hrest
        obtain ⟨hop, -⟩ := acked_once hrest hack
        exact ⟨InboundCall.ack.inj hop, .inl rfl⟩
    | some input =>
        rw [hi] at hrest
        dsimp only at hrest
        rw [Program.map_eq, Program.bind_assoc] at hrest
        have hnot {t' : List (Exchange Deployed)} (h : ∀ x ∈ t', Deployed.Elsewhere x.1) :
            (⟨.right (.right (.ack seq)), ack⟩ : Exchange Deployed) ∉ t' := fun hmem => h _ hmem _ rfl
        rcases Program.runs_bind hrest with ⟨op, next, hrun, -⟩ | ⟨t₁, t₂, r, rfl, hexec, hsettle⟩
        · exact absurd hack (hnot (((lifts_elsewhere d).execute id input).runs hrun).1)
        · rcases List.mem_append.mp hack with hack | hack
          · exact absurd hack (hnot (((lifts_elsewhere d).execute id input).answered hexec))
          · obtain ⟨hseq, hr, hl⟩ := settle_acked hsettle hack
            obtain ⟨r, hcore, rfl⟩ := (d.lifts_erasing.execute id input).answered hexec
            refine ⟨hseq, .inr ⟨input, _, rfl, hr, ?_⟩⟩
            have hlefts : Program.lefts (t₁ ++ t₂) = Program.lefts t₁ := by
              rw [Program.lefts_append, hl, List.append_nil]
            exact hlefts ▸ hcore

section Stream

variable {ι τ κ ε : Type} [DecidableEq ι] {S : Machine Sinks τ κ ε} {jobs : ι → DeployedJob} {w : World} {v : τ}

/-- The network of a stream that takes messages in, beside sinks of any behaviour. -/
abbrev withStream (S : Machine Sinks τ κ ε) :
    Machine Net (τ × InboundStream) (BesideChoice κ InboundStream.Choice) (ε ⊕ InboundStream.Drift) :=
  S.beside InboundStream.machine

abbrev streamOf (s : DeployedSystem ι (τ × InboundStream)) : InboundStream := s.world.2.2

inductive Streams (s s' : DeployedSystem ι (τ × InboundStream)) : Prop
  | elsewhere {i : ι} {c : Call Deployed (World × τ × InboundStream)} (hs : streamOf s' = streamOf s)
      (hc : s'.calls = s.calls ++ [(i, c)]) (ho : Deployed.Elsewhere c.op)
  | silent (hs : streamOf s' = streamOf s) (hc : s'.calls = s.calls)
  | call {i : ι} {op : InboundCall} {r : op.Reply} {c : InboundStream.Choice} {heard : Bool}
      (hp : (streamOf s).perform op c = some (streamOf s', r))
      (hc : s'.calls = s.calls ++ [(i, ⟨s.world, .right (.right op), r, heard⟩)])
  | drift {e : InboundStream.Drift} (hd : (streamOf s).drift e = some (streamOf s')) (hc : s'.calls = s.calls)

omit [DecidableEq ι] in
theorem streams_of_perform {s s' : DeployedSystem ι (τ × InboundStream)} {i : ι} {op : Deployed.Op}
    {c : BesideChoice Choice (BesideChoice κ InboundStream.Choice)} {r : Deployed.Reply op} {heard : Bool}
    (hp : (machine.beside (withStream S)).perform s.world op c = some (s'.world, r))
    (hc : s'.calls = s.calls ++ [(i, ⟨s.world, op, r, heard⟩)]) : Streams s s' := by
  cases op with
  | left op =>
      obtain ⟨u, -, heq⟩ := Option.map_eq_some_iff.mp hp
      have hworld := congrArg (fun v => v.2.2) (Prod.mk.inj heq).1
      exact .elsewhere hworld.symm hc fun c h => (by cases h)
  | turn =>
      have hworld := congrArg (fun v => v.2.2) (Prod.mk.inj (Option.some.inj hp)).1
      exact .elsewhere hworld.symm hc fun c h => (by cases h)
  | right op =>
      obtain ⟨⟨v, r'⟩, hnet, heq⟩ := Option.map_eq_some_iff.mp hp
      obtain ⟨hworld, rfl⟩ := Prod.mk.inj heq
      have hworld : v.2 = streamOf s' := congrArg (fun v => v.2.2) hworld
      cases op with
      | left op =>
          obtain ⟨u, -, heq⟩ := Option.map_eq_some_iff.mp hnet
          have hv := congrArg Prod.snd (Prod.mk.inj heq).1
          exact .elsewhere (hworld.symm.trans hv.symm) hc fun c h => (by cases h)
      | turn =>
          have hv := congrArg Prod.snd (Prod.mk.inj (Option.some.inj hnet)).1
          exact .elsewhere (hworld.symm.trans hv.symm) hc fun c h => (by cases h)
      | right op =>
          obtain ⟨⟨u, r⟩, hstream, heq⟩ := Option.map_eq_some_iff.mp hnet
          obtain ⟨hv, rfl⟩ := Prod.mk.inj heq
          have hu : u = streamOf s' := (congrArg Prod.snd hv).trans hworld
          exact .call (hu ▸ hstream) hc

theorem streams_of_step {s s' : DeployedSystem ι (τ × InboundStream)}
    {act : DeployedAct ι (BesideChoice κ InboundStream.Choice) (ε ⊕ InboundStream.Drift)}
    (h : Pool.Step (machine.beside (withStream S)) s act s') : Streams s s' := by
  cases h with
  | answer ht hp => exact streams_of_perform hp rfl
  | lose ht hp => exact streams_of_perform hp rfl
  | drop ht => exact .silent rfl rfl
  | @drift e v hd =>
      rcases e with e | e | e
      · obtain ⟨u, -, rfl⟩ := Option.map_eq_some_iff.mp hd
        exact .silent rfl rfl
      · obtain ⟨v, hnet, rfl⟩ := Option.map_eq_some_iff.mp hd
        obtain ⟨u, -, rfl⟩ := Option.map_eq_some_iff.mp hnet
        exact .silent rfl rfl
      · obtain ⟨v, hnet, rfl⟩ := Option.map_eq_some_iff.mp hd
        obtain ⟨u, hu, rfl⟩ := Option.map_eq_some_iff.mp hnet
        exact .drift hu rfl

def AckSent (s : DeployedSystem ι (τ × InboundStream)) (seq : Nat) : Prop :=
  ∃ i ack, (⟨.right (.right (.ack seq)), ack⟩ : Exchange Deployed) ∈ Pool.trace i s.calls

structure Streamed (s : DeployedSystem ι (τ × InboundStream)) : Prop where
  genuine : (streamOf s).Genuine
  accounted : (streamOf s).Accounted (AckSent s)
  fetched : ∀ i msg, (⟨.right (.right .fetch), .ok (some msg)⟩ : Exchange Deployed) ∈ Pool.trace i s.calls →
    (streamOf s).published[msg.seq]? = some msg.payload

theorem trace_mono {s s' : DeployedSystem ι (τ × InboundStream)} {i : ι} {c : Call Deployed (World × τ × InboundStream)}
    (hc : s'.calls = s.calls ++ [(i, c)]) {j : ι} {x : Exchange Deployed} :
    x ∈ Pool.trace j s'.calls ↔ x ∈ Pool.trace j s.calls ∨ i = j ∧ x = ⟨c.op, c.reply⟩ := by
  rw [hc]
  by_cases hij : i = j
  · subst hij
    rw [Pool.trace_snoc_self]
    simp
  · rw [Pool.trace_snoc_of_ne hij]
    simp [hij]

theorem Streamed.step {s s' : DeployedSystem ι (τ × InboundStream)} (h : Streamed s) (hs : Streams s s') : Streamed s' := by
  cases hs with
  | @elsewhere i c hs hc ho =>
      refine ⟨hs ▸ h.genuine, hs ▸ h.accounted.mono fun seq ⟨j, ack, hm⟩ => ⟨j, ack, (trace_mono hc).mpr (.inl hm)⟩,
        fun j msg hm => ?_⟩
      rw [hs]
      rcases (trace_mono hc).mp hm with hm | ⟨-, heq⟩
      · exact h.fetched j msg hm
      · exact absurd (congrArg Sigma.fst heq).symm (ho _)
  | silent hs hc =>
      refine ⟨hs ▸ h.genuine, hs ▸ h.accounted.mono fun seq ⟨j, ack, hm⟩ => ⟨j, ack, hc ▸ hm⟩, fun j msg hm => ?_⟩
      rw [hs]
      exact h.fetched j msg (hc ▸ hm)
  | @call i op r c heard hp hc =>
      have hacked (seq : Nat) : AckSent s seq → AckSent s' seq :=
        fun ⟨j, ack, hm⟩ => ⟨j, ack, (trace_mono hc).mpr (.inl hm)⟩
      refine ⟨h.genuine.perform hp, (h.accounted.mono hacked).perform hp ?_, fun j msg hm => ?_⟩
      · rintro seq rfl
        exact ⟨i, r, (trace_mono hc).mpr (.inr ⟨rfl, rfl⟩)⟩
      · rw [InboundStream.published_perform hp]
        rcases (trace_mono hc).mp hm with hm | ⟨-, heq⟩
        · exact h.fetched j msg hm
        · cases heq
          exact h.genuine _ (InboundStream.mem_of_fetch hp)
  | drift hd hc =>
      refine ⟨h.genuine.drift hd, (h.accounted.mono fun seq ⟨j, ack, hm⟩ => ⟨j, ack, hc ▸ hm⟩).drift hd, fun j msg hm => ?_⟩
      obtain ⟨rest, hrest⟩ := InboundStream.published_drift hd
      have hold := h.fetched j msg (hc ▸ hm)
      rw [← hrest, List.getElem?_append_left (List.getElem?_eq_some_iff.mp hold).1]
      exact hold

theorem streamed_of_run {acts : List (DeployedAct ι (BesideChoice κ InboundStream.Choice) (ε ⊕ InboundStream.Drift))}
    {s : DeployedSystem ι (τ × InboundStream)} (hr : DeployedReaches d (withStream S) w (v, .empty) jobs acts s) :
    Streamed s := by
  refine Pool.run_invariant (J := Streamed) (fun h hs => h.step (streams_of_step hs)) ?_ hr
  refine ⟨fun m hm => absurd hm List.not_mem_nil, ⟨fun seq payload hs => ?_, fun seq hs => absurd hs List.not_mem_nil⟩,
    fun i msg hm => absurd hm List.not_mem_nil⟩
  cases hs

end Stream

/-- What the calls of a submission say once it has accepted an email. -/
def AcceptedBy (id : EmailId) (input : SubmitEmailInput) (st : SubmitStage) (l : List (Exchange Sys)) : Prop :=
  match st with
  | .looking key => input.idempotencyKey = some key
  | .queued _ | .announcing .. => ∃ x ∈ l, enqueuedBy x = some id
  | .ended (.ok id') => (id' = id ∧ ∃ x ∈ l, enqueuedBy x = some id) ∨
      ∃ key, input.idempotencyKey = some key ∧ ⟨.selectIdByKey key, .ok id'⟩ ∈ l
  | _ => True

theorem acceptedBy_afterInsert {input : SubmitEmailInput} {l : List (Exchange Sys)} (r : Except EmailRepositoryError Nat) :
    AcceptedBy id input (.afterInsert input.idempotencyKey r) l := by
  cases r with
  | error e => trivial
  | ok affected =>
      simp only [SubmitStage.afterInsert]
      split
      · trivial
      · cases hkey : input.idempotencyKey with
        | none => trivial
        | some key => exact hkey

theorem AcceptedBy.step {a : Adapters} {input : SubmitEmailInput} {st st' : SubmitStage} {l : List (Exchange Sys)}
    {op : Effect} {r : op.Reply} (h : AcceptedBy id input st l) (hm : SubmitMoves a id input st op r st') :
    AcceptedBy id input st' (l ++ [⟨op, r⟩]) := by
  have hlast (x : Exchange Sys) : x ∈ l ++ [x] := List.mem_append_right _ List.mem_cons_self
  cases hm with
  | insertOrIgnore | insertOnConflict => exact acceptedBy_afterInsert _
  | found => exact .inr ⟨_, h, hlast _⟩
  | enqueued | sent => exact ⟨_, hlast _, rfl⟩
  | drawn =>
      obtain ⟨x, hx, henq⟩ := h
      exact ⟨x, List.mem_append_left _ hx, henq⟩
  | announced =>
      obtain ⟨x, hx, henq⟩ := h
      exact .inl ⟨rfl, x, List.mem_append_left _ hx, henq⟩
  | _ => trivial

theorem enqueuedBy_eq (c : Call Sys World) : enqueuedBy ⟨c.op, c.reply⟩ = enqueued c := by
  obtain ⟨w, op, r, heard⟩ := c
  cases op with
  | insertEntry | send => rcases r with e | ⟨⟩ <;> rfl
  | _ => rfl

theorem accepted_of_answered {a : Adapters} {input : SubmitEmailInput} {t : List (Exchange Sys)} {id' : EmailId}
    (h : (a.submitEmail.execute id input).Answered t (.ok id')) : (id' = id ∧ ∃ x ∈ t, enqueuedBy x = some id) ∨
      ∃ key, input.idempotencyKey = some key ∧ ⟨.selectIdByKey key, .ok id'⟩ ∈ t := by
  obtain ⟨st, rfl, hst⟩ := execute_follows.answered h (J := AcceptedBy id input)
    (fun st l op r st' hJ hm _ => hJ.step hm) (l := []) trivial
  exact hst

section Intake

variable {ι τ κ ε : Type} {S : Machine Sinks τ κ ε} {jobs : ι → DeployedJob} {w : World} {v : τ}

def DeployedJob.draws : DeployedJob → Option EmailId
  | .core (.submit id _) | .round id => some id
  | .core _ => none

/-- The email ids that the tasks generate are distinct and new, and the database is consistent. -/
structure FreshStart (jobs : ι → DeployedJob) (w : World) : Prop where
  distinct : ∀ {i j id}, (jobs i).draws = some id → (jobs j).draws = some id → i = j
  rows : ∀ {i id key}, (jobs i).draws = some id → ¬ w.HasRow id key
  outstanding : ∀ {i id}, (jobs i).draws = some id → ¬ w.Outstanding id
  events : ∀ {i}, ∀ row ∈ w.events, (jobs i).draws ≠ some row.emailId
  keysUnique : w.KeysUnique
  entries : w.EntriesFresh
  tokens : w.memory.TokensFresh

section Cores

variable {cores : ι → Job} {t : ι → List (Exchange Net)} (hc : ∀ i, StandsFor d (t i) (jobs i) (cores i) ∨ cores i = .turn)
include hc

theorem draws_of_core {i : ι} {id : EmailId} {input : SubmitEmailInput} (h : cores i = .submit id input) :
    (jobs i).draws = some id := by
  rcases hc i with hs | hs
  · rw [h] at hs
    generalize jobs i = job at hs
    cases hs with
    | core | round => rfl
  · rw [h] at hs
    cases hs

theorem ready_of_cores (hw : FreshStart jobs w) : Ready cores w where
  distinct hi hj := hw.distinct (draws_of_core hc hi) (draws_of_core hc hj)
  fresh hi := hw.rows (draws_of_core hc hi)
  keysUnique := hw.keysUnique

theorem vacant_of_cores (hw : FreshStart jobs w) : Vacant cores w where
  outstanding := by
    rintro id ⟨i, input, hi⟩
    exact hw.outstanding (draws_of_core hc hi)
  events := by
    rintro row hrow ⟨i, input, hi⟩
    exact hw.events row hrow (draws_of_core hc hi)

end Cores

/-- What has become of a message that is no longer in the stream. Its submission is that of some
round, whose calls on the shared state are those of `execute` with its result. -/
inductive MessageOutcome (d : Deployment) (jobs : ι → DeployedJob) [DecidableEq ι] (s : DeployedSystem ι (τ × InboundStream))
    (payload : List UInt8) : Prop
  | refused (h : submissionOf d.json d.parsers payload = none)
  | failed {i : ι} {id : EmailId} {input : SubmitEmailInput} {e : SubmitEmailError} (hj : jobs i = .round id)
      (hi : submissionOf d.json d.parsers payload = some input)
      (ha : (d.adapters.submitEmail.execute id input).Answered (Pool.trace i (leftCalls s.calls)) (.error e))
      (he : e.isTransient = false)
  | accepted {i : ι} {id : EmailId} {input : SubmitEmailInput} (hj : jobs i = .round id)
      (hi : submissionOf d.json d.parsers payload = some input)
      (ha : (d.adapters.submitEmail.execute id input).Answered (Pool.trace i (leftCalls s.calls)) (.ok id))
      (hkept : s.world.1.Outstanding id ∨ ∃ j, Completed j id (leftCalls s.calls))
  | duplicate {i : ι} {id id' : EmailId} {input : SubmitEmailInput} {key : String} (hj : jobs i = .round id)
      (hi : submissionOf d.json d.parsers payload = some input)
      (ha : (d.adapters.submitEmail.execute id input).Answered (Pool.trace i (leftCalls s.calls)) (.ok id'))
      (hkey : input.idempotencyKey = some key)
      (hheld : ⟨.selectIdByKey key, .ok id'⟩ ∈ Pool.trace i (leftCalls s.calls))

/-- No message is lost on the way in to the queue of SQLite, of Postgres or in memory: until it is
refused, has failed for good or its email is accepted, it stays in the stream. A round that crashes is
abandoned, while the shared state stays. -/
theorem message_kept [DecidableEq ι] {acts : List (DeployedAct ι (BesideChoice κ InboundStream.Choice) (ε ⊕ InboundStream.Drift))}
    {s : DeployedSystem ι (τ × InboundStream)} (hw : FreshStart jobs w)
    (hr : DeployedReaches d (withStream S) w (v, .empty) jobs acts s) {seq : Nat} {payload : List UInt8}
    (hp : (streamOf s).published[seq]? = some payload) :
    ⟨seq, payload⟩ ∈ (streamOf s).messages ∨ MessageOutcome d jobs s payload := by
  have hstream := streamed_of_run hr
  refine (hstream.accounted.1 seq payload hp).imp_right ?_
  rintro ⟨i, ack, hack⟩
  obtain ⟨q, hrun, -⟩ := Pool.trace_runs hr i
  cases hj : jobs i with
  | core job =>
      rw [hj] at hrun
      exact absurd rfl ((((lifts_elsewhere d).jobProgram job).map _).runs hrun |>.1 _ hack _)
  | round id =>
      rw [hj] at hrun
      obtain ⟨msg, hfetch, rfl, hmsg⟩ := round_acked hrun hack
      obtain rfl : payload = msg.payload := Option.some.inj (hp.symm.trans (hstream.fetched i msg hfetch))
      rcases hmsg with hnone | ⟨input, r, hi, hdecided, ha⟩
      · exact .refused hnone
      · rw [← trace_leftCalls] at ha
        rcases r with e | id'
        · exact .failed hj hi ha hdecided
        · rcases accepted_of_answered ha with ⟨rfl, x, hx, henq⟩ | ⟨key, hkey, hheld⟩
          · obtain ⟨cores, bs, b, hb, hworld, hcalls, hcores, -⟩ := deployed_run hr
            have hc (i : ι) := (hcores i).imp_right And.left
            obtain ⟨c, hmem, rfl⟩ := Pool.mem_trace.mp hx
            have hseen : Seen (Enqueued id') b.calls := ⟨i, c, hcalls ▸ hmem, (enqueuedBy_eq c).symm.trans henq⟩
            have hown : Own cores id' := by
              rcases hcores i with hs | ⟨-, hno⟩
              · rw [hj] at hs
                generalize hcore : cores i = core at hs
                cases hs with
                | round => exact ⟨i, _, hcore⟩
              · rcases Pool.by_of_call hb (hcalls ▸ hmem) with hnil | ⟨act, hact, hby⟩
                · exact absurd hnil List.not_mem_nil
                · exact absurd hby (hno act hact)
            have hsurv := enqueued_survives (ready_of_cores hc hw) (vacant_of_cores hc hw) hw.entries hw.tokens hb hown hseen
            rw [hworld, hcalls] at hsurv
            exact .accepted hj hi ha hsurv
          · exact .duplicate hj hi ha hkey hheld

def intake (c : Choice) (first : Bool) :
    DeployedAct Nat (BesideChoice (∀ op, Sinks.Reply op) InboundStream.Choice) (Empty ⊕ InboundStream.Drift) :=
  .step 0 ⟨c, ⟨sinkAnswers (.ok 200), {}, true⟩, first⟩

def greetingIntake :
    List (DeployedAct Nat (BesideChoice (∀ op, Sinks.Reply op) InboundStream.Choice) (Empty ⊕ InboundStream.Drift)) :=
  [.drift (.inr (.inr (.publish (asciiBytes greetingText)))), intake {} true, intake {} true, intake { uuid := 1 } true,
    intake {} false, intake {} false, intake { uuid := 2 } true, intake {} true, intake {} true,
    .drift (.inr (.inr .transmit))]

theorem greeting_fresh : FreshStart greetingRound .empty where
  distinct := by
    have hzero {i : Nat} {id : EmailId} (h : (greetingRound i).draws = some id) : i = 0 := by
      cases i with
      | zero => rfl
      | succ i => cases h
    intro i j id hi hj
    exact (hzero hi).trans (hzero hj).symm
  rows := by
    rintro i id key - ⟨row, hrow, -⟩
    cases hrow
  outstanding := by
    rintro i id - (⟨e, he, -⟩ | hpos)
    · cases he
    · cases hpos
  events := fun row hrow => absurd hrow List.not_mem_nil
  keysUnique := by
    rintro key id id' ⟨row, hrow, -⟩
    cases hrow
  entries := entriesFresh_empty
  tokens := ⟨List.nodup_nil, fun p hp => (by cases hp)⟩

set_option maxRecDepth 4000 in
theorem greeting_kept : ∃ s, DeployedReaches greetingDeployment (withStream (.answering Sinks)) .empty ((), .empty)
      greetingRound greetingIntake s ∧ (streamOf s).messages = [] ∧
    (⟨0, asciiBytes greetingText⟩ ∈ (streamOf s).messages ∨
      MessageOutcome greetingDeployment greetingRound s (asciiBytes greetingText)) := by
  have hrun : ∃ s, DeployedReaches greetingDeployment (withStream (.answering Sinks)) .empty ((), .empty)
      greetingRound greetingIntake s ∧ (streamOf s).messages = [] ∧
      (streamOf s).published[0]? = some (asciiBytes greetingText) := ⟨_, rfl, rfl, rfl⟩
  obtain ⟨s, hr, hnone, hp⟩ := hrun
  exact ⟨s, hr, hnone, message_kept greeting_fresh hr hp⟩

end Intake

end Catapulte
