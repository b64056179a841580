import Catapulte.Async.Handler
import Catapulte.Http.Batch
import Catapulte.Storage.Memory
import Catapulte.Acceptance

namespace Catapulte

open Async

/-- What a handler asks of the use case: the submission at a position of the request. -/
@[reducible] def Submissions : Interface := ⟨Nat × SubmitEmailInput, fun _ => Except SubmitEmailError EmailId⟩

/-- A submission and its outcome. -/
abbrev Submission := Exchange Submissions

/-- The batch with the outcomes of its submissions left open. -/
def batchProgram (parsers : Parsers) (showUuid : EmailId → String) (request : BatchSubmitEmailRequest) :
    Program Submissions (Except AppError BatchSubmitEmailResponse) :=
  submitEmailBatch parsers showUuid (fun n input => @Program.call Submissions (n, input)) request

/-- The batch over the adapters. The `n`-th submission starts by drawing the id `ids n`. -/
def Adapters.submitEmailBatch (a : Adapters) (parsers : Parsers) (showUuid : EmailId → String) (ids : Nat → EmailId)
    (request : BatchSubmitEmailRequest) : Prog (Except AppError BatchSubmitEmailResponse) :=
  Catapulte.submitEmailBatch parsers showUuid (fun n input => a.submitEmail.execute (ids n) input) request

variable {a : Adapters} {parsers : Parsers} {showUuid : EmailId → String} {ids : Nat → EmailId}
  {request : BatchSubmitEmailRequest} {emails : List SubmitEmailRequest} {n : Nat} {results : List BatchItemResultDto}
  {calls : List Submission} {outcome : Nat → Except SubmitEmailError EmailId}

section

variable {I : Interface} {execute : ∀ op : Submissions.Op, Program I (Submissions.Reply op)}

theorem interpret_submitEmails :
    (submitEmails parsers showUuid (fun n input => @Program.call Submissions (n, input)) n emails results).interpret
      execute = submitEmails parsers showUuid (fun n input => execute (n, input)) n emails results := by
  induction emails generalizing n results with
  | nil => rfl
  | cons emailReq emails ih =>
      rw [submitEmails, submitEmails]
      cases emailReq.intoSubmitInput parsers with
      | error validationErr => exact ih
      | ok input =>
          refine congrArg (Program.bind (execute (n, input))) (funext fun r => ?_)
          cases r with
          | error e => rfl
          | ok id => exact ih

theorem interpret_batchProgram : (batchProgram parsers showUuid request).interpret execute =
    Catapulte.submitEmailBatch parsers showUuid (fun n input => execute (n, input)) request := by
  rw [batchProgram, Catapulte.submitEmailBatch, Catapulte.submitEmailBatch]
  split
  · rfl
  · rw [Program.interpret_bind, interpret_submitEmails]
    congr 1
    funext r
    cases r <;> rfl

end

theorem submitEmails_answered {r : Except AppError (List BatchItemResultDto)}
    (h : (submitEmails parsers showUuid (fun n input => @Program.call Submissions (n, input)) n emails results).Answered
      calls r) :
    (∃ done op e, calls = done ++ [⟨op, .error e⟩] ∧ r = .error (.submit e) ∧ ∀ x ∈ done, ∃ id, x.2 = .ok id) ∨
      (∃ results, r = .ok results) ∧ ∀ x ∈ calls, ∃ id, x.2 = .ok id := by
  induction emails generalizing n results calls with
  | nil =>
      obtain ⟨rfl, rfl⟩ := h
      exact .inr ⟨⟨_, rfl⟩, by simp⟩
  | cons emailReq emails ih =>
      rw [submitEmails] at h
      cases hinput : emailReq.intoSubmitInput parsers with
      | error validationErr =>
          simp only [hinput] at h
          exact ih h
      | ok input =>
          simp only [hinput] at h
          obtain ⟨outcome, calls, rfl, h⟩ := h
          cases outcome with
          | error e =>
              obtain ⟨rfl, rfl⟩ := h
              exact .inl ⟨[], _, e, rfl, rfl, by simp⟩
          | ok id =>
              rcases ih h with ⟨done, op, e, rfl, hr, hdone⟩ | ⟨hr, hcalls⟩
              · refine .inl ⟨_ :: done, op, e, rfl, hr, ?_⟩
                exact List.forall_mem_cons.mpr ⟨⟨id, rfl⟩, hdone⟩
              · exact .inr ⟨hr, List.forall_mem_cons.mpr ⟨⟨id, rfl⟩, hcalls⟩⟩

inductive ItemResult (parsers : Parsers) (showUuid : EmailId → String)
    (outcome : Nat → Except SubmitEmailError EmailId) : SubmitEmailRequest × Nat → BatchItemResultDto → Prop
  | accepted {emailReq n input id} (hinput : emailReq.intoSubmitInput parsers = .ok input) (hid : outcome n = .ok id) :
      ItemResult parsers showUuid outcome (emailReq, n) (.accepted (showUuid id))
  | rejected {emailReq n validationErr} (hinput : emailReq.intoSubmitInput parsers = .error validationErr) :
      ItemResult parsers showUuid outcome (emailReq, n) (.rejected validationErr.display)

/-- Every email from position `n` on that validates is accepted by its submission. -/
def AllAccepted (parsers : Parsers) (outcome : Nat → Except SubmitEmailError EmailId) (n : Nat)
    (emails : List SubmitEmailRequest) : Prop :=
  ∀ k emailReq input, emails[k]? = some emailReq → emailReq.intoSubmitInput parsers = .ok input →
    ∃ id, outcome (n + k) = .ok id

theorem allAccepted_cons {emailReq : SubmitEmailRequest} : AllAccepted parsers outcome n (emailReq :: emails) ↔
    (∀ input, emailReq.intoSubmitInput parsers = .ok input → ∃ id, outcome n = .ok id) ∧
      AllAccepted parsers outcome (n + 1) emails := by
  constructor
  · intro h
    refine ⟨fun input hinput => h 0 emailReq input rfl hinput, fun k req input hk hinput => ?_⟩
    rw [Nat.add_right_comm]
    exact h (k + 1) req input hk hinput
  · rintro ⟨hfirst, hrest⟩ k req input hk hinput
    cases k with
    | zero =>
        cases hk
        exact hfirst input hinput
    | succ k =>
        rw [← Nat.add_assoc, Nat.add_right_comm]
        exact hrest k req input hk hinput

theorem submitEmails_accepted (showUuid : EmailId → String) (results : List BatchItemResultDto)
    (h : AllAccepted parsers outcome n emails) :
    ∃ items, submitEmails (M := Id) parsers showUuid (fun n _ => outcome n) n emails results = .ok (results ++ items) ∧
      List.Forall₂ (ItemResult parsers showUuid outcome) (emails.zipIdx n) items := by
  induction emails generalizing n results with
  | nil => exact ⟨[], by rw [List.append_nil]; rfl, .nil⟩
  | cons emailReq emails ih =>
      obtain ⟨hfirst, hrest⟩ := allAccepted_cons.mp h
      rw [submitEmails, List.zipIdx_cons]
      cases hinput : emailReq.intoSubmitInput parsers with
      | error validationErr =>
          obtain ⟨items, hloop, hitems⟩ := ih _ hrest
          exact ⟨_, hloop.trans (by rw [List.append_assoc]; rfl), .cons (.rejected hinput) hitems⟩
      | ok input =>
          obtain ⟨id, hid⟩ := hfirst input hinput
          obtain ⟨items, hloop, hitems⟩ := ih _ hrest
          simp only [hid]
          exact ⟨_, hloop.trans (by rw [List.append_assoc]; rfl), .cons (.accepted hinput hid) hitems⟩

theorem submitEmails_failed (showUuid : EmailId → String) (results : List BatchItemResultDto)
    (h : ¬ AllAccepted parsers outcome n emails) :
    ∃ e, submitEmails (M := Id) parsers showUuid (fun n _ => outcome n) n emails results = .error e := by
  induction emails generalizing n results with
  | nil => exact absurd (fun k _ _ hk _ => by cases hk) h
  | cons emailReq emails ih =>
      rw [submitEmails]
      cases hinput : emailReq.intoSubmitInput parsers with
      | error validationErr =>
          refine ih _ fun hrest => h (allAccepted_cons.mpr ⟨fun input hinput' => ?_, hrest⟩)
          rw [hinput] at hinput'
          cases hinput'
      | ok input =>
          cases hid : outcome n with
          | error e => exact ⟨.submit e, rfl⟩
          | ok id => exact ih _ fun hrest => h (allAccepted_cons.mpr ⟨fun _ _ => ⟨id, hid⟩, hrest⟩)

/-- The results stand in the order of the emails. Each is settled by the validation
of the email and by its own submission alone. -/
def Isolated (parsers : Parsers) (showUuid : EmailId → String) (request : BatchSubmitEmailRequest)
    (outcome : Nat → Except SubmitEmailError EmailId) (response : Except AppError BatchSubmitEmailResponse) : Prop :=
  ∃ results, response = .ok ⟨results⟩ ∧ results.length = request.emails.length ∧
    ∀ n emailReq, request.emails[n]? = some emailReq →
      match emailReq.intoSubmitInput parsers, outcome n with
      | .ok _, .ok id => results[n]? = some (.accepted (showUuid id))
      | _, _ => ∃ error, results[n]? = some (.rejected error)

/-- Without transient failures a batch reports each email by itself exactly when no
email that validates fails on an attachment that is not fetched. -/
theorem batch_isolated (parsers : Parsers) (showUuid : EmailId → String) (request : BatchSubmitEmailRequest)
    (hsize : request.emails.length ≤ maxEmailsPerBatch) (outcome : Nat → Except SubmitEmailError EmailId)
    (hpermanent : ∀ n emailReq input e, request.emails[n]? = some emailReq →
      emailReq.intoSubmitInput parsers = .ok input → outcome n = .error e → e.isTransient = false) :
    Isolated parsers showUuid request outcome
        (submitEmailBatch (M := Id) parsers showUuid (fun n _ => outcome n) request) ↔
      ∀ n emailReq input source, request.emails[n]? = some emailReq →
        emailReq.intoSubmitInput parsers = .ok input → outcome n ≠ .error (.attachmentFetch source) := by
  rw [submitEmailBatch, if_neg (Nat.not_lt.mpr hsize)]
  constructor
  · rintro ⟨results, hresponse, -, -⟩ n emailReq input source hn hinput hfails
    by_cases hall : AllAccepted parsers outcome 0 request.emails
    · obtain ⟨id, hid⟩ := hall n emailReq input hn hinput
      rw [Nat.zero_add, hfails] at hid
      cases hid
    · obtain ⟨e, he⟩ := submitEmails_failed showUuid [] hall
      rw [he] at hresponse
      cases hresponse
  · intro h
    have hall : AllAccepted parsers outcome 0 request.emails := by
      intro n emailReq input hn hinput
      rw [Nat.zero_add]
      cases hout : outcome n with
      | ok id => exact ⟨id, rfl⟩
      | error e =>
          have hp := hpermanent n emailReq input e hn hinput hout
          cases e with
          | attachmentFetch source => exact absurd hout (h n emailReq input source hn hinput)
          | persist | enqueue | attachmentStore => cases hp
    obtain ⟨items, hloop, hitems⟩ := submitEmails_accepted showUuid [] hall
    rw [hloop, List.nil_append]
    have hlength : items.length = request.emails.length := by simpa using hitems.length_eq.symm
    refine ⟨items, rfl, hlength, fun n emailReq hn => ?_⟩
    obtain ⟨hlt, rfl⟩ := List.getElem?_eq_some_iff.mp hn
    have hresult := hitems.get (by simpa using hlt) (hlength ▸ hlt)
    have hitem := List.getElem?_eq_getElem (hlength ▸ hlt)
    simp only [List.get_eq_getElem, List.getElem_zipIdx, Nat.zero_add] at hresult
    rw [hitem]
    generalize items[n] = item at hresult
    cases hresult with
    | accepted hinput hid => simp only [hinput, hid]
    | rejected hinput =>
        simp only [hinput]
        exact ⟨_, rfl⟩

def greetingRequest (recipient : String) : SubmitEmailRequest :=
  ⟨none, none, none, "from@example.com", [⟨.to, recipient⟩], .plain (some "greetings") none, .new, []⟩

def greetingInput (recipient : String) : SubmitEmailInput :=
  ⟨none, none, none, "from@example.com", [(.to, recipient)], .plain ⟨some "greetings", none, .inl rfl⟩, .new, []⟩

def greetings : BatchSubmitEmailRequest :=
  ⟨[greetingRequest "a@example.com", greetingRequest "b@example.com"]⟩

def greetingParsers : Parsers := ⟨fun s => s.toList.contains '@', fun s => some ⟨s⟩, fun _ => none⟩

def numbered (n : Nat) : EmailId := ⟨n + 1⟩

def fetchFails : Nat → Except SubmitEmailError EmailId
  | 0 => .ok ⟨1⟩
  | _ => .error (.attachmentFetch (.fetch "404"))

/-- The second of three emails has a recipient that is no address. -/
def mixedGreetings : BatchSubmitEmailRequest :=
  ⟨[greetingRequest "a@example.com", greetingRequest "nobody", greetingRequest "b@example.com"]⟩

def isAccepted : BatchItemResultDto → Bool
  | .accepted _ => true
  | .rejected _ => false

theorem batch_isolated_greetings : ∃ response,
    submitEmailBatch (M := Id) greetingParsers (fun _ => "") (fun n _ => .ok (numbered n)) mixedGreetings = .ok response ∧
      response.results.map isAccepted = [true, false, true] ∧
      Isolated greetingParsers (fun _ => "") mixedGreetings (fun n => .ok (numbered n)) (.ok response) := by
  have h : Isolated greetingParsers (fun _ => "") mixedGreetings (fun n => .ok (numbered n))
      (submitEmailBatch (M := Id) greetingParsers (fun _ => "") (fun n _ => .ok (numbered n)) mixedGreetings) := by
    refine (batch_isolated greetingParsers (fun _ => "") mixedGreetings (by decide) (fun n => .ok (numbered n)) ?_).mpr ?_
    · intro n emailReq input e _ _ h
      cases h
    · intro n emailReq input source _ _ h
      cases h
  exact ⟨_, rfl, rfl, h⟩

theorem batch_not_isolated : greetings.emails.length ≤ maxEmailsPerBatch ∧
    (∀ n e, fetchFails n = .error e → e.isTransient = false) ∧
    ¬ Isolated greetingParsers (fun _ => "") greetings fetchFails
      (submitEmailBatch (M := Id) greetingParsers (fun _ => "") (fun n _ => fetchFails n) greetings) := by
  refine ⟨by decide, ?_, ?_⟩
  · intro n e h
    cases n <;> cases h
    rfl
  · rintro ⟨results, h, -⟩
    cases h

/-- The email that the call enqueued. -/
def enqueuedBy : Exchange Sys → Option EmailId
  | ⟨.insertEntry id, .ok ()⟩ => some id
  | ⟨.send id _, .ok ()⟩ => some id
  | _ => none

/-- The emails of the entries and items that the call added to the queue. -/
def queuedBy (x : Landing machine) : List EmailId :=
  (x.after.queue.drop x.before.queue.length).map QueueEntry.emailId ++
    (x.after.memory.channel.drop x.before.memory.channel.length).map QueueItem.id

def leftBy (trace : List (Landing machine)) : List EmailId := trace.flatMap queuedBy

/-- The call added to the queue although it did not return `Ok`. -/
def Astray (x : Landing machine) : Prop := enqueuedBy x.exchange = none ∧ queuedBy x ≠ []

def Clean (trace : List (Landing machine)) : Prop := ∀ x ∈ trace, ¬ Astray x

section

variable {w w' : World} {op : Effect} {r : op.Reply} {id : EmailId}

theorem newEntries_cases (h : Performs w op w' r) :
    (w'.queue.drop w.queue.length).map QueueEntry.emailId = [] ∨
      ∃ id, op = .insertEntry id ∧ (w'.queue.drop w.queue.length).map QueueEntry.emailId = [id] := by
  rcases h.queue with hq | hq
  · simp [hq]
  · cases hq with
    | insertEntry | claimNext | leaseEntry => simp
    | claimTransaction =>
        unfold World.claimInTransaction
        split
        · exact .inl (by simpa using (List.length_filter_le _ _).trans (List.length_map _).le)
        · simp
    | deleteEntry => exact .inl (by simpa using List.length_filter_le _ _)

theorem newItems_cases (h : Performs w op w' r) :
    (w'.memory.channel.drop w.memory.channel.length).map QueueItem.id = [] ∨
      ∃ id envelope, op = .send id envelope ∧
        (w'.memory.channel.drop w.memory.channel.length).map QueueItem.id = [id] := by
  rcases h.memory with hm | hm
  · simp [hm]
  · generalize w'.memory = memory at hm
    cases hm with
    | send => simp [MemoryQueue.send]
    | recv hr =>
        obtain ⟨x, channel, hch, -, rfl⟩ := MemoryQueue.recv_eq_some hr
        simp [hch]
    | removePending => simp [MemoryQueue.remove]
    | requeuePending =>
        unfold MemoryQueue.requeue
        split <;> simp [MemoryQueue.remove]

end

section

variable {x : Landing machine} {t : List (Landing machine)} {id : EmailId}

theorem queuedBy_eq_nil (hop : ∀ id, ¬ x.op.Enqueues id) : queuedBy x = [] := by
  have hp := performs x.performed
  rcases newEntries_cases hp with hentries | ⟨id, ho, -⟩
  · rcases newItems_cases hp with hitems | ⟨id, envelope, ho, -⟩
    · rw [queuedBy, hentries, hitems, List.append_nil]
    · exact absurd (by rw [ho]; rfl) (hop id)
  · exact absurd (by rw [ho]; rfl) (hop id)

theorem queuedBy_cases (hop : x.op.Enqueues id) : queuedBy x = [] ∨ queuedBy x = [id] := by
  have hp := performs x.performed
  rcases newEntries_cases hp with hentries | ⟨id', ho, hentries⟩
  · rcases newItems_cases hp with hitems | ⟨id', envelope, ho, hitems⟩
    · exact .inl (by rw [queuedBy, hentries, hitems, List.append_nil])
    · rw [ho] at hop
      exact .inr (by rw [queuedBy, hentries, hitems, List.nil_append, show id' = id from hop])
  · rw [ho] at hop
    rcases newItems_cases hp with hitems | ⟨_, envelope, ho', -⟩
    · exact .inr (by rw [queuedBy, hentries, hitems, List.append_nil, show id' = id from hop])
    · cases ho.symm.trans ho'

theorem queuedBy_of_enqueuedBy (h : enqueuedBy x.exchange = some id) : queuedBy x = [id] := by
  obtain ⟨w, op, c, w', r, hperformed⟩ := x
  have hp := performs hperformed
  cases hp with
  | insertEntry hrow huuid hs =>
      cases hs with
      | ok => cases h; simp [queuedBy]
      | failed | landed => cases h
  | send => cases h; simp [queuedBy, MemoryQueue.send]
  | _ => cases h

theorem leftBy_snoc : leftBy (t ++ [x]) = leftBy t ++ queuedBy x := by
  rw [leftBy, List.flatMap_append, List.flatMap_singleton]
  rfl

theorem clean_snoc : Clean (t ++ [x]) ↔ Clean t ∧ ¬ Astray x := by
  simp only [Clean, List.mem_append, List.mem_singleton, or_imp, forall_and, forall_eq]

end

/-- The calls of one submission, up to its outcome. The id it has drawn is new, so
no row is found under it. -/
structure Adapters.Submitted (a : Adapters) (ids : Nat → EmailId) (x : Submission) (segment : List (Landing machine)) :
    Prop where
  answered : (a.submitEmail.execute (ids x.1.1) x.1.2).Answered (segment.map Landing.exchange) x.2
  fresh : ∀ key, ⟨.selectIdByKey key, .ok (ids x.1.1)⟩ ∉ segment.map Landing.exchange

/-- What a submission has left in the queue by its result. -/
inductive Leaves (id : EmailId) (t : List (Landing machine)) : Except SubmitEmailError EmailId → Prop
  | accepted (hleft : leftBy t = [id]) (hclean : Clean t) : Leaves id t (.ok id)
  | nothing {r} (hr : r ≠ .ok id) (hleft : leftBy t = []) (hclean : Clean t) : Leaves id t r
  | astray {e} (hleft : leftBy t = [id]) (hastray : ¬ Clean t) : Leaves id t (.error e)

def SubmitStage.Left (id : EmailId) (st : SubmitStage) (t : List (Landing machine)) : Prop :=
  match st with
  | queued _ | announcing .. => leftBy t = [id] ∧ Clean t
  | undoing _ e => Leaves id t (.error e)
  | ended r => Leaves id t r
  | _ => leftBy t = [] ∧ Clean t

section

variable {id : EmailId} {t : List (Landing machine)} {x : Landing machine} {input : SubmitEmailInput}
  {st st' : SubmitStage}

theorem afterInsert_left (h : leftBy t = [] ∧ Clean t) (key : Option String) (r : Except EmailRepositoryError Nat) :
    (SubmitStage.afterInsert key r).Left id t := by
  cases r with
  | error e => exact .nothing (by simp) h.1 h.2
  | ok affected =>
      by_cases haffected : affected = 1
      · rw [SubmitStage.afterInsert.eq_def]
        simp only [haffected, if_true]
        exact h
      · rw [SubmitStage.afterInsert.eq_def]
        simp only [haffected, if_false]
        cases key with
        | none => exact .nothing (by simp) h.1 h.2
        | some key => exact h

theorem quiet_snoc (hop : ∀ id, ¬ x.op.Enqueues id) :
    leftBy (t ++ [x]) = leftBy t ∧ (Clean (t ++ [x]) ↔ Clean t) := by
  have hnone := queuedBy_eq_nil hop
  exact ⟨by rw [leftBy_snoc, hnone, List.append_nil], clean_snoc.trans (and_iff_left fun h => h.2 hnone)⟩

theorem Leaves.quiet {r : Except SubmitEmailError EmailId} (h : Leaves id t r) (hop : ∀ id, ¬ x.op.Enqueues id) :
    Leaves id (t ++ [x]) r := by
  obtain ⟨hsame, hclean⟩ := quiet_snoc (t := t) hop
  cases h with
  | accepted hl hc => exact .accepted (hsame.trans hl) (hclean.mpr hc)
  | nothing hr hl hc => exact .nothing hr (hsame.trans hl) (hclean.mpr hc)
  | astray hl hc => exact .astray (hsame.trans hl) fun h => hc (hclean.mp h)

theorem left_of_enqueued (h : leftBy t = [] ∧ Clean t) (henq : enqueuedBy x.exchange = some id) :
    leftBy (t ++ [x]) = [id] ∧ Clean (t ++ [x]) := by
  refine ⟨by rw [leftBy_snoc, h.1, queuedBy_of_enqueuedBy henq, List.nil_append], clean_snoc.mpr ⟨h.2, fun hx => ?_⟩⟩
  cases henq.symm.trans hx.1

theorem leaves_of_failed {e : SubmitEmailError} (h : leftBy t = [] ∧ Clean t) (hop : x.op.Enqueues id)
    (hfailed : enqueuedBy x.exchange = none) : Leaves id (t ++ [x]) (.error e) := by
  rcases queuedBy_cases hop with hnone | hone
  · refine .nothing (by simp) (by rw [leftBy_snoc, h.1, hnone, List.nil_append]) (clean_snoc.mpr ⟨h.2, fun hx => ?_⟩)
    exact hx.2 hnone
  · refine .astray (by rw [leftBy_snoc, h.1, hone, List.nil_append]) fun hclean => ?_
    exact (clean_snoc.mp hclean).2 ⟨hfailed, by simp [hone]⟩

theorem SubmitStage.Left.step (h : st.Left id t) (hm : SubmitMoves a id input st x.op x.reply st')
    (hfresh : ∀ key, x.exchange ≠ ⟨.selectIdByKey key, .ok id⟩) : st'.Left id (t ++ [x]) := by
  obtain ⟨w, op, c, w', r, hp⟩ := x
  have hquiet (hop : ∀ id, ¬ op.Enqueues id) (h : leftBy t = [] ∧ Clean t) :
      leftBy (t ++ [⟨w, op, c, w', r, hp⟩]) = [] ∧ Clean (t ++ [⟨w, op, c, w', r, hp⟩]) := by
    obtain ⟨hsame, hclean⟩ := quiet_snoc (x := ⟨w, op, c, w', r, hp⟩) (t := t) hop
    exact ⟨hsame.trans h.1, hclean.mpr h.2⟩
  simp only at hm
  cases hm with
  | insertOrIgnore | insertOnConflict => exact afterInsert_left (hquiet (fun _ => not_false) h) _ _
  | @found key existing =>
      have hkept := hquiet (fun _ => not_false) h
      exact .nothing (fun heq => hfresh key (by cases heq; rfl)) hkept.1 hkept.2
  | notFound =>
      have hkept := hquiet (fun _ => not_false) h
      exact .nothing (by simp) hkept.1 hkept.2
  | rowDeleted => exact Leaves.quiet h fun _ => not_false
  | blobDeleted => exact Leaves.quiet h fun _ => not_false
  | fetched | stored | patched => exact hquiet (fun _ => not_false) h
  | fetchFailed | storeFailed | patchFailed =>
      have hkept := hquiet (fun _ => not_false) h
      exact .nothing (by simp) hkept.1 hkept.2
  | enqueued | sent => exact left_of_enqueued h rfl
  | enqueueFailed | sendFailed => exact leaves_of_failed h rfl rfl
  | drawn =>
      obtain ⟨hsame, hclean⟩ := quiet_snoc (x := ⟨w, _, c, w', _, hp⟩) (t := t) fun _ => not_false
      exact ⟨hsame.trans h.1, hclean.mpr h.2⟩
  | announced =>
      obtain ⟨hsame, hclean⟩ := quiet_snoc (x := ⟨w, _, c, w', _, hp⟩) (t := t) fun _ => not_false
      exact .accepted (hsame.trans h.1) (hclean.mpr h.2)

end

theorem Adapters.Submitted.leaves {x : Submission} {segment : List (Landing machine)} (h : a.Submitted ids x segment) :
    Leaves (ids x.1.1) segment x.2 := by
  obtain ⟨st, rfl, hst⟩ := execute_follows.answered_map h.answered (J := fun st t => st.Left (ids x.1.1) t)
    (fun st t y st' hJ hm hy => hJ.step hm fun key heq => h.fresh key (heq ▸ List.mem_map_of_mem hy))
    (l := []) ⟨rfl, fun x hx => absurd hx List.not_mem_nil⟩
  exact hst

section

variable {segments : List (List (Landing machine))}

theorem leftBy_append (t t' : List (Landing machine)) : leftBy (t ++ t') = leftBy t ++ leftBy t' := List.flatMap_append

theorem clean_append {t t' : List (Landing machine)} : Clean (t ++ t') ↔ Clean t ∧ Clean t' := List.forall_mem_append

theorem leftBy_eq_nil (h : List.Forall₂ (a.Submitted ids) calls segments) :
    leftBy segments.flatten = [] ↔ (∀ x ∈ calls, x.2 ≠ .ok (ids x.1.1)) ∧ Clean segments.flatten := by
  induction h with
  | nil => simp [leftBy, Clean]
  | @cons x segment calls segments hx h ih =>
      rw [List.flatten_cons, leftBy_append, List.append_eq_nil_iff, ih, List.forall_mem_cons, clean_append]
      have hleaves := hx.leaves
      generalize x.2 = r at hleaves
      cases hleaves with
      | accepted hl hc => simp [hl]
      | nothing hr hl hc => simp [hl, hr, hc]
      | astray hl hc => simp [hl, hc]

theorem clean_of_ok (h : List.Forall₂ (a.Submitted ids) calls segments) (hok : ∀ x ∈ calls, ∃ id, x.2 = .ok id) :
    Clean segments.flatten := by
  induction h with
  | nil => exact fun x hx => absurd hx List.not_mem_nil
  | @cons x segment calls segments hx h ih =>
      obtain ⟨⟨id, hid⟩, hrest⟩ := List.forall_mem_cons.mp hok
      have hleaves := hx.leaves
      rw [hid] at hleaves
      rw [List.flatten_cons, clean_append]
      refine ⟨?_, ih hrest⟩
      cases hleaves with
      | accepted hl hc | nothing hr hl hc => exact hc

theorem leftBy_sublist (h : List.Forall₂ (a.Submitted ids) calls segments) :
    (leftBy segments.flatten).Sublist (calls.map fun x => ids x.1.1) := by
  induction h with
  | nil => exact .slnil
  | @cons x segment calls segments hx h ih =>
      rw [List.flatten_cons, leftBy_append, List.map_cons, ← List.singleton_append]
      refine List.Sublist.append ?_ ih
      have hleaves := hx.leaves
      generalize x.2 = r at hleaves
      cases hleaves with
      | accepted hl | astray hl => rw [hl]
      | nothing hr hl => rw [hl]; exact List.nil_sublist _

end

/-- An aborted batch leaves no email in the queue, and with a retry of it each of its emails is
put into the queue at most once. -/
structure AbortsWhole (a : Adapters) (parsers : Parsers) (showUuid : EmailId → String) (ids : Nat → EmailId)
    (request : BatchSubmitEmailRequest) (trace : List (Landing machine)) : Prop where
  nothingLeft : leftBy trace = []
  notTwice : ∀ ids' calls segments response, Function.Injective ids' →
    (batchProgram parsers showUuid request).Answered calls response → List.Forall₂ (a.Submitted ids') calls segments →
      ∀ n, (leftBy trace).count (ids n) + (leftBy segments.flatten).count (ids' n) ≤ 1

/-- The submissions before one that fails have accepted no new email. -/
def FailsFirst (ids : Nat → EmailId) (calls : List Submission) : Prop :=
  ∀ done op e, calls = done ++ [⟨op, .error e⟩] → ∀ x ∈ done, x.2 ≠ .ok (ids x.1.1)

theorem batchProgram_answered {response : Except AppError BatchSubmitEmailResponse}
    (h : (batchProgram parsers showUuid request).Answered calls response) :
    (∃ done op e, calls = done ++ [⟨op, .error e⟩] ∧ response = .error (.submit e) ∧ ∀ x ∈ done, ∃ id, x.2 = .ok id) ∨
      (calls = [] ∧ ∃ e, response = .error e) ∨
      (∃ results, response = .ok results) ∧ ∀ x ∈ calls, ∃ id, x.2 = .ok id := by
  unfold batchProgram Catapulte.submitEmailBatch at h
  split at h
  · obtain ⟨rfl, rfl⟩ := h
    exact .inr (.inl ⟨rfl, _, rfl⟩)
  · obtain ⟨t₁, t₂, r, rfl, hloop, hrest⟩ := Program.answered_bind.mp h
    rcases submitEmails_answered hloop with ⟨done, op, e, rfl, rfl, hdone⟩ | ⟨⟨results, rfl⟩, hok⟩
    · obtain ⟨rfl, rfl⟩ := hrest
      exact .inl ⟨done, op, e, List.append_nil _, rfl, hdone⟩
    · obtain ⟨rfl, rfl⟩ := hrest
      exact .inr (.inr ⟨⟨_, rfl⟩, by rwa [List.append_nil]⟩)

theorem submitEmails_ordered {r : Except AppError (List BatchItemResultDto)}
    (h : (submitEmails parsers showUuid (fun n input => @Program.call Submissions (n, input)) n emails results).Answered
      calls r) : (calls.map fun x => x.1.1).Pairwise (· < ·) ∧ ∀ x ∈ calls, n ≤ x.1.1 := by
  induction emails generalizing n results calls with
  | nil =>
      obtain ⟨rfl, rfl⟩ := h
      exact ⟨.nil, by simp⟩
  | cons emailReq emails ih =>
      rw [submitEmails] at h
      cases hinput : emailReq.intoSubmitInput parsers with
      | error validationErr =>
          simp only [hinput] at h
          obtain ⟨hordered, hfrom⟩ := ih h
          exact ⟨hordered, fun x hx => Nat.le_of_succ_le (hfrom x hx)⟩
      | ok input =>
          simp only [hinput] at h
          obtain ⟨outcome, calls, rfl, h⟩ := h
          cases outcome with
          | error e =>
              obtain ⟨rfl, rfl⟩ := h
              simp
          | ok id =>
              obtain ⟨hordered, hfrom⟩ := ih h
              have habove : ∀ m ∈ calls.map fun x => x.1.1, n < m := List.forall_mem_map.mpr hfrom
              refine ⟨.cons habove hordered, List.forall_mem_cons.mpr ⟨Nat.le_refl n, ?_⟩⟩
              exact fun x hx => Nat.le_of_succ_le (hfrom x hx)

theorem batchProgram_nodup {response : Except AppError BatchSubmitEmailResponse}
    (h : (batchProgram parsers showUuid request).Answered calls response) : (calls.map fun x => x.1.1).Nodup := by
  unfold batchProgram Catapulte.submitEmailBatch at h
  split at h
  · obtain ⟨rfl, rfl⟩ := h
    exact List.nodup_nil
  · obtain ⟨t₁, t₂, r, rfl, hloop, hrest⟩ := Program.answered_bind.mp h
    have hnil : t₂ = [] := by cases r <;> exact hrest.1
    rw [hnil, List.append_nil]
    exact (submitEmails_ordered hloop).1.imp Nat.ne_of_lt

theorem count_leftBy_le {response : Except AppError BatchSubmitEmailResponse} {segments : List (List (Landing machine))}
    (hids : Function.Injective ids) (hcalls : (batchProgram parsers showUuid request).Answered calls response)
    (h : List.Forall₂ (a.Submitted ids) calls segments) : (leftBy segments.flatten).count (ids n) ≤ 1 := by
  have hnodup : (calls.map fun x => ids x.1.1).Nodup := by
    have hmap := (batchProgram_nodup hcalls).map hids
    rwa [List.map_map] at hmap
  exact ((leftBy_sublist h).count_le _).trans (List.nodup_iff_count_le_one.mp hnodup _)

theorem batch_aborts_whole (a : Adapters) (parsers : Parsers) (showUuid : EmailId → String) (ids : Nat → EmailId)
    (request : BatchSubmitEmailRequest) {calls : List Submission} {response : Except AppError BatchSubmitEmailResponse}
    (hcalls : (batchProgram parsers showUuid request).Answered calls response)
    {segments : List (List (Landing machine))} (hsegments : List.Forall₂ (a.Submitted ids) calls segments) :
    (∀ e, response = .error e → AbortsWhole a parsers showUuid ids request segments.flatten) ↔
      FailsFirst ids calls ∧ Clean segments.flatten := by
  constructor
  · intro h
    rcases batchProgram_answered hcalls with ⟨done, op, e, hdone, rfl, -⟩ | ⟨rfl, e, rfl⟩ | ⟨-, hok⟩
    · obtain ⟨hnew, hclean⟩ := (leftBy_eq_nil hsegments).mp (h _ rfl).nothingLeft
      exact ⟨fun done op e heq x hx => hnew x (heq ▸ List.mem_append_left _ hx), hclean⟩
    · cases hsegments
      exact ⟨fun done op e heq => by simp at heq, fun x hx => absurd hx List.not_mem_nil⟩
    · refine ⟨fun done op e heq => ?_, clean_of_ok hsegments hok⟩
      obtain ⟨id, hid⟩ := hok ⟨op, .error e⟩ (by simp [heq])
      cases hid
  · rintro ⟨hfirst, hclean⟩ e he
    have hnothing : leftBy segments.flatten = [] := by
      refine (leftBy_eq_nil hsegments).mpr ⟨?_, hclean⟩
      rcases batchProgram_answered hcalls with ⟨done, op, e', rfl, -, -⟩ | ⟨rfl, -⟩ | ⟨⟨results, hresults⟩, -⟩
      · intro x hx
        rcases List.mem_append.mp hx with hx | hx
        · exact hfirst done op e' rfl x hx
        · rw [List.mem_singleton.mp hx]
          simp
      · simp
      · rw [hresults] at he
        cases he
    refine ⟨hnothing, fun ids' calls' segments' response' hids hcalls' hsegments' n => ?_⟩
    rw [hnothing, List.count_nil, Nat.zero_add]
    exact count_leftBy_le hids hcalls' hsegments'

theorem submissions_of_run {ι : Type} [DecidableEq ι] {w : World}
    {p : ι → Prog (Except AppError BatchSubmitEmailResponse)} {as : List (Action ι Choice Drift)}
    {s : Pool Sys World ι (Except AppError BatchSubmitEmailResponse)} {i : ι}
    {response : Except AppError BatchSubmitEmailResponse} (hp : p i = a.submitEmailBatch parsers showUuid ids request)
    (hr : (Pool.start w p).run machine as = some s) (hd : s.task i = some (.done response)) :
    ∃ calls segments, (batchProgram parsers showUuid request).Answered calls response ∧
      List.Forall₂ (fun x segment => (a.submitEmail.execute (ids x.1.1) x.1.2).Answered (segment.map Landing.exchange) x.2)
        calls segments ∧ (Pool.start w p).landings machine i as = segments.flatten := by
  have hanswered := Pool.answered_of_run hr hd
  have hinterpret : (batchProgram parsers showUuid request).interpret
      (fun x : Submissions.Op => a.submitEmail.execute (ids x.1) x.2) = a.submitEmailBatch parsers showUuid ids request :=
    interpret_batchProgram
  rw [hp, ← hinterpret, Pool.trace_of_run hr i] at hanswered
  obtain ⟨calls, segments, hcalls, hsegments, hflatten⟩ := Program.answered_interpret.mp hanswered
  obtain ⟨cut, rfl, hcut⟩ := exists_of_map_eq_flatten hflatten
  exact ⟨calls, cut, hcalls, List.forall₂_map_right_iff.mp hsegments, hcut⟩

abbrev sqliteQueued : Adapters := ⟨.sqlite, .sqlite, .fromSecs 3600⟩

def greetingEnvelope (recipient : String) : Envelope := (greetingInput recipient).envelope []

def rowStored : World := World.empty.insertEmail (numbered 0) (greetingEnvelope "a@example.com")

def rowInserted : Landing machine :=
  ⟨.empty, .insertOrIgnore (numbered 0) (greetingEnvelope "a@example.com"), {}, rowStored, .ok 1, rfl⟩

def enqueueRefused : List (Landing machine) :=
  [rowInserted,
    ⟨rowStored, .insertEntry (numbered 0), { fails := true }, rowStored, .error (.storage "inserting into email_queue"),
      rfl⟩,
    ⟨rowStored, .deleteEmail (numbered 0), {}, rowStored.deleteEmail (numbered 0), .ok (), rfl⟩]

/-- The entry is stored although the enqueue fails, and the row cannot be deleted. -/
def enqueueAstray : List (Landing machine) :=
  [rowInserted,
    ⟨rowStored, .insertEntry (numbered 0), { fails := true, lands := true, uuid := 1 }, rowStored.insertEntry 1 (numbered 0),
      .error (.storage "inserting into email_queue"), rfl⟩,
    ⟨rowStored.insertEntry 1 (numbered 0), .deleteEmail (numbered 0), {}, rowStored.insertEntry 1 (numbered 0),
      .error (.storage "deleting email"), rfl⟩]

def uuidDrawn : World := { rowStored.insertEntry 1 (numbered 0) with lastUuid := 2 }

def firstAccepted : World := uuidDrawn.insertEvent 2 (.queued (numbered 0) none)

def enqueueAccepted : List (Landing machine) :=
  [rowInserted,
    ⟨rowStored, .insertEntry (numbered 0), { uuid := 1 }, rowStored.insertEntry 1 (numbered 0), .ok (), rfl⟩,
    ⟨rowStored.insertEntry 1 (numbered 0), .newUuid, { uuid := 2 }, uuidDrawn, 2, rfl⟩,
    ⟨uuidDrawn, .insertEvent 2 (.queued (numbered 0) none), {}, firstAccepted, .ok (), rfl⟩]

def insertRefused : List (Landing machine) :=
  [⟨firstAccepted, .insertOrIgnore (numbered 1) (greetingEnvelope "b@example.com"), { fails := true }, firstAccepted,
    .error (.storage "inserting email"), rfl⟩]

def enqueueFailed : SubmitEmailError := .enqueue (.storage "inserting into email_queue")

def insertFailed : SubmitEmailError := .persist (.storage "inserting email")

theorem submitted_refused : sqliteQueued.Submitted numbered ⟨(0, greetingInput "a@example.com"), .error enqueueFailed⟩
    enqueueRefused where
  answered := ⟨_, _, rfl, _, _, rfl, _, _, rfl, rfl, rfl⟩
  fresh key h := by simp [enqueueRefused, rowInserted, Landing.exchange] at h

theorem submitted_accepted : sqliteQueued.Submitted numbered ⟨(0, greetingInput "a@example.com"), .ok (numbered 0)⟩
    enqueueAccepted where
  answered := ⟨_, _, rfl, _, _, rfl, _, _, rfl, _, _, rfl, rfl, rfl⟩
  fresh key h := by simp [enqueueAccepted, rowInserted, Landing.exchange] at h

theorem submitted_failed : sqliteQueued.Submitted numbered ⟨(1, greetingInput "b@example.com"), .error insertFailed⟩
    insertRefused where
  answered := ⟨_, _, rfl, rfl, rfl⟩
  fresh key h := by simp [insertRefused, Landing.exchange] at h

def failsAtOnce : List Submission := [⟨(0, greetingInput "a@example.com"), .error enqueueFailed⟩]

def failsLater : List Submission :=
  [⟨(0, greetingInput "a@example.com"), .ok (numbered 0)⟩, ⟨(1, greetingInput "b@example.com"), .error insertFailed⟩]

theorem greetings_failsAtOnce : (batchProgram greetingParsers (fun _ => "") greetings).Answered failsAtOnce
    (.error (.submit enqueueFailed)) := ⟨_, _, rfl, rfl, rfl⟩

theorem greetings_failsLater : (batchProgram greetingParsers (fun _ => "") greetings).Answered failsLater
    (.error (.submit insertFailed)) := ⟨_, _, rfl, _, _, rfl, rfl, rfl⟩

theorem batch_aborts_whole_first :
    AbortsWhole sqliteQueued greetingParsers (fun _ => "") numbered greetings enqueueRefused := by
  have hsegments : List.Forall₂ (sqliteQueued.Submitted numbered) failsAtOnce [enqueueRefused] :=
    .cons submitted_refused .nil
  have hfirst : FailsFirst numbered failsAtOnce := by
    intro done op e h
    cases done with
    | nil => simp
    | cons x done => simp [failsAtOnce] at h
  have hclean : Clean enqueueRefused := by
    intro x hx hastray
    simp only [enqueueRefused, List.mem_cons, List.not_mem_nil, or_false] at hx
    rcases hx with rfl | rfl | rfl <;> exact hastray.2 rfl
  have h := (batch_aborts_whole sqliteQueued greetingParsers (fun _ => "") numbered greetings greetings_failsAtOnce
    hsegments).mpr ⟨hfirst, by simpa using hclean⟩ _ rfl
  simpa using h

/-- The second email aborts the batch when the first one is in the queue. -/
theorem batch_leaves_email : ∃ request calls segments e, request.emails.length ≤ maxEmailsPerBatch ∧
    (batchProgram greetingParsers (fun _ => "") request).Answered calls (.error e) ∧
    List.Forall₂ (sqliteQueued.Submitted numbered) calls segments ∧
    ¬ AbortsWhole sqliteQueued greetingParsers (fun _ => "") numbered request segments.flatten := by
  refine ⟨greetings, failsLater, [enqueueAccepted, insertRefused], _, by decide,
    greetings_failsLater, .cons submitted_accepted (.cons submitted_failed .nil), fun h => ?_⟩
  have hnothing := h.nothingLeft
  cases hnothing

/-- The email whose own submission fails can be in the queue, too. -/
example : (sqliteQueued.submitEmail.execute (numbered 0) (greetingInput "a@example.com")).Answered
    (enqueueAstray.map Landing.exchange) (.error enqueueFailed) ∧ leftBy enqueueAstray = [numbered 0] :=
  ⟨⟨_, _, rfl, _, _, rfl, _, _, rfl, rfl, rfl⟩, rfl⟩

end Catapulte
