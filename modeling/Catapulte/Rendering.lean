import Catapulte.Domain.ProcessQueuedEmail
import Catapulte.Queue.Jetstream

namespace Catapulte

open Async Async.Program

namespace MiniJinja

variable (jinja : MiniJinja) (vars : Json.Map)

def Expands (field expanded : Option String) : Prop :=
  Option.Rel (fun source s => jinja.renderStr vars source = .ok s) field expanded

def ExpandsBody : ResolvedBody → InterpolatedBody → Prop
  | .plain p, .plain p' => jinja.Expands vars p.text p'.text ∧ jinja.Expands vars p.html p'.html
  | .mjml source, .mjml s => jinja.renderStr vars source = .ok s
  | _, _ => False

variable {jinja vars}

theorem expands_of_mapM {field expanded : Option String} (h : field.mapM (jinja.renderStr vars) = .ok expanded) :
    jinja.Expands vars field expanded := by
  cases field with
  | none =>
      cases h
      exact .none
  | some source =>
      cases hs : jinja.renderStr vars source with
      | error e =>
          rw [Option.mapM_some, hs] at h
          cases h
      | ok s =>
          rw [Option.mapM_some, hs] at h
          cases h
          exact .some hs

theorem expands_self_iff {field : Option String} :
    jinja.Expands vars field field ↔ ∀ source ∈ field, jinja.renderStr vars source = .ok source := by
  cases field with
  | none => exact ⟨fun _ source hs => (by cases hs), fun _ => .none⟩
  | some source =>
      constructor
      · rintro (h | _) s hs
        cases hs
        exact h
      · intro h
        exact .some (h source rfl)

theorem expandsBody_of_interpolate {resolved : ResolvedBody} {interpolated : InterpolatedBody}
    (h : jinja.interpolate vars resolved = .ok interpolated) : jinja.ExpandsBody vars resolved interpolated := by
  cases resolved with
  | mjml source =>
      rw [interpolate] at h
      cases hs : jinja.renderStr vars source with
      | error e =>
          rw [hs] at h
          cases h
      | ok s =>
          rw [hs] at h
          cases h
          exact hs
  | plain p =>
      rw [interpolate, interpolatePlain] at h
      obtain ⟨text, htext, h⟩ := exists_of_bind_eq_ok h
      obtain ⟨html, hhtml, h⟩ := exists_of_bind_eq_ok h
      split at h
      · cases h
      · rename_i plain hplain
        rw [Plain.tryNew] at hplain
        split at hplain
        · cases hplain
          cases h
          exact ⟨expands_of_mapM htext, expands_of_mapM hhtml⟩
        · cases hplain

end MiniJinja

namespace Ports

structure AttachmentRead where
  ref : AttachmentRef
  reader : ReaderHandle
  bytes : List UInt8

def AttachmentRead.calls (x : AttachmentRead) : List (Exchange Ports) :=
  [⟨.get x.ref.blob, .ok x.reader⟩, ⟨.readToEnd x.reader, .ok x.bytes⟩]

def AttachmentRead.resolved (x : AttachmentRead) : ResolvedAttachment := ⟨x.ref.filename, x.ref.contentType, x.bytes⟩

theorem answered_resolveAttachments {refs : List AttachmentRef} {resolved out : List ResolvedAttachment}
    {calls : List (Exchange Ports)} (h : (resolveAttachments refs resolved).Answered calls (.ok out)) :
    ∃ reads : List AttachmentRead, reads.map AttachmentRead.ref = refs ∧ calls = reads.flatMap AttachmentRead.calls ∧
      out = resolved ++ reads.map AttachmentRead.resolved := by
  induction refs generalizing resolved calls with
  | nil =>
      obtain ⟨rfl, hout⟩ := h
      cases hout
      exact ⟨[], rfl, rfl, (List.append_nil _).symm⟩
  | cons att refs ih =>
      obtain ⟨got, rest, rfl, h⟩ := h
      cases got with
      | error e =>
          obtain ⟨-, hout⟩ := h
          cases hout
      | ok reader =>
          obtain ⟨read, rest, rfl, h⟩ := h
          cases read with
          | error e =>
              obtain ⟨-, hout⟩ := h
              cases hout
          | ok buf =>
              obtain ⟨reads, rfl, rfl, rfl⟩ := ih h
              refine ⟨⟨att, reader, buf⟩ :: reads, rfl, rfl, ?_⟩
              rw [List.map_cons, List.append_assoc]
              rfl

theorem resolveAttachments_only {refs : List AttachmentRef} {resolved : List ResolvedAttachment} :
    (resolveAttachments refs resolved).Only fun op : PortCall => ∀ email, op ≠ .send email := by
  induction refs generalizing resolved with
  | nil => trivial
  | cons att refs ih =>
      refine ⟨fun email => (by intro h; cases h), fun got => ?_⟩
      cases got with
      | error e => trivial
      | ok reader =>
          refine ⟨fun email => (by intro h; cases h), fun read => ?_⟩
          cases read with
          | error e => trivial
          | ok buf => exact ih

/-- What the ports answered before the email is sent. -/
structure Stages where
  resolved : ResolvedBody
  interpolated : InterpolatedBody
  rendered : RenderedBody
  reads : List AttachmentRead

def Stages.calls (stages : Stages) (envelope : Envelope) : List (Exchange Ports) :=
  ⟨.resolve envelope.body, .ok stages.resolved⟩ :: ⟨.render stages.interpolated, .ok stages.rendered⟩ ::
    stages.reads.flatMap AttachmentRead.calls

/-- The calls before a send are those of the stages, each of them once and all of them
successful: the send is the first. What is sent is what the stages made of the envelope. -/
structure Pipelined (jinja : MiniJinja) (envelope : Envelope) (calls : List (Exchange Ports)) (email : OutboundMessage)
    (stages : Stages) : Prop where
  calls_eq : calls = stages.calls envelope
  interpolated : jinja.interpolate envelope.vars stages.resolved = .ok stages.interpolated
  expanded : jinja.ExpandsBody envelope.vars stages.resolved stages.interpolated
  body : email.body = stages.rendered
  refs : stages.reads.map AttachmentRead.ref = envelope.attachments
  attachments : email.attachments = stages.reads.map AttachmentRead.resolved
  sender : email.sender = envelope.sender
  recipients : email.recipients = envelope.recipients

/-- Every template of the envelope reaches the recipient expanded. -/
structure HandedOver (jinja : MiniJinja) (envelope : Envelope) (calls : List (Exchange Ports))
    (email : OutboundMessage) : Prop where
  pipelined : ∃ stages, Pipelined jinja envelope calls email stages
  subject : jinja.Expands envelope.vars envelope.subject email.subject

variable {jinja : MiniJinja} {envelope : Envelope} {calls : List (Exchange Ports)} {email : OutboundMessage}
  {next : Except SendError SenderName → Program Ports (Except ProcessQueuedEmailError SenderName)}

theorem handOver_eq {rendered : RenderedBody} {attachments : List ResolvedAttachment} :
    handOver envelope rendered attachments = await (I := Ports) (PortCall.send
      ⟨⟨envelope.sender⟩, envelope.subject, envelope.recipients, rendered, attachments⟩) fun
    | .error e => done (.error (.send e))
    | .ok senderName => done (.ok senderName) := rfl

theorem handOver_sends {rendered : RenderedBody} {attachments : List ResolvedAttachment}
    (h : Runs (handOver envelope rendered attachments) calls (await (.send email) next)) :
    calls = [] ∧ email = ⟨⟨envelope.sender⟩, envelope.subject, envelope.recipients, rendered, attachments⟩ := by
  rcases runs_await h with ⟨rfl, hq⟩ | ⟨r, rest, -, hrest⟩
  · cases hq
    exact ⟨rfl, rfl⟩
  · cases r with
    | error e => cases (runs_done hrest).2
    | ok senderName => cases (runs_done hrest).2

theorem execute_eq : execute jinja envelope = await (I := Ports) (PortCall.resolve envelope.body) fun
    | .error e => done (.error (.resolve e.display))
    | .ok resolved =>
        match jinja.interpolate envelope.vars resolved with
        | .error e => done (.error (.interpolate e.display))
        | .ok interpolated => await (I := Ports) (PortCall.render interpolated) fun
            | .error e => done (.error (.render e.display))
            | .ok rendered => resolveAttachments envelope.attachments [] >>= fun
                | .error e => done (.error e)
                | .ok attachments => handOver envelope rendered attachments := rfl

theorem sends_of_resolveAttachments {rendered : RenderedBody}
    (h : Runs (resolveAttachments envelope.attachments [] >>= fun
      | .error e => done (.error e)
      | .ok attachments => handOver envelope rendered attachments) calls (await (I := Ports) (PortCall.send email) next)) :
    ∃ reads : List AttachmentRead, reads.map AttachmentRead.ref = envelope.attachments ∧
      calls = reads.flatMap AttachmentRead.calls ∧
      email = ⟨⟨envelope.sender⟩, envelope.subject, envelope.recipients, rendered,
        reads.map AttachmentRead.resolved⟩ := by
  rcases runs_bind h with ⟨op, next', hp, hq⟩ | ⟨calls₁, calls₂, out, rfl, hout, hrest⟩
  · -- The loop awaits a blob or its bytes, never a send.
    cases hq
    exact absurd rfl ((resolveAttachments_only.runs hp).2.1 email)
  · cases out with
    | error e => cases (runs_done hrest).2
    | ok attachments =>
        obtain ⟨rfl, rfl⟩ := handOver_sends hrest
        obtain ⟨reads, hrefs, rfl, rfl⟩ := answered_resolveAttachments hout
        exact ⟨reads, hrefs, List.append_nil _, rfl⟩

theorem execute_pipelined (h : Runs (execute jinja envelope) calls (await (I := Ports) (PortCall.send email) next)) :
    (∃ stages, Pipelined jinja envelope calls email stages) ∧ email.subject = envelope.subject := by
  rw [execute_eq] at h
  rcases runs_await h with ⟨-, hq⟩ | ⟨r, rest, rfl, hresolved⟩
  · cases hq
  cases r with
  | error e => cases (runs_done hresolved).2
  | ok resolved =>
      dsimp only at hresolved
      cases hinterpolate : jinja.interpolate envelope.vars resolved with
      | error e =>
          rw [hinterpolate] at hresolved
          cases (runs_done hresolved).2
      | ok interpolated =>
          rw [hinterpolate] at hresolved
          rcases runs_await hresolved with ⟨-, hq⟩ | ⟨r, rest, rfl, hrendered⟩
          · cases hq
          cases r with
          | error e => cases (runs_done hrendered).2
          | ok rendered =>
              obtain ⟨reads, hrefs, rfl, rfl⟩ := sends_of_resolveAttachments hrendered
              refine ⟨⟨⟨resolved, interpolated, rendered, reads⟩, ?_⟩, rfl⟩
              exact ⟨rfl, hinterpolate, MiniJinja.expandsBody_of_interpolate hinterpolate, rfl, hrefs, rfl, rfl, rfl⟩

theorem runs_resolveAttachments {k : Except ProcessQueuedEmailError (List ResolvedAttachment) →
      Program Ports (Except ProcessQueuedEmailError SenderName)} (reads : List AttachmentRead)
    (resolved : List ResolvedAttachment) :
    Runs (resolveAttachments (reads.map AttachmentRead.ref) resolved >>= k) (reads.flatMap AttachmentRead.calls)
      (k (.ok (resolved ++ reads.map AttachmentRead.resolved))) := by
  induction reads generalizing resolved with
  | nil =>
      rw [List.map_nil, List.map_nil, List.append_nil]
      exact .refl
  | cons x reads ih =>
      have hrest := ih (resolved ++ [x.resolved])
      rw [List.append_assoc] at hrest
      exact .cons (.cons hrest)

theorem execute_sends (stages : Stages) (hinterpolate : jinja.interpolate envelope.vars stages.resolved = .ok stages.interpolated)
    (hrefs : stages.reads.map AttachmentRead.ref = envelope.attachments) :
    ∃ next, Runs (execute jinja envelope) (stages.calls envelope) (await (I := Ports) (PortCall.send
      ⟨⟨envelope.sender⟩, envelope.subject, envelope.recipients, stages.rendered,
        stages.reads.map AttachmentRead.resolved⟩) next) := by
  have hloop := runs_resolveAttachments (k := fun
    | .error e => done (.error e)
    | .ok attachments => handOver envelope stages.rendered attachments) stages.reads []
  rw [List.nil_append] at hloop
  dsimp only at hloop
  rw [handOver_eq] at hloop
  rw [execute_eq, ← hrefs]
  apply Exists.intro
  apply Runs.cons
  dsimp only
  rw [hinterpolate]
  apply Runs.cons
  exact hloop

/-- An email is handed over as its envelope demands just when the engine leaves the
subject as it is. -/
theorem execute_handedOver_iff (h : Runs (execute jinja envelope) calls (await (.send email) next)) :
    HandedOver jinja envelope calls email ↔
      ∀ source ∈ envelope.subject, jinja.renderStr envelope.vars source = .ok source := by
  obtain ⟨hpipelined, hsubject⟩ := execute_pipelined h
  constructor
  · intro hover
    have hexpands := hover.subject
    rw [hsubject] at hexpands
    exact MiniJinja.expands_self_iff.mp hexpands
  · intro hself
    refine ⟨hpipelined, ?_⟩
    rw [hsubject]
    exact MiniJinja.expands_self_iff.mpr hself

/-- Each pair of braces gives way to the string of the variable that it names. -/
def fillIn (vars : Json.Map) : Nat → List Char → List Char
  | n + 1, '{' :: '{' :: cs =>
      let value :=
        match vars.entries.lookup (String.ofList (Nats.trim (cs.takeWhile (· ≠ '}')))) with
        | some (.string s) => s.toList
        | _ => []
      value ++ fillIn vars n ((cs.dropWhile (· ≠ '}')).drop 2)
  | n + 1, c :: cs => c :: fillIn vars n cs
  | _, _ => []

def braceEngine : MiniJinja where
  Template := List Char
  addTemplate source := .ok source.toList
  render tmpl vars := .ok (String.ofList (fillIn vars tmpl.length tmpl))

def inlineMjml (subject : String) : Envelope where
  idempotencyKey := none
  correlationId := none
  subject := some subject
  sender := "noreply@example.com"
  recipients := [(.to, "alice@example.com")]
  body := .mjml (.inline "<mj-text>Hi {{ name }}</mj-text>")
  vars := .single "name" (.string "Alice")
  attachments := [⟨"a.txt", "text/plain", 2, ⟨"fs", "k"⟩⟩]

def goodStages : Stages where
  resolved := .mjml "<mj-text>Hi {{ name }}</mj-text>"
  interpolated := .mjml "<mj-text>Hi Alice</mj-text>"
  rendered := ⟨⟨none, some "<p>Hi Alice</p>", .inr rfl⟩⟩
  reads := [⟨⟨"a.txt", "text/plain", 2, ⟨"fs", "k"⟩⟩, ⟨7⟩, [104, 105]⟩]

theorem execute_inlineMjml (subject : String) : ∃ next, Runs (execute braceEngine (inlineMjml subject))
    (goodStages.calls (inlineMjml subject)) (await (I := Ports) (PortCall.send ⟨⟨"noreply@example.com"⟩, some subject,
      [(.to, "alice@example.com")], goodStages.rendered, [⟨"a.txt", "text/plain", [104, 105]⟩]⟩) next) :=
  execute_sends goodStages rfl rfl

/-- The subject holds no template. -/
theorem execute_handedOver_welcome : HandedOver braceEngine (inlineMjml "Welcome") (goodStages.calls (inlineMjml "Welcome"))
    ⟨⟨"noreply@example.com"⟩, some "Welcome", [(.to, "alice@example.com")], goodStages.rendered,
      [⟨"a.txt", "text/plain", [104, 105]⟩]⟩ := by
  obtain ⟨next, hruns⟩ := execute_inlineMjml "Welcome"
  refine (execute_handedOver_iff hruns).mpr fun source hsource => ?_
  cases hsource
  rfl

/-- The subject of the manual's example reaches the recipient as a template. -/
theorem execute_leaves_subject : ∃ email next,
    Runs (execute braceEngine (inlineMjml "Hi {{ name }}")) (goodStages.calls (inlineMjml "Hi {{ name }}"))
      (await (I := Ports) (PortCall.send email) next) ∧
    braceEngine.renderStr (.single "name" (.string "Alice")) "Hi {{ name }}" = .ok "Hi Alice" ∧
    email.subject = some "Hi {{ name }}" ∧
    ¬ HandedOver braceEngine (inlineMjml "Hi {{ name }}") (goodStages.calls (inlineMjml "Hi {{ name }}")) email := by
  obtain ⟨next, hruns⟩ := execute_inlineMjml "Hi {{ name }}"
  have hrendered : braceEngine.renderStr (.single "name" (.string "Alice")) "Hi {{ name }}" = .ok "Hi Alice" := by rfl
  refine ⟨_, next, hruns, hrendered, rfl, fun hover => ?_⟩
  cases hover.subject with
  | some hself =>
      have hsame := Except.ok.inj (hrendered.symm.trans hself)
      revert hsame
      decide

end Ports

end Catapulte
