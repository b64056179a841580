import Catapulte.Lineage
import Catapulte.Status

namespace Catapulte

open Async

variable {ι : Type} {a : Adapters} {jobs : ι → Job} {w : World} {s : System ι} {as : List (Act ι)}
  {calls : List (ι × Call Sys World)} {i : ι} {id : EmailId} {item : DequeuedEmail} {outcome : Outcome}

/-- What the workers may publish for an email from its attempt `k` on. -/
inductive Story (id : EmailId) : Nat → List LifecycleEvent → Prop
  | nothing {k} : Story id k []
  | sending {k corr} : Story id k [.sending id k corr]
  | sent {k corr senderName corr'} : Story id k [.sending id k corr, .sent id senderName corr']
  | failed {k corr reason cls senderName corr'} : Story id k
      [.sending id k corr, .failed id k reason cls senderName corr']
  | retrying {k corr reason cls senderName corr' rest} (hk : k < maxAttempts) (h : Story id (k + 1) rest) : Story id k
      (.sending id k corr :: .retrying id k reason cls senderName corr' :: rest)

def LifecycleEvent.isSending : LifecycleEvent → Bool
  | sending .. => true
  | _ => false

def Deed.settles : Deed → Bool
  | ack .. | nack .. => true
  | _ => false

def Deed.deleted : Deed → Option BlobRef
  | delete ref => some ref
  | _ => none

def ProcessQueuedEmailError.Permanent (e : ProcessQueuedEmailError) : Prop := ∃ err, e = .send err ∧ err.isTransient = false

structure DeliveryRules [DecidableEq ι] (s : System ι) (i : ι) (item : DequeuedEmail) : Prop where
  settles : (deeds i s.calls).countP Deed.settles ≤ 1 ∧ (Ended s i → (deeds i s.calls).countP Deed.settles = 1)
  publishes : ∀ pre event post, deeds i s.calls = pre ++ .publish event :: post →
    (event = item.sendingEvent ∧ pre = []) ∨
    (∃ senderName, event = item.sentEvent senderName ∧ .result (.ok senderName) ∈ pre ∧ .ack item.token true ∈ pre) ∨
    (∃ e, event = item.failedEvent e ∧ .result (.error e) ∈ pre ∧ .ack item.token true ∈ pre) ∨
    (∃ e, event = item.retryingEvent e ∧ .result (.error e) ∈ pre ∧ .nack item.token (backoff item.attempt) true ∈ pre)
  fails : Ended s i → ((∃ e, .publish (item.failedEvent e) ∈ deeds i s.calls) ↔
    ∃ e, .result (.error e) ∈ deeds i s.calls ∧ (e.Permanent ∨ maxAttempts ≤ item.attempt))
  cleans : Ended s i → (∃ senderName, .result (.ok senderName) ∈ deeds i s.calls) →
    .setAttachments item.id [] ∈ deeds i s.calls ∧
      (deeds i s.calls).filterMap Deed.deleted = item.envelope.attachments.map AttachmentRef.blob
  keeps : (∀ senderName, .result (.ok senderName) ∉ deeds i s.calls) →
    (∀ id attachments, .setAttachments id attachments ∉ deeds i s.calls) ∧
      (deeds i s.calls).filterMap Deed.deleted = []

/-- How an email goes through the worker. -/
structure WorkerRules [DecidableEq ι] (s : System ι) (id : EmailId) : Prop where
  story : Story id 1 (published id s.calls)
  sendings : (published id s.calls).countP LifecycleEvent.isSending ≤ maxAttempts
  deliveries : ∀ x ∈ handlers id s.calls, DeliveryRules s x.1 x.2

theorem isTerminal_iff {e : ProcessQueuedEmailError} {attempt : Nat} :
    isTerminal e attempt = true ↔ e.Permanent ∨ maxAttempts ≤ attempt := by
  unfold isTerminal ProcessQueuedEmailError.Permanent
  cases e <;> simp

def DequeuedEmail.between (item : DequeuedEmail) : Outcome → List Deed
  | .sent senderName => [.result (.ok senderName), .ack item.token true, .setAttachments item.id []] ++
      item.envelope.attachments.map fun att => .delete att.blob
  | .failed e => [.result (.error e), .ack item.token true]
  | .retrying e => [.result (.error e), .nack item.token (backoff item.attempt) true]

theorem deeds_eq (item : DequeuedEmail) (outcome : Outcome) :
    item.deeds outcome = .publish item.sendingEvent :: item.between outcome ++ [.publish (item.closingEvent outcome)] := by
  cases outcome <;> rfl

theorem between_event {d : Deed} (h : d ∈ item.between outcome) : d.event = none := by
  cases outcome with
  | sent senderName =>
      simp only [DequeuedEmail.between, List.mem_append, List.mem_cons, List.not_mem_nil, or_false, List.mem_map] at h
      rcases h with (rfl | rfl | rfl) | ⟨att, -, rfl⟩ <;> rfl
  | failed e | retrying e =>
      simp only [DequeuedEmail.between, List.mem_cons, List.not_mem_nil, or_false] at h
      rcases h with rfl | rfl <;> rfl

theorem between_settles (item : DequeuedEmail) (outcome : Outcome) : (item.between outcome).countP Deed.settles = 1 := by
  cases outcome with
  | sent senderName =>
      have hnone : (item.envelope.attachments.map fun att => Deed.delete att.blob).countP Deed.settles = 0 := by
        simp [List.countP_eq_zero, Deed.settles]
      rw [DequeuedEmail.between, List.countP_append, hnone]
      rfl
  | failed | retrying => rfl

theorem deeds_settles (item : DequeuedEmail) (outcome : Outcome) : (item.deeds outcome).countP Deed.settles = 1 := by
  rw [deeds_eq, List.countP_append, List.countP_cons, between_settles]
  rfl

theorem deeds_event (item : DequeuedEmail) (outcome : Outcome) :
    (item.deeds outcome).filterMap Deed.event = [item.sendingEvent, item.closingEvent outcome] := by
  have hnone : (item.between outcome).filterMap Deed.event = [] := List.filterMap_eq_nil_iff.mpr fun d => between_event
  rw [deeds_eq, List.filterMap_append, List.filterMap_cons, hnone]
  rfl

theorem deeds_deleted (item : DequeuedEmail) (senderName : SenderName) :
    (item.deeds (.sent senderName)).filterMap Deed.deleted = item.envelope.attachments.map AttachmentRef.blob := by
  have hdeletes : ∀ atts : List AttachmentRef, (atts.map fun att => Deed.delete att.blob).filterMap Deed.deleted =
      atts.map AttachmentRef.blob := by
    intro atts
    rw [List.filterMap_map]
    exact congrFun (List.filterMap_eq_map' (f := AttachmentRef.blob)) atts
  rw [deeds_eq, DequeuedEmail.between]
  simp only [List.cons_append, List.nil_append, List.filterMap_append, List.filterMap_cons, Deed.deleted, hdeletes,
    List.filterMap_nil, List.append_nil]

theorem publishes_of_deeds {pre post : List Deed} {event : LifecycleEvent} (h : item.deeds outcome = pre ++ .publish event :: post) :
    (event = item.sendingEvent ∧ pre = []) ∨
      (event = item.closingEvent outcome ∧ pre = .publish item.sendingEvent :: item.between outcome) := by
  rw [deeds_eq] at h
  cases pre with
  | nil =>
      cases h
      exact .inl ⟨rfl, rfl⟩
  | cons d pre =>
      obtain ⟨hd, htail⟩ := List.cons.inj h
      subst hd
      rcases snoc_eq htail with ⟨rfl, hevent, -⟩ | ⟨post', -, heq⟩
      · cases hevent
        exact .inr ⟨rfl, rfl⟩
      · have hmem : Deed.publish event ∈ item.between outcome := heq ▸ List.mem_append_right _ List.mem_cons_self
        cases between_event hmem

theorem result_mem_between (item : DequeuedEmail) (outcome : Outcome) : .result outcome.result ∈ item.between outcome := by
  cases outcome <;> exact List.mem_cons_self

theorem result_of_mem {r : Except ProcessQueuedEmailError SenderName} (h : .result r ∈ item.deeds outcome) :
    r = outcome.result := by
  rw [deeds_eq] at h
  cases outcome <;> simpa [DequeuedEmail.between, Outcome.result] using h

theorem failed_of_mem {e : ProcessQueuedEmailError} (h : .publish (item.failedEvent e) ∈ item.deeds outcome) :
    ∃ e', outcome = .failed e' := by
  have hevent : item.failedEvent e ∈ (item.deeds outcome).filterMap Deed.event := List.mem_filterMap.mpr ⟨_, h, rfl⟩
  rw [deeds_event] at hevent
  simp only [List.mem_cons, List.not_mem_nil, or_false] at hevent
  rcases hevent with hevent | hevent
  · cases hevent
  · cases outcome with
    | failed e' => exact ⟨e', rfl⟩
    | sent | retrying => cases hevent

section Runs

variable [DecidableEq ι]

theorem DeedsAt.prefix_deeds {st : TurnStage} (h : DeedsAt i calls st) (hg : gots i calls = [item]) :
    ∃ outcome, outcome.Fits item.attempt ∧ deeds i calls <+: item.deeds outcome := by
  have hitem {item' : DequeuedEmail} {done : List Deed} (hh : Handles i item' done calls) : item' = item ∧ deeds i calls = done :=
    ⟨List.singleton_inj.mp (hh.1.symm.trans hg), hh.2⟩
  have hsent (senderName : SenderName) : Outcome.Fits item.attempt (.sent senderName) := trivial
  cases st with
  | polling =>
      have hnone := hg.symm.trans h.1
      cases hnone
  | sending | sendingDrawn =>
      obtain ⟨rfl, hdeeds⟩ := hitem h
      exact ⟨_, hsent ⟨""⟩, hdeeds ▸ List.nil_prefix⟩
  | executing =>
      obtain ⟨rfl, hdeeds⟩ := hitem h
      exact ⟨_, hsent ⟨""⟩, hdeeds ▸ ⟨_, rfl⟩⟩
  | acking item' outcome =>
      obtain ⟨rfl, hdeeds⟩ := hitem h.2.2
      refine ⟨outcome, h.1, hdeeds ▸ ?_⟩
      cases outcome <;> exact ⟨_, rfl⟩
  | nacking item' e =>
      obtain ⟨rfl, hdeeds⟩ := hitem h.2
      exact ⟨.retrying e, h.1, hdeeds ▸ ⟨_, rfl⟩⟩
  | clearing item' senderName =>
      obtain ⟨rfl, hdeeds⟩ := hitem h
      exact ⟨.sent senderName, trivial, hdeeds ▸ ⟨_, rfl⟩⟩
  | cleaning item' senderName refs =>
      obtain ⟨deleted, hatts, hh⟩ := h
      obtain ⟨rfl, hdeeds⟩ := hitem hh
      refine ⟨.sent senderName, trivial, hdeeds ▸
        ⟨refs.map (fun att => .delete att.blob) ++ [.publish (item'.closingEvent (.sent senderName))], ?_⟩⟩
      rw [DequeuedEmail.deeds, DequeuedEmail.settling, hatts, List.map_append, List.append_assoc, List.append_assoc,
        List.append_assoc]
  | closing item' outcome | closingDrawn item' outcome =>
      obtain ⟨rfl, hdeeds⟩ := hitem h.2
      exact ⟨outcome, h.1, hdeeds ▸ List.prefix_append _ _⟩
  | ended =>
      rcases h with ⟨hnone, -⟩ | ⟨item', outcome, hfits, hh⟩
      · rw [hg] at hnone
        cases hnone
      · obtain ⟨rfl, hdeeds⟩ := hitem hh
        exact ⟨outcome, hfits, hdeeds ▸ List.prefix_refl _⟩
  | claiming | reading | orphaned | leasing => exact h.elim

theorem prefix_of_mem (h : (protocol a jobs).Holds s) (hm : item ∈ gots i s.calls) :
    ∃ outcome, outcome.Fits item.attempt ∧ deeds i s.calls <+: item.deeds outcome := by
  obtain ⟨hturn, hone⟩ := gots_of_mem (w := s.world) h.1 hm
  rcases h.1 i with ⟨-, st, hst⟩ | ⟨hnot, -⟩
  · exact hst.prefix_deeds hone
  · exact absurd hturn hnot

theorem keeps_of_prefix {done : List Deed} (h : done <+: item.deeds outcome) (hno : ∀ senderName, .result (.ok senderName) ∉ done) :
    (∀ id attachments, .setAttachments id attachments ∉ done) ∧ done.filterMap Deed.deleted = [] := by
  have hclear : ∀ d ∈ done, (∀ id attachments, d ≠ .setAttachments id attachments) ∧ d.deleted = none := by
    intro d hd
    cases outcome with
    | sent senderName =>
        match done, h with
        | [], _ => cases hd
        | [d'], h =>
            rw [List.mem_singleton.mp hd, (List.cons_prefix_cons.mp h).1]
            exact ⟨nofun, rfl⟩
        | _ :: d' :: _, h =>
            refine absurd ?_ (hno senderName)
            rw [(List.cons_prefix_cons.mp (List.cons_prefix_cons.mp h).2).1]
            exact List.mem_cons_of_mem _ List.mem_cons_self
    | failed e | retrying e =>
        have hmem := h.subset hd
        rw [deeds_eq] at hmem
        simp only [DequeuedEmail.between, List.cons_append, List.nil_append, List.mem_cons, List.not_mem_nil, or_false] at hmem
        rcases hmem with rfl | rfl | rfl | rfl <;> exact ⟨nofun, rfl⟩
  exact ⟨fun id attachments hd => (hclear _ hd).1 id attachments rfl,
    List.filterMap_eq_nil_iff.mpr fun d hd => (hclear d hd).2⟩

theorem delivery_rules (h : (protocol a jobs).Holds s) (hm : item ∈ gots i s.calls) : DeliveryRules s i item := by
  obtain ⟨outcome, hfits, hprefix⟩ := prefix_of_mem h hm
  constructor
  · refine ⟨deeds_settles item outcome ▸ hprefix.sublist.countP_le, fun he => ?_⟩
    obtain ⟨outcome, -, hdeeds⟩ := deeds_of_ended h he hm
    rw [hdeeds, deeds_settles]
  · intro pre event post hsplit
    obtain ⟨rest, hrest⟩ := hprefix
    rw [hsplit, List.append_assoc, List.cons_append] at hrest
    rcases publishes_of_deeds hrest.symm with hsending | ⟨rfl, rfl⟩
    · exact .inl hsending
    · have hresult : .result outcome.result ∈ Deed.publish item.sendingEvent :: item.between outcome :=
        List.mem_cons_of_mem _ (result_mem_between item outcome)
      cases outcome with
      | sent senderName => exact .inr (.inl ⟨senderName, rfl, hresult, by simp [DequeuedEmail.between]⟩)
      | failed e => exact .inr (.inr (.inl ⟨e, rfl, hresult, by simp [DequeuedEmail.between]⟩))
      | retrying e => exact .inr (.inr (.inr ⟨e, rfl, hresult, by simp [DequeuedEmail.between]⟩))
  · intro he
    obtain ⟨outcome, hfits, hdeeds⟩ := deeds_of_ended h he hm
    rw [hdeeds]
    constructor
    · rintro ⟨e, hfailed⟩
      obtain ⟨e', rfl⟩ := failed_of_mem hfailed
      exact ⟨e', by simp [deeds_eq, DequeuedEmail.between], isTerminal_iff.mp hfits⟩
    · rintro ⟨e, hresult, hfinal⟩
      have hout := result_of_mem hresult
      cases outcome with
      | sent => cases hout
      | failed e' => exact ⟨e', List.mem_append_right _ List.mem_cons_self⟩
      | retrying e' =>
          cases hout
          have hfits : isTerminal e item.attempt = false := hfits
          rw [isTerminal_iff.mpr hfinal] at hfits
          cases hfits
  · rintro he ⟨senderName, hresult⟩
    obtain ⟨outcome, -, hdeeds⟩ := deeds_of_ended h he hm
    rw [hdeeds] at hresult ⊢
    have hout := result_of_mem hresult
    cases outcome with
    | sent senderName' => exact ⟨by simp [deeds_eq, DequeuedEmail.between], deeds_deleted item senderName'⟩
    | failed | retrying => cases hout
  · exact keeps_of_prefix hprefix

omit [DecidableEq ι] in
theorem lt_of_not_terminal {e : ProcessQueuedEmailError} {attempt : Nat} (h : isTerminal e attempt = false) :
    attempt < maxAttempts := by
  by_contra hge
  rw [isTerminal_iff.mpr (.inr (Nat.not_lt.mp hge))] at h
  cases h

omit [DecidableEq ι] in
theorem story_of_prefix {done : List Deed} (hfits : outcome.Fits item.attempt) (h : done <+: item.deeds outcome) :
    Story item.id item.attempt (done.filterMap Deed.event) := by
  have hevents : done.filterMap Deed.event <+: [item.sendingEvent, item.closingEvent outcome] := by
    rw [← deeds_event]
    exact h.filterMap Deed.event
  generalize done.filterMap Deed.event = events at hevents
  match events, hevents with
  | [], _ => exact .nothing
  | [event], h =>
      rw [(List.cons_prefix_cons.mp h).1]
      exact .sending
  | event :: event' :: rest, h =>
      obtain ⟨hsending, htail⟩ := List.cons_prefix_cons.mp h
      obtain ⟨hclosing, hrest⟩ := List.cons_prefix_cons.mp htail
      rw [hsending, hclosing, List.prefix_nil.mp hrest]
      cases outcome with
      | sent => exact .sent
      | failed => exact .failed
      | retrying e => exact .retrying (lt_of_not_terminal hfits) .nothing

theorem story_of_handlers {l : List (ι × DequeuedEmail)} {k : Nat} (hid : ∀ x ∈ l, x.2.id = id)
    (hnum : l.map (fun x => x.2.attempt) = List.range' k l.length)
    (hearlier : ∀ init last, l = init ++ [last] → ∀ x ∈ init, Retried s x)
    (hdone : ∀ x ∈ l, ∃ outcome, outcome.Fits x.2.attempt ∧ deeds x.1 s.calls <+: x.2.deeds outcome) :
    Story id k (l.flatMap fun x => (deeds x.1 s.calls).filterMap Deed.event) := by
  induction l generalizing k with
  | nil => exact .nothing
  | cons x l ih =>
      obtain ⟨hk, hnum⟩ : x.2.attempt = k ∧ _ := List.cons.inj hnum
      have hx := hid x List.mem_cons_self
      rw [List.flatMap_cons]
      cases l with
      | nil =>
          obtain ⟨outcome, hfits, hprefix⟩ := hdone x List.mem_cons_self
          rw [List.flatMap_nil, List.append_nil, ← hx, ← hk]
          exact story_of_prefix hfits hprefix
      | cons y l =>
          have hretried : Retried s x := by
            obtain ⟨init, last, hconcat⟩ := List.eq_nil_or_concat (y :: l) |>.resolve_left (List.cons_ne_nil y l)
            exact hearlier (x :: init) last (by rw [hconcat, List.concat_eq_append, List.cons_append]) x List.mem_cons_self
          have hrest := ih (fun z hz => hid z (List.mem_cons_of_mem _ hz)) hnum
            (fun init last heq z hz => hearlier (x :: init) last (by rw [heq, List.cons_append]) z (List.mem_cons_of_mem _ hz))
            fun z hz => hdone z (List.mem_cons_of_mem _ hz)
          obtain ⟨-, e, hterm, hdeeds⟩ := hretried
          have hlt := lt_of_not_terminal hterm
          rw [hdeeds, deeds_event, DequeuedEmail.sendingEvent, DequeuedEmail.closingEvent, DequeuedEmail.retryingEvent, hx, hk]
          exact .retrying (hk ▸ hlt) hrest

omit [DecidableEq ι] in
theorem Story.sendings {k : Nat} {events : List LifecycleEvent} (h : Story id k events) (hk : k ≤ maxAttempts) :
    events.countP LifecycleEvent.isSending + k ≤ maxAttempts + 1 := by
  induction h with
  | nothing =>
      rw [List.countP_nil]
      omega
  | sending | sent | failed =>
      simp only [List.countP_cons, List.countP_nil, LifecycleEvent.isSending, if_true, Bool.false_eq_true, if_false]
      omega
  | retrying hlt h ih =>
      have hrest := ih hlt
      simp only [List.countP_cons, LifecycleEvent.isSending, if_true, Bool.false_eq_true, if_false]
      omega

theorem Lineage.rules (h : Lineage s id) (hp : (protocol a jobs).Holds s) : WorkerRules s id := by
  have hstory : Story id 1 (published id s.calls) := by
    rw [h.events]
    exact story_of_handlers (fun x hx => (mem_handlers hx).2) h.numbered h.earlier
      fun x hx => prefix_of_mem hp (mem_handlers hx).1
  refine ⟨hstory, ?_, fun x hx => delivery_rules hp (mem_handlers hx).1⟩
  have hcount := hstory.sendings (by decide)
  omega

/-- Over the memory queue every submitted email goes through the worker as the protocol
says, if each attempt is handled before the next one is handed out. -/
theorem worker_rules (hw : Ready jobs w) (hv : Vacant jobs w) (hq : a.queue = .memory) (ho : Own jobs id)
    (hr : Reaches a w jobs as s) (hm : (System.start a w jobs).Meets machine InOrder as) : WorkerRules s id := by
  have hinv := Pool.run_preserves (J := fun s : System ι => ((acceptance a jobs).Holds s ∧ (lineages a jobs).Holds s) ∧ Lineage s id)
    (fun ⟨⟨hacc, hl⟩, h⟩ hord hs => ⟨⟨Pool.Outline.step hacc (acceptance_keeps hw.distinct) hs,
      Pool.Outline.step hl (lineages_keeps hw.distinct hq hacc) hs⟩, h.step hl hacc hw.distinct ho hq hord hs⟩)
    ⟨⟨acceptance_start hw, lineages_start hv⟩, lineage_start hv ho⟩ hm hr
  exact hinv.2.rules (lineages_protocol hinv.1.2)

end Runs

def memoryWorker : Adapters := ⟨.sqlite, .memory, .fromSecs 3600⟩

/-- The first attempt fails and its Retrying event gets lost, the second one is sent. -/
def retriedOnce : List (Act Nat) :=
  enqueuing ++ announcing 2 ++
    [.step 1 {}, .step 1 { uuid := 3 }, .step 1 {}, .step 1 { result := .error (.render "unclosed tag") }, .step 1 {},
      .step 1 { uuid := 4 }, .step 1 { fails := true }, .drift (.tick 30000000000), .drift (.wake 0),
      .step 2 {}, .step 2 { uuid := 5 }, .step 2 {}, .step 2 { result := .ok ⟨"smtp"⟩ }, .step 2 {}, .step 2 {},
      .step 2 {}, .step 2 { uuid := 6 }, .step 2 {}]

theorem worker_rules_retried : ∃ s, Reaches memoryWorker .empty attachedEmail retriedOnce s ∧
    (published ⟨1⟩ s.calls).map LifecycleEvent.eventType = ["sending", "retrying", "sending", "delivery.succeeded"] ∧
    WorkerRules s ⟨1⟩ := by
  have hrun : ∃ s, Reaches memoryWorker .empty attachedEmail retriedOnce s ∧
      (published ⟨1⟩ s.calls).map LifecycleEvent.eventType = ["sending", "retrying", "sending", "delivery.succeeded"] :=
    ⟨_, rfl, by decide⟩
  obtain ⟨s, hr, hevents⟩ := hrun
  exact ⟨s, hr, hevents, worker_rules attachedEmail_ready (vacant_empty _) rfl ⟨0, _, rfl⟩ hr (by decide)⟩

end Catapulte
