import Catapulte.Delivery

namespace Catapulte

variable {w w' : World} {op : Effect} {c : Choice}

/-- The call changes the tables, whether or not it returns `Err`. -/
def Choice.takesEffect (c : Choice) : Bool := !c.fails || c.lands

theorem settled_cases {ε α : Type} {err : ε} {a : α} {r : Except ε α} {w₁ : World} (h : c.settle w w₁ err a = (w', r)) :
    (c.takesEffect = true ∧ w' = w₁ ∨ c.takesEffect = false ∧ w' = w) ∧ ∀ b, r = .ok b → b = a ∧ c.takesEffect = true := by
  unfold Choice.settle at h
  unfold Choice.takesEffect
  cases hf : c.fails <;> cases hl : c.lands <;> simp only [hf, hl] at h <;> cases h <;> simp

/-- The entry that the call claims, as it was before, and the clock reading of the claim. -/
def claimed (w : World) : Effect → Choice → Option (QueueEntry × Int)
  | .claimNext now _, c | .claimTransaction now _, c =>
      if c.takesEffect then (w.pickEntry now c.uuid).join.map fun e => (e, now) else none
  | _, _ => none

inductive QueueChange (w : World) (c : Choice) : Effect → World → Prop
  | kept {op : Effect} {w' : World} (hq : w'.queue = w.queue) (hu : w.lastUuid ≤ w'.lastUuid) (hclaim : claimed w op c = none)
      (hsettle : c.takesEffect = true → op.settles = none) : QueueChange w c op w'
  | inserted {id} (hu : w.lastUuid < c.uuid) : QueueChange w c (.insertEntry id) (w.insertEntry c.uuid id)
  | claimed {op : Effect} {e now claimUntil} (hop : op = .claimNext now claimUntil ∨ op = .claimTransaction now claimUntil)
      (hclaim : claimed w op c = some (e, now)) (he : e ∈ w.queue) (hf : firstEligible now w.queue e = true) :
      QueueChange w c op (w.claimEntry e.id claimUntil)
  | orphaned {e now claimUntil} (hclaim : claimed w (.claimTransaction now claimUntil) c = some (e, now))
      (he : e ∈ w.queue) (hf : firstEligible now w.queue e = true) (hrow : w.findEmail e.emailId = none) :
      QueueChange w c (.claimTransaction now claimUntil) ((w.claimEntry e.id claimUntil).deleteEntry e.id)
  | deleted {token} (hc : c.takesEffect = true) : QueueChange w c (.deleteEntry token) (w.deleteEntry token)
  | leased {token claimedUntil} (hc : c.takesEffect = true) :
      QueueChange w c (.leaseEntry token claimedUntil) (w.leaseEntry token claimedUntil)

theorem claimed_eq_some {now claimUntil : Int} {e : QueueEntry}
    (hop : op = .claimNext now claimUntil ∨ op = .claimTransaction now claimUntil) (hc : c.takesEffect = true)
    (hp : w.pickEntry now c.uuid = some (some e)) : claimed w op c = some (e, now) := by
  rcases hop with rfl | rfl <;> simp [claimed, hc, hp]

theorem claimed_cases {e : QueueEntry} {now : Int} (h : claimed w op c = some (e, now)) :
    (∃ claimUntil, op = .claimNext now claimUntil ∨ op = .claimTransaction now claimUntil) ∧ e ∈ w.queue ∧
      firstEligible now w.queue e = true := by
  have hpick {t : Int} (h : (if c.takesEffect then (w.pickEntry t c.uuid).join.map fun e => (e, t) else none) = some (e, now)) :
      t = now ∧ e ∈ w.queue ∧ firstEligible now w.queue e = true := by
    split at h
    · obtain ⟨e', he', heq⟩ := Option.map_eq_some_iff.mp h
      cases heq
      obtain ⟨p, hp, hjoin⟩ := Option.bind_eq_some_iff.mp he'
      rcases pickEntry_eq_some hp with ⟨rfl, -⟩ | ⟨e'', rfl, hmem, hfirst⟩
      · cases hjoin
      · cases hjoin
        exact ⟨rfl, hmem, hfirst⟩
    · cases h
  cases op with
  | claimNext t claimUntil =>
      obtain ⟨rfl, he⟩ := hpick h
      exact ⟨⟨claimUntil, .inl rfl⟩, he⟩
  | claimTransaction t claimUntil =>
      obtain ⟨rfl, he⟩ := hpick h
      exact ⟨⟨claimUntil, .inr rfl⟩, he⟩
  | _ => cases h

theorem claimed_eq_none {now claimUntil : Int} (hop : op = .claimNext now claimUntil ∨ op = .claimTransaction now claimUntil)
    (h : c.takesEffect = false ∨ w.pickEntry now c.uuid = some none) : claimed w op c = none := by
  rcases hop with rfl | rfl <;> rcases h with h | h <;> simp [claimed, h]

theorem perform_change {r : op.Reply} (h : perform w op c = some (w', r)) : QueueChange w c op w' := by
  have hkept (hq : w'.queue = w.queue) (hclaim : claimed w op c = none)
      (hsettle : c.takesEffect = true → op.settles = none) : QueueChange w c op w' :=
    .kept hq (performs h).lastUuid_le hclaim hsettle
  have hperf := performs h
  cases op with
  | insertEntry id =>
      simp only [perform] at h
      split at h
      · cases h
        exact hkept rfl rfl fun _ => rfl
      · split at h
        · rename_i hu
          rcases (settled_cases (Option.some.inj h)).1 with ⟨-, rfl⟩ | ⟨-, hw⟩
          · exact .inserted hu
          · exact hkept (by rw [hw]) rfl fun _ => rfl
        · cases h
  | claimNext now claimUntil =>
      simp only [perform, Option.map_eq_some_iff] at h
      obtain ⟨p, hp, h⟩ := h
      rcases pickEntry_eq_some hp with ⟨rfl, -⟩ | ⟨e, rfl, he, hf⟩
      · have hw : w' = w := by rcases (settled_cases h).1 with ⟨-, hw⟩ | ⟨-, hw⟩ <;> exact hw
        exact hkept (by rw [hw]) (claimed_eq_none (.inl rfl) (.inr hp)) fun _ => rfl
      · rcases (settled_cases h).1 with ⟨hc, rfl⟩ | ⟨hc, hw⟩
        · exact .claimed (.inl rfl) (claimed_eq_some (.inl rfl) hc hp) he hf
        · exact hkept (by rw [hw]) (claimed_eq_none (.inl rfl) (.inl hc)) fun _ => rfl
  | claimTransaction now claimUntil =>
      simp only [perform, Option.map_eq_some_iff] at h
      obtain ⟨p, hp, h⟩ := h
      rcases pickEntry_eq_some hp with ⟨rfl, -⟩ | ⟨e, rfl, he, hf⟩
      · have hw : w' = w := by rcases (settled_cases h).1 with ⟨-, hw⟩ | ⟨-, hw⟩ <;> exact hw
        exact hkept (by rw [hw]) (claimed_eq_none (.inr rfl) (.inr hp)) fun _ => rfl
      · rcases (settled_cases h).1 with ⟨hc, hw⟩ | ⟨hc, hw⟩
        · have hclaim : claimed w (.claimTransaction now claimUntil) c = some (e, now) := claimed_eq_some (.inr rfl) hc hp
          cases hrow : w.findEmail e.emailId with
          | none =>
              rw [hw, World.claimInTransaction, hrow]
              exact .orphaned hclaim he hf hrow
          | some row =>
              rw [hw, World.claimInTransaction, hrow]
              exact .claimed (.inr rfl) hclaim he hf
        · exact hkept (by rw [hw]) (claimed_eq_none (.inr rfl) (.inl hc)) fun _ => rfl
  | deleteEntry token =>
      rcases (settled_cases (Option.some.inj h)).1 with ⟨hc, rfl⟩ | ⟨hc, hw⟩
      · exact .deleted hc
      · exact hkept (by rw [hw]) rfl fun ht => by rw [hc] at ht; cases ht
  | leaseEntry token claimedUntil =>
      rcases (settled_cases (Option.some.inj h)).1 with ⟨hc, rfl⟩ | ⟨hc, hw⟩
      · exact .leased hc
      · exact hkept (by rw [hw]) rfl fun ht => by rw [hc] at ht; cases ht
  | _ =>
      refine hkept ?_ rfl fun _ => rfl
      rcases hperf.queue with hq | hq
      · exact hq
      · cases hq

theorem claimed_of_reply {now claimUntil : Int} {row : ClaimedEntry}
    (h : perform w (.claimNext now claimUntil) c = some (w', .ok (some row))) :
    ∃ e, claimed w (.claimNext now claimUntil) c = some (e, now) ∧ row = ⟨e.id, e.emailId, e.attemptCount + 1⟩ := by
  simp only [perform, Option.map_eq_some_iff] at h
  obtain ⟨p, hp, h⟩ := h
  cases p with
  | none =>
      obtain ⟨-, hr⟩ := settled_cases h
      cases (hr _ rfl).1
  | some e =>
      obtain ⟨-, hr⟩ := settled_cases h
      obtain ⟨hrow, hc⟩ := hr _ rfl
      exact ⟨e, claimed_eq_some (.inl rfl) hc hp, Option.some.inj hrow⟩

theorem claimed_of_item {now claimUntil : Int} {item : DequeuedEmail}
    (h : perform w (.claimTransaction now claimUntil) c = some (w', .ok (some item))) :
    ∃ e, claimed w (.claimTransaction now claimUntil) c = some (e, now) ∧ item.token = e.id ∧ item.id = e.emailId ∧
      item.attempt = e.attemptCount + 1 := by
  simp only [perform, Option.map_eq_some_iff] at h
  obtain ⟨p, hp, h⟩ := h
  cases p with
  | none =>
      obtain ⟨-, hr⟩ := settled_cases h
      cases (hr _ rfl).1
  | some e =>
      obtain ⟨-, hr⟩ := settled_cases h
      obtain ⟨hitem, hc⟩ := hr _ rfl
      refine ⟨e, claimed_eq_some (.inr rfl) hc hp, ?_⟩
      unfold World.claimInTransaction at hitem
      split at hitem
      · cases hitem
      · cases hitem
        exact ⟨rfl, rfl, rfl⟩

end Catapulte
