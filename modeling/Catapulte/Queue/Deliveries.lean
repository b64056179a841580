import Catapulte.Queue.Wire

namespace Catapulte.Nats

open Async Catapulte.Nats.World

variable {ι : Type} {maxDeliver : Int} {w w' : World} {calls : List (ι × Call Client World)} {token number : Nat} {i j : ι}

/-- The message was handed out, for the `number`-th time. -/
def Delivery (token number : Nat) : Call Client World → Prop
  | ⟨before, .fetch, .ok (some item), _⟩ =>
      item.token = token ∧ ∃ m ∈ before.stream, m.seq = token ∧ m.delivered + 1 = number
  | _ => False

theorem Delivery.pos {c : Call Client World} (h : Delivery token number c) : 0 < number := by
  obtain ⟨before, op, r, heard⟩ := c
  cases op with
  | publish | reply | rest => exact h.elim
  | fetch =>
      rcases r with e | _ | item
      · exact h.elim
      · exact h.elim
      · obtain ⟨-, m, -, -, rfl⟩ := h
        exact Nat.succ_pos _

theorem Handed.of_delivery {c : Call Client World} (h : Delivery token number c) : Handed token c := by
  obtain ⟨before, op, r, heard⟩ := c
  cases op with
  | publish | reply | rest => exact h
  | fetch =>
      rcases r with e | _ | item
      · exact h
      · exact h
      · exact h.1

/-- How the deliveries made so far are counted by the stream, and which of them
acknowledged. -/
structure Deliveries (w : World) (calls : List (ι × Call Client World)) : Prop where
  numbering : Numbering w calls
  numbered : ∀ {i token}, Did (Handed token) i calls → ∃ number, Did (Delivery token number) i calls
  counted : ∀ {i token number}, Did (Delivery token number) i calls →
    ∀ m ∈ w.stream, m.seq = token → number ≤ m.delivered
  distinct : ∀ {i j token number}, Did (Delivery token number) i calls → Did (Delivery token number) j calls → i = j
  last : ∀ {token}, Seen (Handed token) calls → w.Settled token → ∃ j number, Did (Delivery token number) j calls ∧
    Did (Acked token) j calls ∧ ∀ k later, Did (Delivery token later) k calls → later ≤ number

theorem Sends.settled (h : Sends w w') (hs : w'.Settled token) : w.Settled token := by
  by_cases hex : ∃ m ∈ w.stream, m.seq = token
  · obtain ⟨m, hm, rfl⟩ := hex
    rcases h.kept m hm with hk | hp
    · exact .inl (h.acks _ (hs.resolve_right fun hg => hg m hk rfl))
    · exact .inl hp
  · exact .inr fun m hm heq => hex ⟨m, hm, heq⟩

namespace Deliveries

theorem start : Deliveries World.empty ([] : List (ι × Call Client World)) where
  numbering := .start
  numbered h := absurd h did_nil
  counted h := absurd h did_nil
  distinct h := absurd h did_nil
  last h := absurd h seen_nil

theorem sends (h : Deliveries w calls) (hs : Sends w w') : Deliveries w' calls where
  numbering := h.numbering.sends hs
  numbered := h.numbered
  counted hd m hm heq := by
    rcases hs.arrived m hm with hm | hp
    · exact h.counted hd m hm heq
    · obtain ⟨c, hc, hd⟩ := hd
      exact absurd (heq ▸ hp.1) (h.numbering.handed _ ⟨_, c, hc, .of_delivery hd⟩).2
  distinct := h.distinct
  last hh hset := h.last hh (hs.settled hset)

theorem frame (h : Deliveries w calls) (hn : Numbering w' calls) (hstream : w'.stream = w.stream)
    (hack : ∀ token, w'.AckPending token → w.AckPending token) : Deliveries w' calls where
  numbering := hn
  numbered := h.numbered
  counted := by
    rw [hstream]
    exact h.counted
  distinct := h.distinct
  last {token} hh hset := by
    refine h.last hh (hset.imp (hack token) fun hg => ?_)
    rwa [← hstream]

theorem other {c : Call Client World} (h : Deliveries w calls) (hc : ∀ token, ¬ Handed token c) :
    Deliveries w (calls ++ [(i, c)]) := by
  have hdel : ∀ {j token number}, Did (Delivery token number) j (calls ++ [(i, c)]) →
      Did (Delivery token number) j calls := fun hd =>
    (did_snoc.mp hd).resolve_right fun hx => hc _ (.of_delivery hx.2)
  refine ⟨h.numbering.other hc, fun hd => ?_, fun hd => h.counted (hdel hd),
    fun hd hd' => h.distinct (hdel hd) (hdel hd'), fun hh hset => ?_⟩
  · obtain ⟨n, hn⟩ := h.numbered ((did_snoc.mp hd).resolve_right fun hx => hc _ hx.2)
    exact ⟨n, hn.append _⟩
  · obtain ⟨j, n, hn, hj, hlast⟩ := h.last ((seen_snoc.mp hh).resolve_right (hc _)) hset
    exact ⟨j, n, hn.append _, hj.append _, fun k later hk => hlast k later (hdel hk)⟩

theorem ack {flushed heard : Bool} (h : Deliveries w calls) (hi : Did (Delivery token number) i calls)
    (hlast : ∀ k later, Did (Delivery token later) k calls → later ≤ number) :
    Deliveries (w.send (.reply token .ack) flushed) (calls ++ [(i, ⟨w, .reply token .ack, .ok (), heard⟩)]) := by
  have ho : Deliveries w (calls ++ [(i, ⟨w, .reply token .ack, .ok (), heard⟩)]) := h.other fun _ h => h
  have hdel : ∀ {j t n}, Did (Delivery t n) j (calls ++ [(i, ⟨w, .reply token .ack, .ok (), heard⟩)]) →
      Did (Delivery t n) j calls := fun hd => (did_snoc.mp hd).resolve_right And.right
  have hpushed : Deliveries (w.push (.reply token .ack)) (calls ++ [(i, ⟨w, .reply token .ack, .ok (), heard⟩)]) := by
    refine ⟨ho.numbering.reply, ho.numbered, ho.counted, ho.distinct, fun {t} hh hset => ?_⟩
    by_cases heq : t = token
    · subst heq
      exact ⟨i, number, hi.append _, did_snoc.mpr (.inr ⟨rfl, rfl⟩), fun k later hk => hlast k later (hdel hk)⟩
    · refine ho.last hh (hset.imp_left fun hp => ?_)
      exact (ackPending_push_ack.mp hp).resolve_right heq
  exact hpushed.sends (send_sends _ _ _).1

theorem deliver (h : Deliveries w calls) (seq : Nat) : Deliveries (w.deliver seq) calls where
  numbering := h.numbering.deliver
  numbered := h.numbered
  counted hd m hm heq := by
    obtain ⟨m', hm', hseq, hcount⟩ := mem_deliver hm
    have hle := h.counted hd m' hm' (hseq.trans heq)
    omega
  distinct := h.distinct
  last hh hset := h.last hh (settled_deliver.mp hset)

theorem of_fetch {m : Message} {heard : Bool} (h : Deliveries w calls) (hm : m ∈ w.stream)
    (hd : Delivery token number ⟨w, .fetch, .ok (some m.item), heard⟩) : token = m.seq ∧ number = m.delivered + 1 := by
  obtain ⟨rfl, m', hm', hseq, rfl⟩ := hd
  rw [h.numbering.unique hm' hm hseq]
  exact ⟨rfl, rfl⟩

theorem fetch {m : Message} {heard : Bool} (h : Deliveries w calls) (hm : m ∈ w.stream)
    (hack : ¬ w.AckPending m.seq) :
    Deliveries (w.deliver m.seq) (calls ++ [(i, ⟨w, .fetch, .ok (some m.item), heard⟩)]) := by
  have hfresh : ∀ {j}, ¬ Did (Delivery m.seq (m.delivered + 1)) j calls := fun hd =>
    Nat.not_succ_le_self _ (h.counted hd m hm rfl)
  refine ⟨h.numbering.fetch hm, fun {j t} hd => ?_, fun {j t n} hd m' hm' heq => ?_, fun {j k t n} hj hk => ?_,
    fun {t} hh hset => ?_⟩
  · rcases did_snoc.mp hd with hd | ⟨rfl, rfl⟩
    · obtain ⟨n, hn⟩ := h.numbered hd
      exact ⟨n, hn.append _⟩
    · exact ⟨m.delivered + 1, did_snoc.mpr (.inr ⟨rfl, rfl, m, hm, rfl, rfl⟩)⟩
  · rcases did_snoc.mp hd with hd | ⟨-, hd⟩
    · exact (h.deliver m.seq).counted hd m' hm' heq
    · obtain ⟨rfl, rfl⟩ := h.of_fetch hm hd
      obtain ⟨m₀, hm₀, hseq, hcount⟩ := mem_deliver hm'
      cases h.numbering.unique hm₀ hm (hseq.trans heq)
      exact Nat.le_of_eq (by rw [hcount, if_pos heq])
  · rcases did_snoc.mp hj with hj' | ⟨hji, hj'⟩ <;> rcases did_snoc.mp hk with hk' | ⟨hki, hk'⟩
    · exact h.distinct hj' hk'
    · obtain ⟨rfl, rfl⟩ := h.of_fetch hm hk'
      exact absurd hj' hfresh
    · obtain ⟨rfl, rfl⟩ := h.of_fetch hm hj'
      exact absurd hk' hfresh
    · rw [hji, hki]
  · have hset := settled_deliver.mp hset
    have hne : t ≠ m.seq := by
      rintro rfl
      exact hset.elim hack fun hg => hg m hm rfl
    have hh := (seen_snoc.mp hh).resolve_right fun hx => hne hx.symm
    obtain ⟨j, n, hn, hj, hlast⟩ := h.last hh hset
    refine ⟨j, n, hn.append _, hj.append _, fun k later hk => ?_⟩
    exact hlast k later ((did_snoc.mp hk).resolve_right fun hx => hne (h.of_fetch hm hx.2).1)

end Deliveries

/-- No message was delivered too often. -/
def Bounded (maxDeliver : Int) (w : World) : Prop :=
  ∀ m ∈ w.stream, maxDeliver ≤ 0 ∨ (m.delivered : Int) ≤ maxDeliver

theorem Bounded.sends (h : Bounded maxDeliver w) (hs : Sends w w') : Bounded maxDeliver w' := by
  intro m hm
  rcases hs.arrived m hm with hm | ⟨-, hzero⟩
  · exact h m hm
  · rw [hzero]
    omega

theorem Bounded.deliver {m : Message} (h : Bounded maxDeliver w) (hn : Numbering w calls) (hm : m ∈ w.stream)
    (hd : m.deliverable maxDeliver = true) : Bounded maxDeliver (w.deliver m.seq) := by
  intro m' hm'
  obtain ⟨m₀, hm₀, hseq, hcount⟩ := mem_deliver hm'
  split at hcount
  · rename_i heq
    cases hn.unique hm₀ hm (hseq.trans heq)
    simp only [Message.deliverable, decide_eq_true_eq] at hd
    omega
  · have hle := h m₀ hm₀
    omega

theorem Bounded.effects {op : Op} {c : Choice} {r : op.Reply} (h : Bounded maxDeliver w) (hn : Numbering w calls)
    (he : Effects maxDeliver w op c w' r) : Bounded maxDeliver w' := by
  cases he with
  | refused => exact h
  | @published id envelope =>
      have hpushed : Bounded maxDeliver ({ w with published := w.published + 1 }.push
        (.message w.published id envelope)) := h
      exact hpushed.sends (send_sends _ _ _).1
  | @replied token kind =>
      have hpushed : Bounded maxDeliver (w.push (.reply token kind)) := h
      exact hpushed.sends (send_sends _ _ _).1
  | wasted hm hd | fetched hm hd => exact h.deliver hn hm hd
  | elsewhere => exact h

theorem Deliveries.effects {op : Op} {c : Choice} {r : op.Reply} {heard : Bool} (h : Deliveries w calls)
    (he : Effects maxDeliver w op c w' r) (hfetch : op = .fetch → ¬ w.AckPending c.seq)
    (hack : ∀ token, op = .reply token .ack → c.fails = false → ∃ number, Did (Delivery token number) i calls ∧
      ∀ k later, Did (Delivery token later) k calls → later ≤ number) :
    Deliveries w' (calls ++ [(i, ⟨w, op, r, heard⟩)]) := by
  cases he with
  | refused _ hh => exact h.other (hh heard)
  | @published id envelope =>
      have hpushed : Deliveries ({ w with published := w.published + 1 }.push (.message w.published id envelope))
          calls := h.frame h.numbering.publish rfl fun t ht => ackPending_push_message.mp ht
      exact (hpushed.sends (send_sends _ _ c.flushed).1).other fun _ h => h
  | @replied token kind _ hf =>
      cases kind with
      | ack =>
          obtain ⟨n, hn, hlast⟩ := hack token rfl hf
          exact h.ack hn hlast
      | nak delayNs =>
          have hpushed : Deliveries (w.push (.reply token (.nak delayNs))) calls :=
            h.frame h.numbering.reply rfl fun t ht => ackPending_push_nak.mp ht
          exact (hpushed.sends (send_sends _ _ c.flushed).1).other fun _ h => h
  | wasted => exact (h.deliver _).other fun _ h => h
  | fetched hm _ hseq => exact h.fetch hm (hseq ▸ hfetch rfl)
  | elsewhere => exact Deliveries.other (h.frame h.numbering.elsewhere rfl fun _ ht => ht) fun _ h => h

/-- The last delivery of a message reached a task. -/
def LastHanded (maxDeliver : Int) (w : World) (calls : List (ι × Call Client World)) : Prop :=
  ∀ m ∈ w.stream, 0 < m.delivered → (m.delivered : Int) = maxDeliver → Seen (Delivery m.seq m.delivered) calls

namespace LastHanded

theorem start : LastHanded maxDeliver World.empty ([] : List (ι × Call Client World)) :=
  fun _ hm => absurd hm List.not_mem_nil

theorem sends (h : LastHanded maxDeliver w calls) (hs : Sends w w') : LastHanded maxDeliver w' calls := by
  intro m hm hpos heq
  rcases hs.arrived m hm with hm | ⟨-, hzero⟩
  · exact h m hm hpos heq
  · rw [hzero] at hpos
    exact absurd hpos (Nat.lt_irrefl 0)

theorem append (h : LastHanded maxDeliver w calls) (calls' : List (ι × Call Client World)) :
    LastHanded maxDeliver w (calls ++ calls') := fun m hm hpos heq => (h m hm hpos heq).append calls'

theorem deliver {m : Message} {x : ι × Call Client World} (h : LastHanded maxDeliver w calls) (hn : Numbering w calls)
    (hm : m ∈ w.stream) (hx : (m.delivered : Int) + 1 = maxDeliver → Delivery m.seq (m.delivered + 1) x.2) :
    LastHanded maxDeliver (w.deliver m.seq) (calls ++ [x]) := by
  intro m' hm' hpos heq
  obtain ⟨m₀, hm₀, hseq, hcount⟩ := mem_deliver hm'
  split at hcount
  · rename_i hsame
    cases hn.unique hm₀ hm (hseq.trans hsame)
    rw [hcount] at heq ⊢
    rw [← hseq]
    exact seen_snoc.mpr (.inr (hx (by exact_mod_cast heq)))
  · rw [Nat.add_zero] at hcount
    rw [hcount] at hpos heq ⊢
    rw [← hseq]
    exact (h m₀ hm₀ hpos heq).append _

theorem effects {op : Op} {c : Choice} {r : op.Reply} {heard : Bool} (h : LastHanded maxDeliver w calls)
    (hn : Numbering w calls) (he : Effects maxDeliver w op c w' r) (hlast : op = .fetch → c.fails = true →
      c.lands = true → ∀ m ∈ w.stream, m.seq = c.seq → (m.delivered : Int) + 1 ≠ maxDeliver) :
    LastHanded maxDeliver w' (calls ++ [(i, ⟨w, op, r, heard⟩)]) := by
  cases he with
  | refused => exact h.append _
  | @published id envelope =>
      have hpushed : LastHanded maxDeliver ({ w with published := w.published + 1 }.push
        (.message w.published id envelope)) calls := h
      exact (hpushed.sends (send_sends _ _ _).1).append _
  | @replied token kind =>
      have hpushed : LastHanded maxDeliver (w.push (.reply token kind)) calls := h
      exact (hpushed.sends (send_sends _ _ _).1).append _
  | wasted hm _ hseq hf hl => exact h.deliver hn hm fun heq => absurd heq (hlast rfl hf hl _ hm hseq)
  | fetched hm => exact h.deliver hn hm fun _ => ⟨rfl, _, hm, rfl, rfl⟩
  | elsewhere => exact h.append _

end LastHanded

end Catapulte.Nats
