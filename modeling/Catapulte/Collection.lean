import Catapulte.Retention

namespace Catapulte

open Async

variable {ι : Type} {a : Adapters} {d : Duration} {jobs : ι → Job} {w w' : World}
  {calls : List (ι × Call Sys World)} {i j k : ι} {id : EmailId} {blob : BlobRef} {key : String}
  {live : List BlobRef} {input : SubmitEmailInput} {op : Effect} {r : op.Reply} {heard : Bool}

def Effect.readsSnapshot : Effect → Bool
  | .selectLiveBodies => true
  | _ => false

def Effect.readsClock : Effect → Bool
  | .isOlderThan .. => true
  | _ => false

abbrev Snapshot (c : Call Sys World) : Prop := c.op.readsSnapshot = true

/-- The blob is younger than the grace period, even a time `d` later. -/
def Blob.Young (a : Adapters) (d : Duration) (now : Nat) (b : Blob) : Prop :=
  now - b.modified + d.nanos < a.gracePeriod.nanos

/-- The submissions commit their attachments in time: as long as one that goes on
has not done so, the blobs that it wrote are young. -/
def Timely (a : Adapters) (d : Duration) (s : System ι) : Prop :=
  ∀ b ∈ s.world.blobs, ∀ x ∈ s.calls, Stored b.ref x.2 → Running s x.1 → ¬ Did HasFailed x.1 s.calls →
    ¬ Did Patched x.1 s.calls → b.Young a d s.world.now

/-- A sweep compares ages at most `d` after its snapshot. -/
def SnapshotFresh (d : Duration) (s : System ι) (act : Act ι) : Prop :=
  ∀ x ∈ s.landed machine act, x.2.op.readsClock = true → ∀ y ∈ s.calls, y.1 = x.1 → Snapshot y.2 →
    s.world.now ≤ y.2.before.now + d.nanos

instance (b : Blob) (now : Nat) : Decidable (b.Young a d now) := inferInstanceAs (Decidable (_ < _))

instance [DecidableEq ι] (s : System ι) : Decidable (Timely a d s) :=
  inferInstanceAs (Decidable (∀ b ∈ s.world.blobs, ∀ x ∈ s.calls, _ → _ → _ → _ → b.Young a d s.world.now))

instance [DecidableEq ι] (s : System ι) (act : Act ι) : Decidable (SnapshotFresh d s act) :=
  inferInstanceAs (Decidable (∀ x ∈ s.landed machine act, _))

/-- An email that was not acknowledged refers to the blob, or a submission between
its put and its enqueue has stored it. -/
def Needed (jobs : ι → Job) (s : System ι) (blob : BlobRef) : Prop :=
  (∃ id, s.world.Outstanding id ∧ s.world.RefersTo id blob) ∨
    ∃ i id input, jobs i = .submit id input ∧ Running s i ∧ Did (Stored blob) i s.calls ∧
      ¬ Did (Enqueued id) i s.calls ∧ ¬ Did HasFailed i s.calls

/-- A sweep deletes no blob that is needed. -/
def SparesNeeded (jobs : ι → Job) (s : System ι) (act : Act ι) : Prop :=
  ∀ x ∈ s.landed machine act, jobs x.1 = .sweep → ∀ b ∈ s.world.blobs, x.2.op = .deleteBlob b.ref →
    ¬ Needed jobs s b.ref

def World.findBlob (w : World) (blob : BlobRef) : Option Blob := w.blobs.find? fun b => b.ref = blob

theorem mem_of_findBlob {b : Blob} (h : w.findBlob blob = some b) : b ∈ w.blobs ∧ b.ref = blob := by
  unfold World.findBlob at h
  have hb := List.find?_some h
  exact ⟨List.mem_of_find?_eq_some h, of_decide_eq_true hb⟩

theorem Performs.findBlob {b : Blob} (h : Performs w op w' r) (hk : blob.key ∈ w.issued)
    (hf : w'.findBlob blob = some b) : w.findBlob blob = some b := by
  rcases h.blobs with ⟨he, -⟩ | hw
  · rwa [World.findBlob, he] at hf
  · cases hw with
    | @put backend reader key' stamp hkey =>
        have hne : ¬ (⟨backend, key'⟩ : BlobRef) = blob := by
          rintro rfl
          exact hkey hk
        simpa [World.findBlob, hne] using hf
    | @delete gone =>
        by_cases hne : gone = blob
        · obtain ⟨hb, href⟩ := mem_of_findBlob hf
          have hb := (List.mem_filter.mp hb).2
          exact absurd (href.trans hne.symm) (of_decide_eq_true hb)
        · rw [World.findBlob, World.deleteBlob_blobs, List.find?_filter] at hf
          rw [World.findBlob, ← hf]
          refine congrArg (fun p => w.blobs.find? p) (funext fun x => ?_)
          by_cases hx : x.ref = blob
          · simp [hx, Ne.symm hne]
          · simp [hx]

theorem Drifts.findBlob {e : Drift} (h : Drifts w e w') : w'.findBlob blob = w.findBlob blob := by
  rw [World.findBlob, World.findBlob, h.blobs.1]

theorem mem_liveKeys : key ∈ AttachmentGc.liveKeys "fs" live ↔ ⟨"fs", key⟩ ∈ live := by
  simp only [AttachmentGc.liveKeys, List.mem_map, List.mem_filter, decide_eq_true_eq]
  constructor
  · rintro ⟨⟨backend, _⟩, ⟨hmem, rfl⟩, rfl⟩
    exact hmem
  · exact fun hmem => ⟨_, ⟨hmem, rfl⟩, rfl⟩

theorem terminal_of_not_live (hl : w.RowLists id blob) (hn : blob ∉ w.liveBlobs) :
    ∃ row ∈ w.events, row.emailId = id ∧ row.Terminal := by
  obtain ⟨row, hrow, rfl, ref, href, rfl⟩ := hl
  have htype : w.latestEventType row.id = "delivery.succeeded" ∨ w.latestEventType row.id = "delivery.failed" := by
    by_contra hno
    refine hn (List.mem_flatMap.mpr ⟨row, List.mem_filter.mpr ⟨hrow, ?_⟩, List.mem_map_of_mem href⟩)
    rw [not_or] at hno
    simpa using hno
  unfold World.latestEventType at htype
  cases hlatest : latestEvent (w.events.filter fun e => e.emailId = row.id) with
  | none => simp [hlatest] at htype
  | some e =>
      rw [hlatest] at htype
      obtain ⟨hmem, hid⟩ := List.mem_filter.mp (latestEvent_spec hlatest).1
      exact ⟨e, hmem, of_decide_eq_true hid, htype⟩

/-- The blob is not in the snapshot: its email needs it no more, its submission has still
to commit it, or it was young when the snapshot was taken. -/
def Unlisted (a : Adapters) (d : Duration) (jobs : ι → Job) (i : ι) (live : List BlobRef) (w : World)
    (calls : List (ι × Call Sys World)) : Prop :=
  ∀ {key}, key ∉ AttachmentGc.liveKeys "fs" live → ∀ {j id input}, jobs j = .submit id input →
    Did (Stored ⟨"fs", key⟩) j calls → Relinquished jobs id w calls ∨ ¬ Did Patched j calls ∨
      ∀ {b}, w.findBlob ⟨"fs", key⟩ = some b → ∀ c, (i, c) ∈ calls → Snapshot c → b.Young a d c.before.now

/-- The blob is old, and its email needs it no more or its submission did not commit it. -/
def Expired (a : Adapters) (jobs : ι → Job) (key : String) (w : World) (calls : List (ι × Call Sys World)) : Prop :=
  key ∈ w.issued ∧ ∀ {j id input}, jobs j = .submit id input → Did (Stored ⟨"fs", key⟩) j calls →
    ∀ {b}, w.findBlob ⟨"fs", key⟩ = some b → b.isOlderThan w.now a.gracePeriod = true ∧
      (Relinquished jobs id w calls ∨ ¬ Did Patched j calls)

def CollectionAt (a : Adapters) (d : Duration) (jobs : ι → Job) (i : ι) :
    SweepStage → World → List (ι × Call Sys World) → Prop
  | .idle, _, _ | .reading, _, _ | .ended, _, _ => True
  | .listing live, w, calls => Did Snapshot i calls ∧ Unlisted a d jobs i live w calls
  | .sweeping live keys, w, calls => Did Snapshot i calls ∧ Unlisted a d jobs i live w calls ∧
      ∀ key ∈ keys, key ∉ AttachmentGc.liveKeys "fs" live → Expired a jobs key w calls
  | .deleting live key keys, w, calls => Did Snapshot i calls ∧ Unlisted a d jobs i live w calls ∧
      Expired a jobs key w calls ∧ ∀ key ∈ keys, key ∉ AttachmentGc.liveKeys "fs" live → Expired a jobs key w calls

def CollectionTask (a : Adapters) (d : Duration) (jobs : ι → Job) (i : ι) :
    Stage → World → List (ι × Call Sys World) → Prop
  | .sweep st, w, calls => CollectionAt a d jobs i st w calls
  | _, _, _ => True

def Elapsed (w : World) (calls : List (ι × Call Sys World)) : Prop := ∀ x ∈ calls, x.2.before.now ≤ w.now

def collection (a : Adapters) (d : Duration) (jobs : ι → Job) : Outlines ι :=
  (retention a jobs).and Elapsed (CollectionTask a d jobs)

/-- What the sweeps rely on when call `c` of job `k` lands. -/
structure Rely (a : Adapters) (d : Duration) (jobs : ι → Job) (w : World) (calls : List (ι × Call Sys World))
    (k : ι) (c : Call Sys World) (w' : World) : Prop where
  performs : Performs w c.op w' c.reply
  elapsed : Elapsed w calls
  issued : ∀ {j blob}, Did (Stored blob) j calls → blob.key ∈ w.issued
  relinquished : ∀ {id}, Relinquished jobs id w calls → Relinquished jobs id w' (calls ++ [(k, c)])
  stored : ∀ {blob}, Stored blob c → blob.key ∉ w.issued ∧ ¬ Did Patched k (calls ++ [(k, c)])
  committed : ∀ {id input}, jobs k = .submit id input → Patched c → ∀ {blob b}, Did (Stored blob) k calls →
    w.findBlob blob = some b → b.Young a d w.now

section Rely

variable {c : Call Sys World} (h : Rely a d jobs w calls k c w')

include h

theorem Rely.unlisted (hu : Unlisted a d jobs i live w calls) (hc : k = i → ¬ Snapshot c) :
    Unlisted a d jobs i live w' (calls ++ [(k, c)]) := by
  intro key hkey j id input hj hstored
  rcases did_snoc.mp hstored with hbefore | ⟨rfl, hnew⟩
  · have hold {b : Blob} (hb : w'.findBlob ⟨"fs", key⟩ = some b) : w.findBlob ⟨"fs", key⟩ = some b :=
      h.performs.findBlob (h.issued hbefore) hb
    rcases hu hkey hj hbefore with hrel | hun | hyoung
    · exact .inl (h.relinquished hrel)
    · by_cases hnow : j = k ∧ Patched c
      · obtain ⟨rfl, hcommit⟩ := hnow
        refine .inr (.inr fun hb c' hc' hsnap => ?_)
        have hyoung := h.committed hj hcommit hbefore (hold hb)
        rcases List.mem_append.mp hc' with hc' | hc'
        · have hle : c'.before.now ≤ w.now := h.elapsed _ hc'
          simp only [Blob.Young] at hyoung ⊢
          omega
        · obtain ⟨rfl, rfl⟩ := Prod.mk.inj (List.mem_singleton.mp hc')
          exact absurd hsnap (hc rfl)
      · refine .inr (.inl fun hd => ?_)
        rcases did_snoc.mp hd with hd | hd
        · exact hun hd
        · exact hnow hd
    · refine .inr (.inr fun hb c' hc' hsnap => ?_)
      rcases List.mem_append.mp hc' with hc' | hc'
      · exact hyoung (hold hb) c' hc' hsnap
      · obtain ⟨rfl, rfl⟩ := Prod.mk.inj (List.mem_singleton.mp hc')
        exact absurd hsnap (hc rfl)
  · exact .inr (.inl (h.stored hnew).2)

theorem Rely.expired (he : Expired a jobs key w calls) : Expired a jobs key w' (calls ++ [(k, c)]) := by
  refine ⟨h.performs.issued_subset he.1, fun {j id input} hj hstored {b} hb => ?_⟩
  have hb := h.performs.findBlob he.1 hb
  rcases did_snoc.mp hstored with hbefore | ⟨rfl, hnew⟩
  · obtain ⟨hold, hrest⟩ := he.2 hj hbefore hb
    refine ⟨by rw [h.performs.now_eq]; exact hold, ?_⟩
    rcases hrest with hrel | hun
    · exact .inl (h.relinquished hrel)
    · refine .inr fun hd => ?_
      rcases did_snoc.mp hd with hd | ⟨rfl, hcommit⟩
      · exact hun hd
      · -- An old blob is not committed any more.
        have hyoung := h.committed hj hcommit hbefore hb
        simp only [Blob.isOlderThan, Blob.Young, decide_eq_true_eq] at hold hyoung
        omega
  · exact absurd he.1 (h.stored hnew).1

theorem Rely.collectionAt {st : SweepStage} (ht : CollectionAt a d jobs i st w calls) (hc : k = i → ¬ Snapshot c) :
    CollectionAt a d jobs i st w' (calls ++ [(k, c)]) := by
  cases st with
  | idle | reading | ended => trivial
  | listing => exact ⟨ht.1.append _, h.unlisted ht.2 hc⟩
  | sweeping => exact ⟨ht.1.append _, h.unlisted ht.2.1 hc, fun key hk hn => h.expired (ht.2.2 key hk hn)⟩
  | deleting =>
      exact ⟨ht.1.append _, h.unlisted ht.2.1 hc, h.expired ht.2.2.1, fun key hk hn => h.expired (ht.2.2.2 key hk hn)⟩

end Rely

theorem unlisted_of_snapshot (hr : Retention jobs w calls) (hcust : Custody a jobs w calls) :
    ∀ {key}, key ∉ AttachmentGc.liveKeys "fs" w.liveBlobs → ∀ {j id input}, jobs j = .submit id input →
      Did (Stored ⟨"fs", key⟩) j calls → Relinquished jobs id w calls ∨ ¬ Did Patched j calls := by
  intro key hkey j id input hj hstored
  by_cases hpatched : Did Patched j calls
  · rcases hr.listed hj hpatched hstored with hl | hrel
    · obtain ⟨row, hrow, rfl, hterm⟩ := terminal_of_not_live hl fun hlive => hkey (mem_liveKeys.mpr hlive)
      exact .inl (.inl (hcust.terminal row hrow hterm))
    · exact .inl hrel
  · exact .inr hpatched

theorem expired_of_stat {b : Blob} (hr : Retention jobs w calls) (hu : Unlisted a d jobs i live w calls)
    (hsnap : Did Snapshot i calls) (hfresh : ∀ y ∈ calls, y.1 = i → Snapshot y.2 → w.now ≤ y.2.before.now + d.nanos)
    (hkey : key ∉ AttachmentGc.liveKeys "fs" live) (hb : w.findBlob ⟨"fs", key⟩ = some b)
    (hold : b.isOlderThan w.now a.gracePeriod = true) : Expired a jobs key w calls := by
  obtain ⟨hmem, href⟩ := mem_of_findBlob hb
  have hissued := hr.shelved b hmem
  rw [href] at hissued
  refine ⟨hissued, fun {j id input} hj hstored {b'} hb' => ?_⟩
  rw [hb] at hb'
  obtain rfl := Option.some.inj hb'
  refine ⟨hold, ?_⟩
  rcases hu hkey hj hstored with hrel | hun | hyoung
  · exact .inl hrel
  · exact .inr hun
  · obtain ⟨c, hc, hs⟩ := hsnap
    have hle : w.now ≤ c.before.now + d.nanos := hfresh _ hc rfl hs
    have hyoung := hyoung hb c hc hs
    simp only [Blob.isOlderThan, Blob.Young, decide_eq_true_eq] at hold hyoung
    omega

theorem stat_true {backend : String} {age : Duration} {r : Bool} (hp : Performs w (.isOlderThan backend key age) w' r)
    (hr : r = true) : ∃ b, w.findBlob ⟨backend, key⟩ = some b ∧ b.isOlderThan w.now age = true := by
  cases hp with
  | isOlderThan hb => exact ⟨_, hb, hr⟩
  | metadataMissing => cases hr

theorem CollectionAt.step {st st' : SweepStage} (h : Rely a d jobs w calls i ⟨w, op, r, heard⟩ w')
    (ht : CollectionAt a d jobs i st w calls) (hr : Retention jobs w calls) (hcust : Custody a jobs w calls)
    (hfresh : op.readsClock = true → ∀ y ∈ calls, y.1 = i → Snapshot y.2 → w.now ≤ y.2.before.now + d.nanos)
    (hm : SweepMoves a st op r st') : CollectionAt a d jobs i st' w' (calls ++ [(i, ⟨w, op, r, heard⟩)]) := by
  have hp := h.performs
  cases hm with
  | @started flag => cases flag <;> trivial
  | readFailed | listFailed | stopped => trivial
  | @read live =>
      obtain rfl : live = w.liveBlobs := by
        cases h.performs
        rfl
      refine ⟨did_snoc_self.mpr (.inr rfl), fun hkey j id input hj hstored => ?_⟩
      have hold := (did_snoc.mp hstored).resolve_right fun hs => by cases hs.2
      rcases unlisted_of_snapshot hr hcust hkey hj hold with hrel | hun
      · exact .inl (h.relinquished hrel)
      · exact .inr (.inl fun hd => hun ((did_snoc.mp hd).resolve_right fun hs => by cases hs.2))
  | listed =>
      obtain ⟨hsnap, hu⟩ := h.collectionAt ht fun _ hs => (by cases hs)
      exact ⟨hsnap, hu, fun key hk => (by cases hk)⟩
  | @stat live keys name r =>
      obtain ⟨hsnap, hu, hkeys⟩ := h.collectionAt ht fun _ hs => (by cases hs)
      refine ⟨hsnap, hu, fun key hk hn => ?_⟩
      by_cases hk' : key ∈ keys
      · exact hkeys key hk' hn
      · obtain ⟨rfl, rfl⟩ : key = name ∧ r = true := by
          cases r with
          | false => exact absurd hk hk'
          | true => exact ⟨List.mem_singleton.mp ((List.mem_append.mp hk).resolve_left hk'), rfl⟩
        obtain ⟨b, hb, hold⟩ := stat_true hp rfl
        exact h.expired (expired_of_stat hr ht.2.1 ht.1 (hfresh rfl) hn hb hold)
  | spared hlive =>
      obtain ⟨hsnap, hu, hkeys⟩ := h.collectionAt ht fun _ hs => (by cases hs)
      exact ⟨hsnap, hu, fun key hk hn => hkeys key (List.mem_cons_of_mem _ hk) hn⟩
  | doomed hdead =>
      obtain ⟨hsnap, hu, hkeys⟩ := h.collectionAt ht fun _ hs => (by cases hs)
      exact ⟨hsnap, hu, hkeys _ List.mem_cons_self hdead, fun key hk hn => hkeys key (List.mem_cons_of_mem _ hk) hn⟩
  | deleted =>
      obtain ⟨hsnap, hu, -, hkeys⟩ := h.collectionAt ht fun _ hs => (by cases hs)
      exact ⟨hsnap, hu, hkeys⟩

theorem CollectionAt.drift {st : SweepStage} {e : Drift} (ht : CollectionAt a d jobs i st w calls) (hd : Drifts w e w') :
    CollectionAt a d jobs i st w' calls := by
  have hunlisted {live : List BlobRef} (hu : Unlisted a d jobs i live w calls) : Unlisted a d jobs i live w' calls := by
    intro key hkey j id input hj hstored
    refine (hu hkey hj hstored).imp (fun hrel => hrel.drift hd) (Or.imp_right fun hyoung {b} hb => ?_)
    exact hyoung (hd.findBlob ▸ hb)
  have hexpired {key : String} (he : Expired a jobs key w calls) : Expired a jobs key w' calls := by
    refine ⟨hd.blobs.2 ▸ he.1, fun {j id input} hj hstored {b} hb => ?_⟩
    obtain ⟨hold, hrest⟩ := he.2 hj hstored (hd.findBlob ▸ hb)
    refine ⟨?_, hrest.imp_left fun hrel => hrel.drift hd⟩
    have hle := hd.now_le
    simp only [Blob.isOlderThan, decide_eq_true_eq] at hold ⊢
    omega
  cases st with
  | idle | reading | ended => trivial
  | listing => exact ⟨ht.1, hunlisted ht.2⟩
  | sweeping => exact ⟨ht.1, hunlisted ht.2.1, fun key hk hn => hexpired (ht.2.2 key hk hn)⟩
  | deleting => exact ⟨ht.1, hunlisted ht.2.1, hexpired ht.2.2.1, fun key hk hn => hexpired (ht.2.2.2 key hk hn)⟩

theorem not_patched_of_stored {c : Call Sys World} (h : Stored blob c) : ¬ Patched c := by
  obtain ⟨before, op, r, heard⟩ := c
  cases op with
  | putBlob => intro hc; cases hc
  | _ => cases h

theorem rely_of_lands (hd : DistinctIds jobs) {s : System ι} {act : Act ι} (h : (collection a d jobs).Holds s)
    (htimely : Timely a d s) {st st' : Stage} (hl : Pool.Lands machine s act k op w r heard)
    (hm : JobMoves a (jobs k) st op r st') (ht : (retention a jobs).task k st s.world s.calls) :
    Rely a d jobs s.world s.calls k ⟨s.world, op, r, heard⟩ w := by
  have hacc := records_acceptance h.left.left
  have hp := lands_performs hl
  constructor
  · exact hp
  · exact h.1.2
  · exact (records_ownership h.left.left).1.issued
  · exact fun hrel => hrel.snoc hd hp hm ht.1.1.1 fun hop => fresh_enqueue hd hacc hl hop
  · intro blob hs
    obtain ⟨-, refs, rfl⟩ := stored_moves hm hs
    exact ⟨(stored_performs hp hs).1, not_did_snoc (fun hdid => absurd (ht.2.mp hdid) (by decide))
      (not_patched_of_stored hs)⟩
  · intro id input hk hc blob b hstored hb
    obtain ⟨hmem, rfl⟩ := mem_of_findBlob hb
    have hm' : JobMoves a (.submit id input) st op r st' := hk ▸ hm
    obtain ⟨refs, row, rfl, -⟩ := commit_moves hm' hp hc
    obtain ⟨c, hcall, hc'⟩ := hstored
    exact htimely b hmem (k, c) hcall hc' (lands_running hl) (ht.1.1.1 hk).2.2 fun hdid => absurd (ht.2.mp hdid) (by decide)

theorem collection_keeps (hd : DistinctIds jobs) {s : System ι} {act : Act ι} (htimely : Timely a d s)
    (hfresh : SnapshotFresh d s act) (h : (collection a d jobs).Holds s) :
    (collection a d jobs).Keeps machine s act := by
  refine (retention_keeps hd h.left).and ?_
  have hrely {k : ι} {op : Effect} {w : World} {r : op.Reply} {heard : Bool} {st st' : Stage}
      (hl : Pool.Lands machine s act k op w r heard) (hm : JobMoves a (jobs k) st op r st')
      (ht : (retention a jobs).task k st s.world s.calls) := rely_of_lands hd h htimely hl hm ht
  exact {
    shared := by
      intro i op w r heard st st' hl hm ht x hx
      rw [(lands_performs hl).now_eq]
      rcases List.mem_append.mp hx with hx | hx
      · exact h.1.2 x hx
      · obtain rfl := List.mem_singleton.mp hx
        exact Nat.le_refl _
    own := by
      intro i op w r st st' hl hm ht
      have hr := hrely hl hm ht.1
      have hmoves : JobMoves a (jobs i) st op r st' := hm
      have htask := ht.2
      clear hm ht
      generalize jobs i = job at hmoves
      cases hmoves with
      | sweep hsweep =>
          exact CollectionAt.step hr htask h.1.1.2 (records_custody h.left.left).1
            (fun hclock y hy hyi hs => hfresh _ (Pool.landed_of_lands true hl) hclock y hy hyi hs) hsweep
      | submit | turn => trivial
    other := by
      intro i op w r heard st st' hl hm ht j stj p hji _ _ htj
      cases stj with
      | sweep stj => exact (hrely hl hm ht.1).collectionAt htj fun hij => absurd hij.symm hji
      | submit | turn => trivial
    drift := by
      intro e w hdrift
      have hdr := drifts hdrift
      refine ⟨fun x hx => Nat.le_trans (h.1.2 x hx) hdr.now_le, fun {j stj} hj => ?_⟩
      cases stj with
      | sweep stj => exact CollectionAt.drift hj hdr
      | submit | turn => trivial }

theorem Needed.stored (hd : DistinctIds jobs) {s : System ι} (h : (retention a jobs).Holds s) (hn : Needed jobs s blob) :
    ∃ j id input, jobs j = .submit id input ∧ Did (Stored blob) j s.calls ∧ ¬ Relinquished jobs id s.world s.calls ∧
      (Did Patched j s.calls ∨ (Running s j ∧ ¬ Did HasFailed j s.calls)) := by
  have hacc := (records_acceptance h.left).1
  have hcust := (records_custody h.left).1
  have hret := h.1.2
  -- The email was enqueued by its own submission.
  have hoffered {j : ι} {id : EmailId} {input : SubmitEmailInput} (hj : jobs j = .submit id input)
      (hseen : Seen (Offered id) s.calls) : Did (Offered id) j s.calls := by
    obtain ⟨k, hk⟩ := hseen
    obtain ⟨input', hjob⟩ := hacc.offered hk
    exact hd hjob hj ▸ hk
  rcases hn with ⟨id, hout, hrefers⟩ | ⟨j, id, input, hj, hrunning, hstored, hnot, hfail⟩
  · have hown := hret.own hout
    obtain ⟨j, input, hj, hstored⟩ := hret.storedBy hown hrefers
    have hoff := hoffered hj (hcust.origin hown hout)
    refine ⟨j, id, input, hj, hstored, ?_, .inl (hret.patched hoff hstored)⟩
    rintro (hreleased | hwithdrawn)
    · exact (hreleased hown).2 hout
    · exact hwithdrawn.2 hout
  · refine ⟨j, id, input, hj, hstored, ?_, .inr ⟨hrunning, hfail⟩⟩
    rintro (hreleased | ⟨⟨k, input', hk, hfailed⟩, -⟩)
    · obtain ⟨c, hc, hoff⟩ := hoffered hj (hreleased ⟨j, input, hj⟩).1
      rcases enqueued_or_failed hoff with henq | hfailed
      · exact hnot ⟨c, hc, henq⟩
      · exact hfail ⟨c, hc, hfailed⟩
    · exact hfail (hd hk hj ▸ hfailed)

theorem Expired.not_needed (hd : DistinctIds jobs) {s : System ι} {b : Blob} (h : (collection a d jobs).Holds s)
    (htimely : Timely a d s) (he : Expired a jobs key s.world s.calls) (hb : b ∈ s.world.blobs)
    (href : b.ref = ⟨"fs", key⟩) : ¬ Needed jobs s b.ref := by
  obtain ⟨b', hb'⟩ : ∃ b', s.world.findBlob ⟨"fs", key⟩ = some b' :=
    Option.isSome_iff_exists.mp (List.find?_isSome.mpr ⟨b, hb, decide_eq_true href⟩)
  rw [href]
  intro hn
  obtain ⟨j, id, input, hj, hstored, hnrel, hlisted⟩ := hn.stored hd h.left
  obtain ⟨hold, hrel | hun⟩ := he.2 hj hstored hb'
  · exact hnrel hrel
  · obtain ⟨hrunning, hfail⟩ := hlisted.resolve_left hun
    obtain ⟨hmem, href'⟩ := mem_of_findBlob hb'
    obtain ⟨c, hc, hs⟩ := hstored
    have hyoung := htimely b' hmem (j, c) hc (href' ▸ hs) hrunning hfail hun
    simp only [Blob.isOlderThan, Blob.Young, decide_eq_true_eq] at hold hyoung
    omega

theorem collection_start (hw : Ready jobs w) (hv : Vacant jobs w) (hk : w.KeysIssued) (hb : w.BlobsIssued)
    (ho : ∀ id, ¬ w.Outstanding id) :
    (collection a d jobs).shared w [] ∧ ∀ i, (collection a d jobs).task i (jobs i).start w [] := by
  have hrecords := records_start (a := a) hw hv hk
  refine ⟨⟨⟨hrecords.1, retention_start hw hb ho⟩, fun x hx => absurd hx List.not_mem_nil⟩,
    fun i => ⟨⟨hrecords.2 i, retentionTask_start (jobs i)⟩, ?_⟩⟩
  cases jobs i <;> trivial

theorem expired_of_delete {s : System ι} {act : Act ι} {r : Except AttachmentStoreError Unit} (h : (collection a d jobs).Holds s)
    (hl : Pool.Lands machine s act i (.deleteBlob blob) w r heard) (hi : jobs i = .sweep) :
    ∃ key, blob = ⟨"fs", key⟩ ∧ Expired a jobs key s.world s.calls := by
  obtain ⟨next, c, ht, -, -⟩ := hl
  obtain ⟨st, hf, hat⟩ := h.2 i _ ht
  obtain ⟨st', hm, -⟩ := hf r
  have hm : JobMoves a (jobs i) st (.deleteBlob blob) r st' := hm
  rw [hi] at hm
  obtain ⟨s₁, s₂, rfl, -, hsweep⟩ := sweep_moves hm
  cases hsweep with
  | deleted => exact ⟨_, rfl, hat.2.2.2.1⟩

/-- As long as the submissions commit their attachments in time and the sweeps compare ages
soon after their snapshots, no sweep deletes a blob that is needed. -/
theorem needed_blobs_spared [DecidableEq ι] {as : List (Act ι)} (hw : Ready jobs w) (hv : Vacant jobs w) (hk : w.KeysIssued)
    (hb : w.BlobsIssued) (ho : ∀ id, ¬ w.Outstanding id)
    (hm : (System.start a w jobs).Meets machine (fun s act => Timely a d s ∧ SnapshotFresh d s act) as) :
    (System.start a w jobs).Meets machine (SparesNeeded jobs) as := by
  have hstart := collection_start (a := a) (d := d) hw hv hk hb ho
  have hinv := Pool.meets_of_invariant (J := (collection a d jobs).Holds)
    (fun h hc hs => Pool.Outline.step h (collection_keeps hw.distinct hc.1 hc.2) hs)
    (holds_start (fun i => program_follows (jobs i)) hstart.1 hstart.2) hm
  refine hinv.mono ?_
  rintro s act ⟨h, htimely, -⟩ ⟨i, c⟩ hlanded hi b hmem hop
  obtain ⟨w', hl⟩ := Pool.lands_of_landed hlanded
  obtain ⟨before, op, r, heard⟩ := c
  obtain rfl : op = .deleteBlob b.ref := hop
  obtain ⟨key, href, he⟩ := expired_of_delete h hl hi
  exact he.not_needed hw.distinct h htimely hmem href

/-- A blob that no email refers to has been stored for a long time. -/
def littered : World := { World.empty with blobs := [⟨⟨"fs", "old"⟩, [], 0⟩], issued := ["old"] }

def submitAndSweep (k : Nat) : Job :=
  if k = 0 then
    .submit ⟨1⟩ (plainSubmission none [.inline "invoice.pdf" "application/pdf" [37, 80, 68, 70]])
  else .sweep

/-- The sweep takes its snapshot between the put and the commit of the submission. -/
def sweepBetween : List (Act Nat) :=
  [.drift (.tick 3600000000000), .step 0 {}, .step 0 { key := "a1", stamp := 3600000000000 }, .step 1 {}, .step 1 {},
    .step 0 {}, .step 0 { uuid := 1 }, .drift (.tick 1000000000), .step 1 { names := ["a1", "old"] }, .step 1 {}, .step 1 {},
    .step 1 {}, .step 1 {}]

theorem distinct_submitAndSweep : DistinctIds submitAndSweep := by
  intro i j id input input' hi hj
  simp only [submitAndSweep] at hi hj
  split at hi <;> cases hi
  split at hj <;> cases hj
  omega

theorem idle_littered (id : EmailId) : ¬ littered.Outstanding id := by
  rintro (⟨e, he, -⟩ | hpos)
  · cases he
  · cases hpos

theorem needed_blob_spared : ∃ s, Reaches ⟨.sqlite, .sqlite, .fromSecs 3600⟩ littered submitAndSweep sweepBetween s ∧
    s.world.blobs.map Blob.ref = [⟨"fs", "a1"⟩] ∧ s.world.queue.map QueueEntry.emailId = [⟨1⟩] ∧
    (System.start ⟨.sqlite, .sqlite, .fromSecs 3600⟩ littered submitAndSweep).Meets machine (SparesNeeded submitAndSweep)
      sweepBetween := by
  refine ⟨_, rfl, rfl, rfl, ?_⟩
  exact needed_blobs_spared (d := .fromSecs 1) (ready_of_no_emails distinct_submitAndSweep rfl)
    ⟨fun _ => idle_littered _, fun row hrow => (by cases hrow)⟩ (fun row hrow => (by cases hrow)) (by decide) idle_littered (by decide)

end Catapulte
