import Catapulte.Http.LimitedReader

namespace Catapulte.LimitedReader

open Async
open Stream' (Seq)

variable {P : Type}

structure Polled (P : Type) where
  reader : LimitedReader P
  buf : ReadBuf
  answer : Poll (Except IoError Unit)
  after : ReadBuf
  next : LimitedReader P

namespace Polled

def of [PollRead P] (self : LimitedReader P) (buf : ReadBuf) : Polled P :=
  ⟨self, buf, (pollBuf self buf).1, (pollBuf self buf).2.1, (pollBuf self buf).2.2⟩

/-- What the poll appended to the caller's buffer. -/
def bytes (p : Polled P) : List UInt8 := p.after.filled.drop p.buf.filled.length

def EndOfFile (p : Polled P) : Prop := p.answer = .ready (.ok ()) ∧ p.bytes = []

def Exceeds (p : Polled P) : Prop := p.next.exhausted = true

/-- Neither pending nor failed for the inner reader. -/
def settled (p : Polled P) : Bool :=
  match p.answer with
  | .ready (.ok ()) => true
  | _ => p.next.exhausted

variable {p : Polled P}

theorem bytes_eq {bytes : List UInt8} (hfilled : p.after.filled = p.buf.filled ++ bytes) : p.bytes = bytes := by
  rw [Polled.bytes, hfilled, List.drop_left]

theorem bytes_eq_nil (hfilled : p.after.filled = p.buf.filled) : p.bytes = [] := by
  rw [Polled.bytes, hfilled, List.drop_length]

end Polled

def delivered (run : List (Polled P)) : List UInt8 := run.flatMap Polled.bytes

theorem count_le_delivered (run : List (Polled P)) (h : ∀ p ∈ run, p.settled = true → p.bytes ≠ []) :
    run.countP Polled.settled ≤ (delivered run).length := by
  induction run with
  | nil => exact Nat.le_refl 0
  | cons p run ih =>
      have hrun := ih fun q hq => h q (List.mem_cons_of_mem p hq)
      rw [delivered, List.flatMap_cons, List.length_append, List.countP_cons]
      by_cases hsettled : p.settled = true
      · have hpos := List.length_pos_of_ne_nil (h p List.mem_cons_self hsettled)
        rw [if_pos hsettled]
        exact Nat.add_comm _ _ ▸ Nat.add_le_add hpos hrun
      · rw [if_neg hsettled]
        exact Nat.le_trans hrun (Nat.le_add_left _ _)

variable [PollRead P]

def pollAll (self : LimitedReader P) : List ReadBuf → List (Polled P)
  | [] => []
  | buf :: bufs => .of self buf :: pollAll (Polled.of self buf).next bufs

variable {limit : Nat} {s : Seq UInt8} {done : List UInt8} {self : LimitedReader P} {buf : ReadBuf} {bufs : List ReadBuf}

structure Reading (limit : Nat) (s : Seq UInt8) (done : List UInt8) (reader : LimitedReader P) : Prop where
  exhausted : reader.exhausted = false
  remaining : reader.remaining + done.length = limit
  taken : done = s.take done.length
  inner : Denotes reader.inner (s.drop done.length)

structure Exceeded (limit : Nat) (s : Seq UInt8) (done : List UInt8) (reader : LimitedReader P) : Prop where
  exhausted : reader.exhausted = true
  remaining : reader.remaining = 0
  length : done.length = limit
  taken : done = s.take done.length
  more : ¬ s.TerminatedAt limit

/-- What one poll of a reader that has given `done` can do. -/
inductive Move (limit : Nat) (s : Seq UInt8) (done : List UInt8) (p : Polled P) : Prop
  | gives (bytes : List UInt8) (some : bytes ≠ []) (answer : p.answer = .ready (.ok ()))
      (filled : p.after.filled = p.buf.filled ++ bytes) (next : Reading limit s (done ++ bytes) p.next)
  | ends (answer : p.answer = .ready (.ok ())) (filled : p.after.filled = p.buf.filled)
      (terminated : s.TerminatedAt done.length) (next : Reading limit s done p.next)
  | exceeds (answer : p.answer = .ready (.error sizeLimit)) (filled : p.after.filled = p.buf.filled)
      (remaining : p.next.remaining = p.reader.remaining) (next : Exceeded limit s done p.next)
  | relays (answer : p.answer ≠ .ready (.ok ())) (relayed : ∃ lent, p.answer = (pollBuf p.reader.inner lent).1)
      (filled : p.after.filled = p.buf.filled) (remaining : p.next.remaining = p.reader.remaining)
      (next : Reading limit s done p.next)

theorem take_append_take_drop {α : Type} (s : Seq α) (m n : Nat) : s.take m ++ (s.drop m).take n = s.take (m + n) := by
  induction m generalizing s with
  | zero => rw [Seq.take_zero, List.nil_append, Seq.drop_zero, Nat.zero_add]
  | succ m ih =>
      cases s with
      | nil => rw [Seq.take_nil, Seq.drop_nil, Seq.take_nil, Seq.take_nil]; rfl
      | cons x s => rw [Nat.add_right_comm, Seq.take_succ_cons, Seq.take_succ_cons, Seq.drop_succ_cons, List.cons_append, ih]

theorem take_append {bytes : List UInt8} (hdone : done = s.take done.length)
    (hbytes : bytes = (s.drop done.length).take bytes.length) : done ++ bytes = s.take (done ++ bytes).length := by
  rw [List.length_append, ← take_append_take_drop, ← hdone, ← hbytes]

theorem Reading.of_answer {bytes : List UInt8} {inner : P} (h : Reading limit s done self)
    (hle : bytes.length ≤ self.remaining) (hbytes : bytes = (s.drop done.length).take bytes.length)
    (hinner : Denotes inner ((s.drop done.length).drop bytes.length)) :
    Reading limit s (done ++ bytes) { self with inner, remaining := self.remaining - bytes.length } where
  exhausted := h.exhausted
  remaining := by
    have hremaining := h.remaining
    simp only [List.length_append]
    omega
  taken := take_append h.taken hbytes
  inner := by rwa [List.length_append, Seq.dropn_add]

theorem Reading.relayed {inner : P} (h : Reading limit s done self) (hinner : Denotes inner (s.drop done.length)) :
    Reading limit s done { self with inner } := ⟨h.exhausted, h.remaining, h.taken, hinner⟩

theorem terminatedAt_drop {n : Nat} : (s.drop n).TerminatedAt 0 ↔ s.TerminatedAt n := by
  rw [Seq.TerminatedAt, Seq.drop_get?, Nat.add_zero, Seq.TerminatedAt]

theorem not_terminatedAt_of_take {bytes : List UInt8} (htake : bytes = s.take bytes.length) (hsome : bytes ≠ []) :
    ¬ s.TerminatedAt 0 := by
  intro hnone
  have hpos := List.length_pos_of_ne_nil hsome
  have hget := congrArg (·[0]?) htake
  simp only [Seq.getElem?_take, if_pos hpos, List.getElem?_eq_getElem hpos] at hget
  exact Option.some_ne_none _ (hget.trans hnone)

theorem Reading.probe (h : Reading limit s done self) (hzero : self.remaining = 0) :
    Move limit s done (Polled.of self buf) := by
  have hlength : done.length = limit := by
    have hremaining := h.remaining
    omega
  have hpoll := readsAlong_denotes _ _ h.inner (.new [0]) Nat.one_pos
  rcases hinner : pollBuf self.inner (.new [0]) with ⟨answer, probe, inner⟩
  rw [hinner] at hpoll
  match answer with
  | .pending =>
      have hof : Polled.of self buf = ⟨self, buf, .pending, buf, { self with inner }⟩ := by
        simp [Polled.of, pollBuf, h.exhausted, hzero, hinner]
      rw [hof]
      exact .relays (fun h => by cases h) ⟨_, by rw [hinner]⟩ rfl rfl (h.relayed hpoll)
  | .ready (.error e) =>
      have hof : Polled.of self buf = ⟨self, buf, .ready (.error e), buf, { self with inner }⟩ := by
        simp [Polled.of, pollBuf, h.exhausted, hzero, hinner]
      rw [hof]
      exact .relays (fun h => by cases h) ⟨_, by rw [hinner]⟩ rfl rfl (h.relayed hpoll)
  | .ready (.ok ()) =>
      obtain ⟨bytes, hfilled, htake, hend, hrest⟩ := hpoll
      rw [ReadBuf.filled_new, List.nil_append] at hfilled
      cases bytes with
      | nil =>
          have hof : Polled.of self buf = ⟨self, buf, .ready (.ok ()), buf, { self with inner }⟩ := by
            simp [Polled.of, pollBuf, h.exhausted, hzero, hinner, hfilled]
          rw [hof]
          exact .ends rfl rfl (terminatedAt_drop.mp (hend rfl)) (h.relayed hrest)
      | cons b bs =>
          have hof : Polled.of self buf =
              ⟨self, buf, .ready (.error sizeLimit), buf, { self with inner, exhausted := true }⟩ := by
            simp [Polled.of, pollBuf, h.exhausted, hzero, hinner, hfilled]
          have hmore : ¬ s.TerminatedAt limit := by
            rw [← hlength, ← terminatedAt_drop]
            exact not_terminatedAt_of_take htake (List.cons_ne_nil b bs)
          rw [hof]
          exact .exceeds rfl rfl rfl ⟨rfl, hzero, hlength, h.taken, hmore⟩

theorem cap_pos (hbuf : 0 < buf.remaining) {n : Nat} (hn : n ≠ 0) : 0 < cap n buf := by
  have husize : 0 < 2 ^ 64 - 1 := by decide
  exact Nat.lt_min.mpr ⟨Nat.lt_min.mpr ⟨Nat.pos_of_ne_zero hn, husize⟩, hbuf⟩

theorem cap_le_limit (n : Nat) : cap n buf ≤ n := Nat.le_trans (Nat.min_le_left _ _) (Nat.min_le_left _ _)

theorem Reading.read (h : Reading limit s done self) (hbuf : 0 < buf.remaining) (hpos : self.remaining ≠ 0) :
    Move limit s done (Polled.of self buf) := by
  have hpoll := readsAlong_denotes _ _ h.inner (buf.lend (cap self.remaining buf) (cap_le _ _))
    (by rw [ReadBuf.remaining_lend]; exact cap_pos hbuf hpos)
  rcases hinner : pollBuf self.inner (buf.lend (cap self.remaining buf) (cap_le _ _)) with ⟨answer, ⟨lent, hlent⟩, inner⟩
  rw [hinner] at hpoll
  match answer with
  | .pending =>
      have hof : Polled.of self buf = ⟨self, buf, .pending, ReadBuf.giveBack hlent, { self with inner }⟩ := by
        simp [Polled.of, pollBuf, h.exhausted, hpos, hinner]
      rw [hof]
      exact .relays (fun h => by cases h) ⟨_, by rw [hinner]⟩ rfl rfl (h.relayed hpoll)
  | .ready (.error e) =>
      have hof : Polled.of self buf = ⟨self, buf, .ready (.error e), ReadBuf.giveBack hlent, { self with inner }⟩ := by
        simp [Polled.of, pollBuf, h.exhausted, hpos, hinner]
      rw [hof]
      exact .relays (fun h => by cases h) ⟨_, by rw [hinner]⟩ rfl rfl (h.relayed hpoll)
  | .ready (.ok ()) =>
      obtain ⟨bytes, hfilled, htake, hend, hrest⟩ := hpoll
      rw [ReadBuf.filled_lend, List.nil_append] at hfilled
      subst hfilled
      have hof : Polled.of self buf = ⟨self, buf, .ready (.ok ()),
          (ReadBuf.giveBack hlent).advance lent.filled.length (ReadBuf.filled_lent_le hlent),
          { self with inner, remaining := self.remaining - lent.filled.length }⟩ := by
        simp [Polled.of, pollBuf, h.exhausted, hpos, hinner]
      have hle : lent.filled.length ≤ self.remaining := by
        have hcapacity := hlent.trans (ReadBuf.capacity_lend _ _ _)
        rw [ReadBuf.capacity_eq] at hcapacity
        have hcap : cap self.remaining buf ≤ self.remaining := cap_le_limit _
        omega
      have hnext := h.of_answer hle htake hrest
      have hafter := ReadBuf.filled_advance_giveBack hlent
      rw [hof]
      by_cases hnone : lent.filled = []
      · have happend (bytes : List UInt8) : bytes ++ lent.filled = bytes := by rw [hnone, List.append_nil]
        rw [happend] at hnext
        exact .ends rfl (hafter.trans (happend _)) (terminatedAt_drop.mp (hend hnone)) hnext
      · exact .gives lent.filled hnone rfl hafter hnext

theorem Exceeded.poll (h : Exceeded limit s done self) :
    Polled.of self buf = ⟨self, buf, .ready (.error sizeLimit), buf, self⟩ := by
  simp [Polled.of, pollBuf, h.exhausted]

inductive At (limit : Nat) (s : Seq UInt8) (done : List UInt8) (reader : LimitedReader P) : Prop
  | reading (h : Reading limit s done reader)
  | exceeded (h : Exceeded limit s done reader)

theorem At.move (h : At limit s done self) (hbuf : 0 < buf.remaining) : Move limit s done (Polled.of self buf) := by
  cases h with
  | reading h =>
      by_cases hzero : self.remaining = 0
      · exact h.probe hzero
      · exact h.read hbuf hzero
  | exceeded h =>
      rw [h.poll]
      exact .exceeds rfl rfl rfl h

open Polled (bytes_eq bytes_eq_nil)

namespace Move

variable {p : Polled P}

theorem at_next (h : Move limit s done p) : At limit s (done ++ p.bytes) p.next := by
  cases h with
  | gives bytes _ _ hfilled hnext => rw [bytes_eq hfilled]; exact .reading hnext
  | ends _ hfilled _ hnext => rw [bytes_eq_nil hfilled, List.append_nil]; exact .reading hnext
  | exceeds _ hfilled _ hnext => rw [bytes_eq_nil hfilled, List.append_nil]; exact .exceeded hnext
  | relays _ _ hfilled _ hnext => rw [bytes_eq_nil hfilled, List.append_nil]; exact .reading hnext

theorem filled_append (h : Move limit s done p) : p.after.filled = p.buf.filled ++ p.bytes := by
  cases h with
  | gives bytes _ _ hfilled _ => rw [bytes_eq hfilled, hfilled]
  | ends _ hfilled _ _ => rw [bytes_eq_nil hfilled, hfilled, List.append_nil]
  | exceeds _ hfilled _ _ => rw [bytes_eq_nil hfilled, hfilled, List.append_nil]
  | relays _ _ hfilled _ _ => rw [bytes_eq_nil hfilled, hfilled, List.append_nil]

theorem unmoved (h : Move limit s done p) (hanswer : p.answer ≠ .ready (.ok ())) :
    p.bytes = [] ∧ p.next.remaining = p.reader.remaining := by
  cases h with
  | gives _ _ hok _ _ => exact absurd hok hanswer
  | ends hok _ _ _ => exact absurd hok hanswer
  | exceeds _ hfilled hremaining _ => exact ⟨bytes_eq_nil hfilled, hremaining⟩
  | relays _ _ hfilled hremaining _ => exact ⟨bytes_eq_nil hfilled, hremaining⟩

theorem over_of_endOfFile (h : Move limit s done p) (hend : p.EndOfFile) : s.TerminatedAt done.length := by
  obtain ⟨hanswer, hbytes⟩ := hend
  cases h with
  | gives bytes hsome _ hfilled _ => exact absurd ((bytes_eq hfilled).symm.trans hbytes) hsome
  | ends _ _ hover _ => exact hover
  | exceeds herror _ _ _ => exact absurd (herror.symm.trans hanswer) (fun h => by cases h)
  | relays herror _ _ _ _ => exact absurd hanswer herror

theorem exceeded_of_exceeds (h : Move limit s done p) (hexceeds : p.Exceeds) :
    p.answer = .ready (.error sizeLimit) ∧ p.bytes = [] ∧ Exceeded limit s done p.next := by
  have hreading {bytes : List UInt8} (hnext : Reading limit s bytes p.next) : False :=
    Bool.false_ne_true (hnext.exhausted.symm.trans hexceeds)
  cases h with
  | gives _ _ _ _ hnext => exact (hreading hnext).elim
  | ends _ _ _ hnext => exact (hreading hnext).elim
  | exceeds hanswer hfilled _ hnext => exact ⟨hanswer, bytes_eq_nil hfilled, hnext⟩
  | relays _ _ _ _ hnext => exact (hreading hnext).elim

theorem relayed_of_not_exceeds (h : Move limit s done p) (hanswer : p.answer ≠ .ready (.ok ())) (hexceeds : ¬ p.Exceeds) :
    ∃ lent, p.answer = (pollBuf p.reader.inner lent).1 := by
  cases h with
  | gives _ _ hok _ _ => exact absurd hok hanswer
  | ends hok _ _ _ => exact absurd hok hanswer
  | exceeds _ _ _ hnext => exact absurd hnext.exhausted hexceeds
  | relays _ hrelayed _ _ _ => exact hrelayed

theorem some_of_settled (h : Move limit s done p) (hsettled : p.settled = true) (hend : ¬ p.EndOfFile) (hexceeds : ¬ p.Exceeds) :
    p.bytes ≠ [] := by
  cases h with
  | gives bytes hsome _ hfilled _ => rwa [bytes_eq hfilled]
  | ends hok hfilled _ _ => exact absurd ⟨hok, bytes_eq_nil hfilled⟩ hend
  | exceeds _ _ _ hnext => exact absurd hnext.exhausted hexceeds
  | relays herror _ _ _ hnext =>
      have hunsettled : p.settled = false := by
        rw [Polled.settled, hnext.exhausted]
        split
        · exact absurd ‹_› herror
        · rfl
      exact absurd (hunsettled.symm.trans hsettled) Bool.false_ne_true

end Move

theorem At.split (h : At limit s done self) (hbufs : ∀ buf ∈ bufs, 0 < buf.remaining) {before later : List (Polled P)}
    {p : Polled P} (hrun : pollAll self bufs = before ++ p :: later) :
    At limit s (done ++ delivered before) p.reader ∧ Move limit s (done ++ delivered before) p ∧
      ∃ rest, (∀ buf ∈ rest, 0 < buf.remaining) ∧ later = pollAll p.next rest := by
  induction bufs generalizing self done before with
  | nil => exact absurd hrun (List.append_ne_nil_of_right_ne_nil _ (List.cons_ne_nil _ _)).symm
  | cons buf bufs ih =>
      have hmove := h.move (hbufs buf List.mem_cons_self)
      have hrest : ∀ buf ∈ bufs, 0 < buf.remaining := fun buf hbuf => hbufs buf (List.mem_cons_of_mem _ hbuf)
      cases before with
      | nil =>
          obtain ⟨rfl, rfl⟩ := List.cons.inj hrun
          rw [delivered, List.flatMap_nil, List.append_nil]
          exact ⟨h, hmove, bufs, hrest, rfl⟩
      | cons q before =>
          obtain ⟨rfl, htail⟩ := List.cons.inj hrun
          have hsplit := ih hmove.at_next hrest htail
          rwa [List.append_assoc] at hsplit

theorem At.last (h : At limit s done self) (hbufs : ∀ buf ∈ bufs, 0 < buf.remaining) :
    ∃ last : LimitedReader P, At limit s (done ++ delivered (pollAll self bufs)) last := by
  induction bufs generalizing self done with
  | nil => exact ⟨self, by rwa [pollAll, delivered, List.flatMap_nil, List.append_nil]⟩
  | cons buf bufs ih =>
      have hmove := h.move (hbufs buf List.mem_cons_self)
      obtain ⟨last, hlast⟩ := ih hmove.at_next (fun buf hbuf => hbufs buf (List.mem_cons_of_mem _ hbuf))
      rw [List.append_assoc] at hlast
      exact ⟨last, hlast⟩

theorem At.taken (h : At limit s done self) : done = s.take done.length ∧ done.length ≤ limit := by
  cases h with
  | reading h =>
      have hremaining := h.remaining
      exact ⟨h.taken, by omega⟩
  | exceeded h => exact ⟨h.taken, Nat.le_of_eq h.length⟩

theorem Exceeded.run (h : Exceeded limit s done self) :
    ∀ p ∈ pollAll self bufs, p.answer = .ready (.error sizeLimit) ∧ p.bytes = [] := by
  induction bufs with
  | nil => exact fun p hp => absurd hp List.not_mem_nil
  | cons buf bufs ih =>
      intro p hp
      rw [pollAll, h.poll, List.mem_cons] at hp
      rcases hp with rfl | hp
      · exact ⟨rfl, bytes_eq_nil rfl⟩
      · exact ih p hp

/-- What holds of the polls of a reader with a limit over a reader of the stream. -/
structure Capped (limit : Nat) (s : Seq UInt8) (run : List (Polled P)) : Prop where
  taken : delivered run = s.take (delivered run).length
  within : (delivered run).length ≤ limit
  kept : ∀ p ∈ run, p.after.filled = p.buf.filled ++ p.bytes ∧ p.after.capacity = p.buf.capacity
  unmoved : ∀ p ∈ run, p.answer ≠ .ready (.ok ()) → p.bytes = [] ∧ p.next.remaining = p.reader.remaining
  relayed : ∀ p ∈ run, p.answer ≠ .ready (.ok ()) → ¬ p.Exceeds → ∃ lent, p.answer = (pollBuf p.reader.inner lent).1
  ended : ∀ before p later, run = before ++ p :: later → p.EndOfFile → s.TerminatedAt (delivered before).length
  exceeded : ∀ before p later, run = before ++ p :: later → p.Exceeds →
    delivered before = s.take limit ∧ (delivered before).length = limit ∧ ¬ s.TerminatedAt limit ∧
      ∀ q ∈ p :: later, q.answer = .ready (.error sizeLimit) ∧ q.bytes = []
  decided : limit < run.countP Polled.settled →
    ((∃ p ∈ run, p.EndOfFile) ↔ s.TerminatedAt limit) ∧ ((∃ p ∈ run, p.Exceeds) ↔ ¬ s.TerminatedAt limit)

theorem capacity_of_mem : ∀ p ∈ pollAll self bufs, p.after.capacity = p.buf.capacity := by
  induction bufs generalizing self with
  | nil => exact fun p hp => absurd hp List.not_mem_nil
  | cons buf bufs ih =>
      intro p hp
      rcases List.mem_cons.mp hp with rfl | hp
      · exact (pollBuf self buf).2.1.property
      · exact ih p hp

theorem capped {inner : P} (h : Denotes inner s) (hbufs : ∀ buf ∈ bufs, 0 < buf.remaining) :
    Capped limit s (pollAll (.new inner limit) bufs) := by
  have hstart : At limit s [] (.new inner limit) := .reading ⟨rfl, rfl, Seq.take_zero.symm, h⟩
  obtain ⟨last, hlast⟩ := hstart.last hbufs
  obtain ⟨htaken, hwithin⟩ := hlast.taken
  have hmove {p : Polled P} (hp : p ∈ pollAll (.new inner limit) bufs) : ∃ done, Move limit s done p := by
    obtain ⟨before, later, hrun⟩ := List.append_of_mem hp
    exact ⟨_, (hstart.split hbufs hrun).2.1⟩
  have hended : ∀ before p later, pollAll (.new inner limit) bufs = before ++ p :: later → p.EndOfFile →
      s.TerminatedAt (delivered before).length :=
    fun before p later hrun hend => (hstart.split hbufs hrun).2.1.over_of_endOfFile hend
  have hexceeded : ∀ before p later, pollAll (.new inner limit) bufs = before ++ p :: later → p.Exceeds →
      Exceeded limit s (delivered before) p.next ∧ ∀ q ∈ p :: later, q.answer = .ready (.error sizeLimit) ∧ q.bytes = [] := by
    intro before p later hrun hexceeds
    obtain ⟨-, hmove, rest, -, rfl⟩ := hstart.split hbufs hrun
    obtain ⟨hanswer, hbytes, hnext⟩ := hmove.exceeded_of_exceeds hexceeds
    exact ⟨hnext, List.forall_mem_cons.mpr ⟨⟨hanswer, hbytes⟩, hnext.run⟩⟩
  -- A run that delivers no more than the limit cannot settle more often without telling how the stream ends.
  have htold (hmany : limit < (pollAll (.new inner limit) bufs).countP Polled.settled) :
      (∃ p ∈ pollAll (.new inner limit) bufs, p.EndOfFile) ∨ ∃ p ∈ pollAll (.new inner limit) bufs, p.Exceeds := by
    by_contra hnone
    obtain ⟨hend, hexceeds⟩ := not_or.mp hnone
    have hcount := count_le_delivered (pollAll (.new inner limit) bufs) fun p hp hsettled =>
      (hmove hp).choose_spec.some_of_settled hsettled (fun h => hend ⟨p, hp, h⟩) (fun h => hexceeds ⟨p, hp, h⟩)
    exact absurd (Nat.le_trans hcount hwithin) (Nat.not_le_of_lt hmany)
  have hover (hend : ∃ p ∈ pollAll (.new inner limit) bufs, p.EndOfFile) : s.TerminatedAt limit := by
    obtain ⟨p, hp, hend⟩ := hend
    obtain ⟨before, later, hrun⟩ := List.append_of_mem hp
    have hle := (hstart.split hbufs hrun).1.taken.2
    exact Seq.terminated_stable s hle (hended before p later hrun hend)
  have hmore (hexceeds : ∃ p ∈ pollAll (.new inner limit) bufs, p.Exceeds) : ¬ s.TerminatedAt limit := by
    obtain ⟨p, hp, hexceeds⟩ := hexceeds
    obtain ⟨before, later, hrun⟩ := List.append_of_mem hp
    exact (hexceeded before p later hrun hexceeds).1.more
  exact {
    taken := htaken
    within := hwithin
    kept := fun p hp => ⟨(hmove hp).choose_spec.filled_append, capacity_of_mem p hp⟩
    unmoved := fun p hp => (hmove hp).choose_spec.unmoved
    relayed := fun p hp => (hmove hp).choose_spec.relayed_of_not_exceeds
    ended := hended
    exceeded := by
      intro before p later hrun hexceeds
      obtain ⟨hnext, hlater⟩ := hexceeded before p later hrun hexceeds
      exact ⟨hnext.length ▸ hnext.taken, hnext.length, hnext.more, hlater⟩
    decided := fun hmany =>
      ⟨⟨hover, fun hterminated => (htold hmany).resolve_right fun h => hmore h hterminated⟩,
        ⟨hmore, fun hmore => (htold hmany).resolve_left fun h => hmore (hover h)⟩⟩ }

/-- Eleven bytes with a pause and a failure between them. -/
def fitful : List ReadEvent :=
  [.chunk 104 [101, 108], .pending, .failure ⟨.other 0, "reset"⟩, .chunk 108 [111, 32], .chunk 119 [111, 114, 108, 100]]

theorem capped_fitful : Capped 5 (Seq.ofList (fitful.flatMap ReadEvent.bytes))
    (pollAll (.new fitful 5) [.new [0, 0], .new [0, 0], .new [0], .new [7, 7, 7], .new [0, 0, 0], .new [0], .new [0]]) :=
  capped (denotes_script fitful) (by decide)

end Catapulte.LimitedReader
