import Catapulte.Async.Read
import Mathlib.Data.Seq.Basic

namespace Catapulte.Async

open Stream' (Seq)

/-- A region of memory whose first bytes are filled. Of the rest some more bytes are
initialized. -/
structure ReadBuf where
  filled : List UInt8
  unfilled : List UInt8
  initialized : Nat
  initialized_le : initialized ≤ unfilled.length

namespace ReadBuf

def new (slice : List UInt8) : ReadBuf := ⟨[], slice, slice.length, Nat.le_refl _⟩

def remaining (buf : ReadBuf) : Nat := buf.unfilled.length

def memory (buf : ReadBuf) : List UInt8 := buf.filled ++ buf.unfilled

def capacity (buf : ReadBuf) : Nat := buf.memory.length

/-- Zeroes what of the first `n` unfilled bytes is not yet initialized. -/
def initializeUnfilledTo (buf : ReadBuf) (n : Nat) (_h : n ≤ buf.remaining) : ReadBuf where
  filled := buf.filled
  unfilled := buf.unfilled.take buf.initialized ++
    (List.replicate (n - buf.initialized) 0 ++ buf.unfilled.drop (max n buf.initialized))
  initialized := max n buf.initialized
  initialized_le := by
    have := buf.initialized_le
    simp only [List.length_append, List.length_take, List.length_replicate, List.length_drop]
    omega

def write (buf : ReadBuf) (slice : List UInt8) (h : slice.length ≤ buf.remaining) : ReadBuf where
  filled := buf.filled
  unfilled := slice ++ buf.unfilled.drop slice.length
  initialized := buf.initialized
  initialized_le := by
    have := buf.initialized_le
    simp only [remaining] at h
    simp only [List.length_append, List.length_drop]
    omega

def advance (buf : ReadBuf) (n : Nat) (_h : n ≤ buf.initialized) : ReadBuf where
  filled := buf.filled ++ buf.unfilled.take n
  unfilled := buf.unfilled.drop n
  initialized := buf.initialized - n
  initialized_le := by
    have := buf.initialized_le
    simp only [List.length_drop]
    omega

def putSlice (buf : ReadBuf) (bytes : List UInt8) (_h : bytes.length ≤ buf.remaining) : ReadBuf where
  filled := buf.filled ++ bytes
  unfilled := buf.unfilled.drop bytes.length
  initialized := buf.initialized - bytes.length
  initialized_le := by
    have := buf.initialized_le
    simp only [List.length_drop]
    omega

variable (buf : ReadBuf) (n : Nat) (slice : List UInt8)

@[simp] theorem filled_new : (new slice).filled = [] := rfl

@[simp] theorem remaining_new : (new slice).remaining = slice.length := rfl

@[simp] theorem memory_new : (new slice).memory = slice := rfl

@[simp] theorem capacity_new : (new slice).capacity = slice.length := rfl

theorem capacity_eq : buf.capacity = buf.filled.length + buf.remaining := List.length_append

@[simp] theorem filled_initializeUnfilledTo (h : n ≤ buf.remaining) :
    (buf.initializeUnfilledTo n h).filled = buf.filled := rfl

@[simp] theorem remaining_initializeUnfilledTo (h : n ≤ buf.remaining) :
    (buf.initializeUnfilledTo n h).remaining = buf.remaining := by
  have := buf.initialized_le
  simp only [remaining] at h
  simp only [remaining, initializeUnfilledTo, List.length_append, List.length_take, List.length_replicate,
    List.length_drop]
  omega

@[simp] theorem filled_write (h : slice.length ≤ buf.remaining) : (buf.write slice h).filled = buf.filled := rfl

@[simp] theorem remaining_write (h : slice.length ≤ buf.remaining) :
    (buf.write slice h).remaining = buf.remaining := by
  simp only [remaining] at h
  simp only [remaining, write, List.length_append, List.length_drop]
  omega

@[simp] theorem capacity_advance (h : n ≤ buf.initialized) : (buf.advance n h).capacity = buf.capacity := by
  simp only [capacity, memory, advance, List.append_assoc, List.take_append_drop]

@[simp] theorem capacity_putSlice (h : slice.length ≤ buf.remaining) : (buf.putSlice slice h).capacity = buf.capacity := by
  simp only [remaining] at h
  simp only [capacity, memory, putSlice, List.length_append, List.length_drop]
  omega

theorem filled_advance_write (k : Nat) (h : slice.length ≤ buf.remaining) (hk : k ≤ (buf.write slice h).initialized)
    (hle : k ≤ slice.length) : ((buf.write slice h).advance k hk).filled = buf.filled ++ slice.take k := by
  simp only [advance, write, List.take_append_of_le_length hle]

/-- A buffer over the first `n` unfilled bytes. -/
def lend (h : n ≤ buf.remaining) : ReadBuf := .new ((buf.initializeUnfilledTo n h).unfilled.take n)

@[simp] theorem filled_lend (h : n ≤ buf.remaining) : (buf.lend n h).filled = [] := rfl

@[simp] theorem capacity_lend (h : n ≤ buf.remaining) : (buf.lend n h).capacity = n := by
  have hremaining := remaining_initializeUnfilledTo buf n h
  simp only [remaining] at hremaining h
  simp only [lend, capacity_new, List.length_take, hremaining, Nat.min_eq_left h]

@[simp] theorem remaining_lend (h : n ≤ buf.remaining) : (buf.lend n h).remaining = n := by
  have hcapacity := capacity_lend buf n h
  rwa [capacity_eq, filled_lend, List.length_nil, Nat.zero_add] at hcapacity

variable {buf n} {h : n ≤ buf.remaining} {lent : ReadBuf}

theorem length_lent (hcapacity : lent.capacity = (buf.lend n h).capacity) :
    lent.memory.length ≤ (buf.initializeUnfilledTo n h).remaining := by
  rw [remaining_initializeUnfilledTo]
  exact Nat.le_trans (Nat.le_of_eq (hcapacity.trans (capacity_lend buf n h))) h

def giveBack (hcapacity : lent.capacity = (buf.lend n h).capacity) : ReadBuf :=
  (buf.initializeUnfilledTo n h).write lent.memory (length_lent hcapacity)

@[simp] theorem filled_giveBack (hcapacity : lent.capacity = (buf.lend n h).capacity) :
    (giveBack hcapacity).filled = buf.filled := rfl

@[simp] theorem capacity_giveBack (hcapacity : lent.capacity = (buf.lend n h).capacity) :
    (giveBack hcapacity).capacity = buf.capacity := by
  rw [capacity_eq, capacity_eq, giveBack, remaining_write, remaining_initializeUnfilledTo]
  rfl

theorem filled_lent_le (hcapacity : lent.capacity = (buf.lend n h).capacity) :
    lent.filled.length ≤ (giveBack hcapacity).initialized := by
  have hle : lent.filled.length ≤ n := by
    rw [capacity_lend, capacity_eq] at hcapacity
    omega
  exact Nat.le_trans hle (Nat.le_max_left _ _)

theorem filled_advance_giveBack (hcapacity : lent.capacity = (buf.lend n h).capacity) :
    ((giveBack hcapacity).advance lent.filled.length (filled_lent_le hcapacity)).filled = buf.filled ++ lent.filled := by
  have hle : lent.filled.length ≤ lent.memory.length := by
    rw [memory, List.length_append]
    exact Nat.le_add_right _ _
  have htake : lent.memory.take lent.filled.length = lent.filled := by
    rw [memory, List.take_left']
    rfl
  have hwrite := filled_advance_write (buf.initializeUnfilledTo n h) lent.memory lent.filled.length
    (length_lent hcapacity) (filled_lent_le hcapacity) hle
  rwa [htake] at hwrite

end ReadBuf

inductive ErrorKind
  | invalidData
  | other (code : Nat)
  deriving DecidableEq

structure IoError where
  kind : ErrorKind
  message : String
  deriving DecidableEq

def ReadBuf.untouched (buf : ReadBuf) : { after : ReadBuf // after.capacity = buf.capacity } := ⟨buf, rfl⟩

@[simp] theorem ReadBuf.val_untouched (buf : ReadBuf) : buf.untouched.val = buf := rfl

/-- A reader answers a poll by filling a part of a borrowed buffer, whose memory stays
where it is. -/
class PollRead (R : Type) where
  pollBuf : R → (buf : ReadBuf) → Poll (Except IoError Unit) × { after : ReadBuf // after.capacity = buf.capacity } × R

export PollRead (pollBuf)

variable {R : Type} [PollRead R] {reader : R} {s : Seq UInt8}

/-- The relation is kept by every poll: an answer holds the next bytes of the stream and
no bytes are its end; a pending or a failed poll takes nothing. -/
def ReadsAlong (D : R → Seq UInt8 → Prop) : Prop :=
  ∀ reader s, D reader s → ∀ buf, 0 < buf.remaining →
    match pollBuf reader buf with
    | (.ready (.ok ()), after, reader') => ∃ bytes, after.val.filled = buf.filled ++ bytes ∧
        bytes = s.take bytes.length ∧ (bytes = [] → s.TerminatedAt 0) ∧ D reader' (s.drop bytes.length)
    | (_, _, reader') => D reader' s

/-- However it is polled, the reader gives the bytes of the stream. -/
def Denotes (reader : R) (s : Seq UInt8) : Prop := ∃ D, D reader s ∧ ReadsAlong D

theorem readsAlong_denotes : ReadsAlong (Denotes (R := R)) := by
  intro reader s ⟨D, hD, hpolls⟩ buf hbuf
  have hpoll := hpolls reader s hD buf hbuf
  split at hpoll
  · obtain ⟨bytes, hfilled, htake, hend, hrest⟩ := hpoll
    exact ⟨bytes, hfilled, htake, hend, D, hrest, hpolls⟩
  · exact ⟨D, hpoll, hpolls⟩

/-- What a reader can have in store for a poll. -/
inductive ReadEvent
  | pending
  | failure (e : IoError)
  | chunk (b : UInt8) (bs : List UInt8)

namespace ReadEvent

def bytes : ReadEvent → List UInt8
  | chunk b bs => b :: bs
  | _ => []

def ofBytes : List UInt8 → List ReadEvent
  | [] => []
  | b :: bs => [chunk b bs]

theorem bytes_ofBytes (bs : List UInt8) : (ofBytes bs).flatMap bytes = bs := by
  cases bs with
  | nil => rfl
  | cons b bs => exact List.append_nil _

end ReadEvent

/-- A reader of a script: any bytes, in any pieces, with any pauses and failures. -/
instance : PollRead (List ReadEvent) where
  pollBuf script buf :=
    match script with
    | [] => (.ready (.ok ()), buf.untouched, [])
    | .pending :: script => (.pending, buf.untouched, script)
    | .failure e :: script => (.ready (.error e), buf.untouched, script)
    | .chunk b bs :: script =>
        (.ready (.ok ()), ⟨buf.putSlice ((b :: bs).take buf.remaining) (List.length_take_le _ _),
            ReadBuf.capacity_putSlice _ _ _⟩,
          ReadEvent.ofBytes ((b :: bs).drop buf.remaining) ++ script)

theorem take_ofList {α : Type} (xs : List α) (n : Nat) : (Seq.ofList xs).take n = xs.take n := by
  induction n generalizing xs with
  | zero => rw [Seq.take_zero, List.take_zero]
  | succ n ih =>
      cases xs with
      | nil => rw [Seq.ofList_nil, Seq.take_nil, List.take_nil]
      | cons x xs => rw [Seq.ofList_cons, Seq.take_succ_cons, List.take_succ_cons, ih]

theorem drop_ofList {α : Type} (xs : List α) (n : Nat) : (Seq.ofList xs).drop n = Seq.ofList (xs.drop n) := by
  induction n generalizing xs with
  | zero => rfl
  | succ n ih =>
      cases xs with
      | nil => rw [Seq.ofList_nil, Seq.drop_nil, List.drop_nil, Seq.ofList_nil]
      | cons x xs => rw [Seq.ofList_cons, Seq.drop_succ_cons, List.drop_succ_cons, ih]

theorem denotes_script (script : List ReadEvent) : Denotes script (Seq.ofList (script.flatMap ReadEvent.bytes)) := by
  refine ⟨fun script s => s = Seq.ofList (script.flatMap ReadEvent.bytes), rfl, ?_⟩
  rintro script s rfl buf hbuf
  match script with
  | [] => exact ⟨[], (List.append_nil _).symm, rfl, fun _ => rfl, rfl⟩
  | .pending :: script => rfl
  | .failure e :: script => rfl
  | .chunk b bs :: script =>
      obtain ⟨n, hn⟩ := Nat.exists_eq_add_one_of_ne_zero (Nat.ne_of_gt hbuf)
      have hbytes : (ReadEvent.chunk b bs :: script).flatMap ReadEvent.bytes =
          (b :: bs).take buf.remaining ++ ((b :: bs).drop buf.remaining ++ script.flatMap ReadEvent.bytes) := by
        rw [← List.append_assoc, List.take_append_drop]
        rfl
      refine ⟨(b :: bs).take buf.remaining, rfl, ?_, ?_, ?_⟩
      · rw [take_ofList, hbytes, List.take_left]
      · rw [hn, List.take_succ_cons]
        exact fun h => by cases h
      · have hrest : (ReadEvent.ofBytes ((b :: bs).drop buf.remaining) ++ script).flatMap ReadEvent.bytes =
            (b :: bs).drop buf.remaining ++ script.flatMap ReadEvent.bytes := by
          rw [List.flatMap_append, ReadEvent.bytes_ofBytes]
        rw [drop_ofList, hbytes, List.drop_left]
        exact congrArg Seq.ofList hrest.symm

/-- A reader seen through the bytes that its polls give. -/
structure Chunkwise (R : Type) where
  reader : R

def Chunkwise.poll (reader : R) (buf : ReadBuf) : Poll (Except String (List UInt8)) × Chunkwise R :=
  match pollBuf reader buf with
  | (.ready (.ok ()), after, reader) => (.ready (.ok after.val.filled), ⟨reader⟩)
  | (.ready (.error e), _, reader) => (.ready (.error e.message), ⟨reader⟩)
  | (.pending, _, reader) => (.pending, ⟨reader⟩)

instance : AsyncRead (Chunkwise R) where
  pollRead self room := Chunkwise.poll self.reader (.new (List.replicate room 0))

end Catapulte.Async
