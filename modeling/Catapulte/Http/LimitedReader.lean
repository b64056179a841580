import Catapulte.Async.ReadBuf
import Mathlib.Algebra.Group.Nat.Defs

namespace Catapulte

open Async

structure LimitedReader (R : Type) where
  inner : R
  remaining : Nat
  exhausted : Bool

namespace LimitedReader

variable {R : Type} [AsyncRead R]

def new (inner : R) (maxBytes : Nat) : LimitedReader R := ⟨inner, maxBytes, false⟩

def limitExceeded : String := "attachment exceeded size limit"

instance : AsyncRead (LimitedReader R) where
  pollRead self room :=
    if self.exhausted then (.ready (.error limitExceeded), self)
    else if self.remaining = 0 then
      -- One byte tells the end of the inner reader from excess data.
      match pollRead self.inner 1 with
      | (.ready (.ok []), inner) => (.ready (.ok []), { self with inner })
      | (.ready (.ok (_ :: _)), inner) => (.ready (.error limitExceeded), ⟨inner, self.remaining, true⟩)
      | (.ready (.error e), inner) => (.ready (.error e), { self with inner })
      | (.pending, inner) => (.pending, { self with inner })
    else
      match pollRead self.inner (min self.remaining room) with
      | (.ready (.ok bytes), inner) => (.ready (.ok bytes), ⟨inner, self.remaining - bytes.length, self.exhausted⟩)
      | (.ready (.error e), inner) => (.ready (.error e), { self with inner })
      | (.pending, inner) => (.pending, { self with inner })

variable {room : List (List UInt8) → Nat} {n polls limit : Nat} {reader : R} {bytes : List UInt8}
  {pieces : List (List UInt8)}

theorem pollRead_zero {k : Nat} : pollRead (new reader 0) k =
    match pollRead reader 1 with
    | (.ready (.ok []), inner) => (.ready (.ok []), new inner 0)
    | (.ready (.ok (_ :: _)), inner) => (.ready (.error limitExceeded), ⟨inner, 0, true⟩)
    | (.ready (.error e), inner) => (.ready (.error e), new inner 0)
    | (.pending, inner) => (.pending, new inner 0) := rfl

theorem pollRead_pos {k : Nat} (h : limit ≠ 0) : pollRead (new reader limit) k =
    match pollRead reader (min limit k) with
    | (.ready (.ok bytes), inner) => (.ready (.ok bytes), new inner (limit - bytes.length))
    | (.ready (.error e), inner) => (.ready (.error e), new inner limit)
    | (.pending, inner) => (.pending, new inner limit) := if_neg h

theorem readToEnd_limited (hroom : ∀ pieces, 0 < room pieces) (h : Delivers n reader bytes) (hpolls : n ≤ polls) :
    readToEnd room polls (new reader limit) pieces =
      some (if bytes.length ≤ limit then .ok (pieces.flatten ++ bytes) else .error limitExceeded) := by
  induction n generalizing polls reader bytes limit pieces with
  | zero => exact h.elim
  | succ n ih =>
      obtain ⟨polls, rfl⟩ := Nat.exists_eq_add_one_of_ne_zero (Nat.ne_of_gt (Nat.lt_of_lt_of_le n.succ_pos hpolls))
      have hpolls : n ≤ polls := by omega
      by_cases hlimit : limit = 0
      · subst hlimit
        rw [readToEnd, pollRead_zero]
        rcases h.poll Nat.one_pos with ⟨inner, hpoll, hrest⟩ | ⟨inner, hpoll, rfl⟩ | ⟨b, bs, inner, rest, hpoll, -, rfl, -⟩
        · simp only [hpoll]
          exact ih hrest hpolls
        · simp [hpoll]
        · simp [hpoll]
      · rw [readToEnd, pollRead_pos hlimit]
        have hmin : 0 < min limit (room pieces) := Nat.lt_min.mpr ⟨Nat.pos_of_ne_zero hlimit, hroom pieces⟩
        rcases h.poll hmin with ⟨inner, hpoll, hrest⟩ | ⟨inner, hpoll, rfl⟩ | ⟨b, bs, inner, rest, hpoll, hlt, rfl, hrest⟩
        · simp only [hpoll]
          exact ih hrest hpolls
        · simp [hpoll]
        · have hfits : (b :: bs ++ rest).length ≤ limit ↔ rest.length ≤ limit - (b :: bs).length := by
            have hle := Nat.min_le_left limit (room pieces)
            simp only [List.length_append, List.length_cons]
            omega
          simp only [hpoll]
          rw [ih hrest hpolls]
          simp only [hfits, List.flatten_append, List.flatten_singleton, List.append_assoc]

/-- The cap as an index of memory, on a target of 64 bits. -/
def usizeOf (n : Nat) : Nat := min n (2 ^ 64 - 1)

def sizeLimit : IoError := ⟨.invalidData, limitExceeded⟩

def cap (limit : Nat) (buf : ReadBuf) : Nat := min (usizeOf limit) buf.remaining

theorem cap_le (limit : Nat) (buf : ReadBuf) : cap limit buf ≤ buf.remaining := Nat.min_le_right _ _

variable {P : Type} [PollRead P]

instance : PollRead (LimitedReader P) where
  pollBuf self buf :=
    if self.exhausted then (.ready (.error sizeLimit), buf.untouched, self)
    else if self.remaining = 0 then
      match pollBuf self.inner (.new [0]) with
      | (.ready (.ok ()), probe, inner) =>
          if probe.val.filled.isEmpty then (.ready (.ok ()), buf.untouched, { self with inner })
          else (.ready (.error sizeLimit), buf.untouched, { self with inner, exhausted := true })
      | (.ready (.error e), _, inner) => (.ready (.error e), buf.untouched, { self with inner })
      | (.pending, _, inner) => (.pending, buf.untouched, { self with inner })
    else
      match pollBuf self.inner (buf.lend (cap self.remaining buf) (cap_le _ _)) with
      | (.ready (.ok ()), ⟨lent, hlent⟩, inner) =>
          (.ready (.ok ()), ⟨(ReadBuf.giveBack hlent).advance lent.filled.length (ReadBuf.filled_lent_le hlent),
              (ReadBuf.capacity_advance _ _ _).trans (ReadBuf.capacity_giveBack hlent)⟩,
            { self with inner, remaining := self.remaining - lent.filled.length })
      | (.ready (.error e), ⟨_, hlent⟩, inner) =>
          (.ready (.error e), ⟨ReadBuf.giveBack hlent, ReadBuf.capacity_giveBack hlent⟩, { self with inner })
      | (.pending, ⟨_, hlent⟩, inner) =>
          (.pending, ⟨ReadBuf.giveBack hlent, ReadBuf.capacity_giveBack hlent⟩, { self with inner })

def chunkwise (self : LimitedReader P) : LimitedReader (Chunkwise P) := ⟨⟨self.inner⟩, self.remaining, self.exhausted⟩

theorem lend_zeros {room n : Nat} (h : n ≤ (ReadBuf.new (List.replicate room 0)).remaining) :
    (ReadBuf.new (List.replicate room 0)).lend n h = .new (List.replicate n 0) := by
  have hle : n ≤ room := by simpa using h
  have hzeros : ((ReadBuf.new (List.replicate room 0)).initializeUnfilledTo n h).unfilled = List.replicate room 0 := by
    simp [ReadBuf.initializeUnfilledTo, ReadBuf.new, hle]
  rw [ReadBuf.lend, hzeros, List.take_replicate, Nat.min_eq_left hle]

theorem cap_zeros {limit room : Nat} (h : room ≤ 2 ^ 64 - 1) :
    cap limit (.new (List.replicate room 0)) = min limit room := by
  rw [cap, usizeOf, ReadBuf.remaining_new, List.length_replicate, Nat.min_assoc, Nat.min_eq_right h]

theorem pollRead_chunkwise (self : LimitedReader P) {room : Nat} (h : room ≤ 2 ^ 64 - 1) :
    pollRead self.chunkwise room =
      ((pollRead (Chunkwise.mk self) room).1, (pollRead (Chunkwise.mk self) room).2.reader.chunkwise) := by
  have hlend : (ReadBuf.new (List.replicate room 0)).lend (cap self.remaining (.new (List.replicate room 0))) (cap_le _ _) =
      .new (List.replicate (min self.remaining room) 0) := by
    rw [lend_zeros]
    exact congrArg (fun n => ReadBuf.new (List.replicate n 0)) (cap_zeros h)
  by_cases hexhausted : self.exhausted = true
  · simp [pollRead, Chunkwise.poll, pollBuf, chunkwise, hexhausted, sizeLimit]
  · by_cases hzero : self.remaining = 0
    · rcases hinner : pollBuf self.inner (.new [0]) with ⟨answer, probe, inner⟩
      match answer with
      | .pending => simp [pollRead, Chunkwise.poll, pollBuf, chunkwise, hexhausted, hzero, hinner]
      | .ready (.error e) => simp [pollRead, Chunkwise.poll, pollBuf, chunkwise, hexhausted, hzero, hinner]
      | .ready (.ok ()) =>
          cases hprobe : probe.val.filled with
          | nil => simp [pollRead, Chunkwise.poll, pollBuf, chunkwise, hexhausted, hzero, hinner, hprobe]
          | cons b bs => simp [pollRead, Chunkwise.poll, pollBuf, chunkwise, hexhausted, hzero, hinner, hprobe, sizeLimit]
    · rcases hinner : pollBuf self.inner ((ReadBuf.new (List.replicate room 0)).lend _ (cap_le self.remaining _)) with
        ⟨answer, ⟨lent, hlent⟩, inner⟩
      match answer with
      | .pending =>
          have houter : pollRead (Chunkwise.mk self) room = (.pending, ⟨{ self with inner }⟩) := by
            simp [pollRead, Chunkwise.poll, pollBuf, hexhausted, hzero, hinner]
          have hchunk : Chunkwise.poll self.inner (.new (List.replicate (min self.remaining room) 0)) =
              (.pending, ⟨inner⟩) := by rw [← hlend, Chunkwise.poll, hinner]
          rw [houter]
          simp [pollRead, chunkwise, hexhausted, hzero, hchunk]
      | .ready (.error e) =>
          have houter : pollRead (Chunkwise.mk self) room = (.ready (.error e.message), ⟨{ self with inner }⟩) := by
            simp [pollRead, Chunkwise.poll, pollBuf, hexhausted, hzero, hinner]
          have hchunk : Chunkwise.poll self.inner (.new (List.replicate (min self.remaining room) 0)) =
              (.ready (.error e.message), ⟨inner⟩) := by rw [← hlend, Chunkwise.poll, hinner]
          rw [houter]
          simp [pollRead, chunkwise, hexhausted, hzero, hchunk]
      | .ready (.ok ()) =>
          have houter : pollRead (Chunkwise.mk self) room = (.ready (.ok lent.filled),
              ⟨{ self with inner, remaining := self.remaining - lent.filled.length }⟩) := by
            have hfilled := ReadBuf.filled_advance_giveBack hlent
            rw [ReadBuf.filled_new, List.nil_append] at hfilled
            simp [pollRead, Chunkwise.poll, pollBuf, hexhausted, hzero, hinner, hfilled]
          have hchunk : Chunkwise.poll self.inner (.new (List.replicate (min self.remaining room) 0)) =
              (.ready (.ok lent.filled), ⟨inner⟩) := by rw [← hlend, Chunkwise.poll, hinner]
          rw [houter]
          simp [pollRead, chunkwise, hexhausted, hzero, hchunk]

end LimitedReader

end Catapulte
