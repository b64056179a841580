import Mathlib.Data.List.Basic

namespace Catapulte.Async

inductive Poll (α : Type)
  | pending
  | ready (a : α)

/-- A reader answers a poll for at most `room` bytes with some of its next bytes. No
bytes at all are its end. -/
class AsyncRead (R : Type) where
  pollRead : R → (room : Nat) → Poll (Except String (List UInt8)) × R

export AsyncRead (pollRead)

variable {R : Type} [AsyncRead R] (room : List (List UInt8) → Nat)

/-- Polls the reader until its end, at most `polls` times. How much room there is for
the next bytes depends on the pieces read so far. -/
def readToEnd : Nat → R → List (List UInt8) → Option (Except String (List UInt8))
  | 0, _, _ => none
  | polls + 1, reader, pieces =>
      match pollRead reader (room pieces) with
      | (.pending, reader') => readToEnd polls reader' pieces
      | (.ready (.error e), _) => some (.error e)
      | (.ready (.ok []), _) => some (.ok pieces.flatten)
      | (.ready (.ok (b :: bs)), reader') => readToEnd polls reader' (pieces ++ [b :: bs])

/-- However it is polled, the reader yields these bytes and its end within `n` polls. -/
def Delivers : Nat → R → List UInt8 → Prop
  | 0, _, _ => False
  | n + 1, reader, bytes => ∀ room, 0 < room →
      match pollRead reader room with
      | (.pending, reader') => Delivers n reader' bytes
      | (.ready (.error _), _) => False
      | (.ready (.ok []), _) => bytes = []
      | (.ready (.ok (b :: bs)), reader') =>
          bs.length < room ∧ ∃ rest, bytes = b :: bs ++ rest ∧ Delivers n reader' rest

theorem Delivers.poll {n k : Nat} {reader : R} {bytes : List UInt8} (h : Delivers (n + 1) reader bytes) (hk : 0 < k) :
    (∃ reader', pollRead reader k = (.pending, reader') ∧ Delivers n reader' bytes) ∨
    (∃ reader', pollRead reader k = (.ready (.ok []), reader') ∧ bytes = []) ∨
    ∃ b bs reader' rest, pollRead reader k = (.ready (.ok (b :: bs)), reader') ∧ bs.length < k ∧
      bytes = b :: bs ++ rest ∧ Delivers n reader' rest := by
  have hpoll := h k hk
  split at hpoll
  · exact .inl ⟨_, ‹_›, hpoll⟩
  · exact hpoll.elim
  · exact .inr (.inl ⟨_, ‹_›, hpoll⟩)
  · obtain ⟨hlt, rest, hbytes, hrest⟩ := hpoll
    exact .inr (.inr ⟨_, _, _, rest, ‹_›, hlt, hbytes, hrest⟩)

theorem readToEnd_delivers {n polls : Nat} {reader : R} {bytes : List UInt8} {pieces : List (List UInt8)}
    (hroom : ∀ pieces, 0 < room pieces) (h : Delivers n reader bytes) (hpolls : n ≤ polls) :
    readToEnd room polls reader pieces = some (.ok (pieces.flatten ++ bytes)) := by
  induction n generalizing polls reader bytes pieces with
  | zero => exact h.elim
  | succ n ih =>
      obtain ⟨polls, rfl⟩ := Nat.exists_eq_add_one_of_ne_zero (Nat.ne_of_gt (Nat.lt_of_lt_of_le n.succ_pos hpolls))
      have hpolls : n ≤ polls := Nat.le_of_succ_le_succ hpolls
      rw [readToEnd]
      rcases h.poll (hroom pieces) with ⟨inner, hpoll, hrest⟩ | ⟨inner, hpoll, rfl⟩ | ⟨b, bs, inner, rest, hpoll, -, rfl, hrest⟩
      · simp only [hpoll]
        exact ih hrest hpolls
      · simp only [hpoll, List.append_nil]
      · simp only [hpoll]
        rw [ih hrest hpolls, List.flatten_append, List.flatten_singleton, List.append_assoc]

/-- The first `limit` bytes of a reader. -/
structure Take (R : Type) where
  inner : R
  limit : Nat

instance : AsyncRead (Take R) where
  pollRead reader room :=
    if reader.limit = 0 then (.ready (.ok []), reader)
    else
      match pollRead reader.inner (min reader.limit room) with
      | (.ready (.ok bytes), inner) => (.ready (.ok bytes), ⟨inner, reader.limit - bytes.length⟩)
      | (.ready (.error e), inner) => (.ready (.error e), ⟨inner, reader.limit⟩)
      | (.pending, inner) => (.pending, ⟨inner, reader.limit⟩)

theorem Delivers.take {n : Nat} {reader : R} {bytes : List UInt8} (h : Delivers n reader bytes) (limit : Nat) :
    Delivers n (Take.mk reader limit) (bytes.take limit) := by
  induction n generalizing reader bytes limit with
  | zero => exact h
  | succ n ih =>
      intro k hk
      by_cases hlimit : limit = 0
      · subst hlimit
        exact List.take_zero
      · simp only [pollRead, if_neg hlimit]
        have hmin : 0 < min limit k := Nat.lt_min.mpr ⟨Nat.pos_of_ne_zero hlimit, hk⟩
        rcases h.poll hmin with ⟨inner, hpoll, hrest⟩ | ⟨inner, hpoll, rfl⟩ | ⟨b, bs, inner, rest, hpoll, hlt, rfl, hrest⟩
        · rw [hpoll]
          exact ih hrest limit
        · rw [hpoll]
          exact List.take_nil
        · rw [hpoll]
          have hle : (b :: bs).length ≤ limit := Nat.le_trans hlt (Nat.min_le_left limit k)
          refine ⟨Nat.lt_of_lt_of_le hlt (Nat.min_le_right limit k), rest.take (limit - (b :: bs).length), ?_, ih hrest _⟩
          rw [List.take_append, List.take_of_length_le hle]

abbrev Chunks := List (List UInt8)

instance : AsyncRead Chunks where
  pollRead chunks room :=
    match chunks.dropWhile List.isEmpty with
    | [] => (.ready (.ok []), [])
    | chunk :: chunks => (.ready (.ok (chunk.take room)), chunk.drop room :: chunks)

theorem delivers_chunks {n : Nat} (chunks : Chunks) (h : chunks.flatten.length < n) :
    Delivers n chunks chunks.flatten := by
  induction n generalizing chunks with
  | zero => exact absurd h (Nat.not_lt_zero _)
  | succ n ih =>
      intro k hk
      have hflatten : (chunks.dropWhile List.isEmpty).flatten = chunks.flatten := by
        clear h
        induction chunks with
        | nil => rfl
        | cons c cs ih' =>
            cases c with
            | nil => simpa using ih'
            | cons b bs => rfl
      have hhead : ∀ c cs, chunks.dropWhile List.isEmpty = c :: cs → c ≠ [] := by
        intro c cs heq hc
        have := List.head?_dropWhile_not List.isEmpty chunks
        simp [heq, hc] at this
      simp only [pollRead]
      cases hdrop : chunks.dropWhile List.isEmpty with
      | nil =>
          rw [← hflatten, hdrop]
          rfl
      | cons c cs =>
          rw [hdrop] at hflatten
          obtain ⟨b, bs, rfl⟩ := List.exists_cons_of_ne_nil (hhead c cs hdrop)
          obtain ⟨k, rfl⟩ := Nat.exists_eq_add_one_of_ne_zero (Nat.ne_of_gt hk)
          rw [List.flatten_cons] at hflatten
          have hlength : (bs.drop k ++ cs.flatten).length < n := by
            have hlen := congrArg List.length hflatten
            simp only [List.length_append, List.length_cons, List.length_drop] at hlen ⊢
            omega
          refine ⟨?_, bs.drop k ++ cs.flatten, ?_, ?_⟩
          · have hle := List.length_take_le k bs
            omega
          · rw [← hflatten, List.cons_append, List.cons_append, ← List.append_assoc, List.take_append_drop]
          · exact ih (bs.drop k :: cs) hlength

end Catapulte.Async
