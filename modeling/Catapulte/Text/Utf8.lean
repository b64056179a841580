import Mathlib.Data.List.Basic

namespace Catapulte.Text

def byteLen : List Char → Nat
  | [] => 0
  | c :: cs => c.utf8Size + byteLen cs

def bytes (cs : List Char) : List UInt8 := cs.flatMap String.utf8EncodeChar

/-- The text before and after a byte offset, unless the offset is past the end or inside
a character. -/
def splitBytes : Nat → List Char → Option (List Char × List Char)
  | 0, cs => some ([], cs)
  | _ + 1, [] => none
  | n + 1, c :: cs =>
      if c.utf8Size ≤ n + 1 then (splitBytes (n + 1 - c.utf8Size) cs).map fun (l, r) => (c :: l, r) else none

/-- `str::is_char_boundary`. -/
def IsCharBoundary (cs : List Char) (n : Nat) : Prop := (splitBytes n cs).isSome = true

/-- `&s[a..b]`, which panics where this is `none`. -/
def slice (cs : List Char) (a b : Nat) : Option (List Char) := do
  let (_, rest) ← splitBytes a cs
  let (piece, _) ← splitBytes (b - a) rest
  if a ≤ b then some piece else none

variable {cs l m r : List Char} {a b n : Nat}

@[simp] theorem byteLen_nil : byteLen [] = 0 := rfl

@[simp] theorem byteLen_cons (c : Char) : byteLen (c :: cs) = c.utf8Size + byteLen cs := rfl

@[simp] theorem byteLen_append : byteLen (l ++ r) = byteLen l + byteLen r := by
  induction l with
  | nil => rw [List.nil_append, byteLen_nil, Nat.zero_add]
  | cons c l ih => rw [List.cons_append, byteLen_cons, byteLen_cons, ih, Nat.add_assoc]

theorem length_le_byteLen (cs : List Char) : cs.length ≤ byteLen cs := by
  induction cs with
  | nil => exact Nat.le_refl 0
  | cons c cs ih =>
      have hpos := c.utf8Size_pos
      rw [List.length_cons, byteLen_cons]
      omega

theorem splitBytes_eq_some : splitBytes n cs = some (l, r) ↔ cs = l ++ r ∧ byteLen l = n := by
  induction cs generalizing n l with
  | nil =>
      cases n with
      | zero =>
          simp only [splitBytes, Option.some.injEq, Prod.mk.injEq]
          constructor
          · rintro ⟨rfl, rfl⟩
            exact ⟨rfl, rfl⟩
          · rintro ⟨h, -⟩
            obtain ⟨rfl, rfl⟩ := List.append_eq_nil_iff.mp h.symm
            exact ⟨rfl, rfl⟩
      | succ n =>
          refine ⟨fun h => (by cases h), ?_⟩
          rintro ⟨h, hlen⟩
          obtain ⟨rfl, rfl⟩ := List.append_eq_nil_iff.mp h.symm
          cases hlen
  | cons c cs ih =>
      have hpos := c.utf8Size_pos
      cases n with
      | zero =>
          simp only [splitBytes, Option.some.injEq, Prod.mk.injEq]
          constructor
          · rintro ⟨rfl, rfl⟩
            exact ⟨rfl, rfl⟩
          · rintro ⟨h, hlen⟩
            cases l with
            | nil => exact ⟨rfl, h⟩
            | cons c' l =>
                obtain ⟨rfl, -⟩ := List.cons.inj h
                rw [byteLen_cons] at hlen
                omega
      | succ n =>
          rw [splitBytes]
          constructor
          · intro h
            split at h
            · obtain ⟨⟨l', r'⟩, hsplit, heq⟩ := Option.map_eq_some_iff.mp h
              cases heq
              obtain ⟨rfl, hlen⟩ := ih.mp hsplit
              refine ⟨rfl, ?_⟩
              rw [byteLen_cons]
              omega
            · cases h
          · rintro ⟨h, hlen⟩
            cases l with
            | nil => cases hlen
            | cons c' l =>
                obtain ⟨rfl, hcs⟩ := List.cons.inj h
                rw [byteLen_cons] at hlen
                have hsplit : splitBytes (n + 1 - c.utf8Size) cs = some (l, r) := ih.mpr ⟨hcs, by omega⟩
                rw [if_pos (by omega), hsplit]
                rfl

theorem isCharBoundary_iff : IsCharBoundary cs n ↔ ∃ l r, cs = l ++ r ∧ byteLen l = n := by
  rw [IsCharBoundary, Option.isSome_iff_exists]
  constructor
  · rintro ⟨⟨l, r⟩, h⟩
    exact ⟨l, r, splitBytes_eq_some.mp h⟩
  · rintro ⟨l, r, h⟩
    exact ⟨(l, r), splitBytes_eq_some.mpr h⟩

theorem slice_eq_some : slice cs a b = some m ↔ a ≤ b ∧ ∃ l r, cs = l ++ (m ++ r) ∧ byteLen l = a ∧ byteLen m = b - a := by
  simp only [slice, Option.bind_eq_bind, Option.bind_eq_some_iff, Prod.exists]
  constructor
  · rintro ⟨l, rest, hl, piece, r, hm, h⟩
    split at h
    · cases h
      obtain ⟨rfl, hlen⟩ := splitBytes_eq_some.mp hl
      obtain ⟨rfl, hlen'⟩ := splitBytes_eq_some.mp hm
      exact ⟨‹_›, l, r, rfl, hlen, hlen'⟩
    · cases h
  · rintro ⟨hle, l, r, rfl, hl, hm⟩
    exact ⟨l, _, splitBytes_eq_some.mpr ⟨rfl, hl⟩, m, r, splitBytes_eq_some.mpr ⟨rfl, hm⟩, if_pos hle⟩

theorem isSome_slice (hle : a ≤ b) : (slice cs a b).isSome = true ↔ IsCharBoundary cs a ∧ IsCharBoundary cs b := by
  rw [Option.isSome_iff_exists, isCharBoundary_iff, isCharBoundary_iff]
  constructor
  · rintro ⟨m, h⟩
    obtain ⟨-, l, r, rfl, hl, hm⟩ := slice_eq_some.mp h
    exact ⟨⟨l, _, rfl, hl⟩, l ++ m, r, (List.append_assoc l m r).symm, by rw [byteLen_append]; omega⟩
  · rintro ⟨⟨l, r, rfl, hl⟩, l', r', h, hl'⟩
    rcases List.append_eq_append_iff.mp h with ⟨m, rfl, rfl⟩ | ⟨m, rfl, rfl⟩
    · rw [byteLen_append] at hl'
      exact ⟨m, slice_eq_some.mpr ⟨hle, l, r', rfl, hl, by omega⟩⟩
    · rw [byteLen_append] at hl
      have hm : byteLen m = 0 := by omega
      have hnil : m = [] := List.length_eq_zero_iff.mp (Nat.le_zero.mp (hm ▸ length_le_byteLen m))
      subst hnil
      exact ⟨[], slice_eq_some.mpr ⟨hle, l', r, by rw [List.append_nil]; rfl, by omega, by rw [byteLen_nil]; omega⟩⟩

end Catapulte.Text
