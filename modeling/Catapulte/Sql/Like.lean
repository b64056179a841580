import Mathlib.Data.List.Forall2
import Mathlib.Data.List.Infix
import Mathlib.Data.List.TakeWhile

namespace Catapulte.Sql

inductive Token
  | literal (c : Char)
  | any
  | many

def token (c : Char) : Token := if c = '%' then .many else if c = '_' then .any else .literal c

/-- The tokens of a pattern, where a character behind the escape stands for itself. -/
def tokens (escape : Option Char) : List Char → List Token
  | [] => []
  | [c] => [token c]
  | c :: d :: pattern =>
      if some c = escape then .literal d :: tokens escape pattern else token c :: tokens escape (d :: pattern)

/-- The text matches the tokens, where `same` compares characters. -/
def accepts (same : Char → Char → Bool) : List Token → List Char → Bool
  | [], text => text.isEmpty
  | .many :: ts, text => text.tails.any (accepts same ts)
  | .any :: ts, _ :: text => accepts same ts text
  | .literal c :: ts, d :: text => same c d && accepts same ts text
  | _ :: _, [] => false

variable {same : Char → Char → Bool} {escape : Option Char} {ts : List Token} {pattern text : List Char}

/-- `'%' || sought || '%'`. -/
def within (sought : List Char) : List Char := '%' :: (sought ++ ['%'])

def Plain (escape : Option Char) (sought : List Char) : Prop := ∀ c ∈ sought, c ≠ '%' ∧ c ≠ '_' ∧ some c ≠ escape

variable {sought : List Char}

def sameUnder (fold : Char → Char) (c d : Char) : Bool := fold c = fold d

/-- The two foldings identify the characters of the text with the same legal ones. -/
def FoldsAs (legal : Char → Prop) (fold fold' : Char → Char) (sought : List Char) : Prop :=
  ∀ c ∈ sought, ∀ d, legal d → (fold c = fold d ↔ fold' c = fold' d)

variable {legal : Char → Prop} {fold fold' : Char → Char}

theorem FoldsAs.map_eq (h : FoldsAs legal fold fold' sought) {part : List Char} (hpart : ∀ d ∈ part, legal d) :
    sought.map fold = part.map fold ↔ sought.map fold' = part.map fold' := by
  induction sought generalizing part with
  | nil => cases part <;> exact iff_of_eq (by simp)
  | cons c sought ih =>
      obtain ⟨hc, hrest⟩ := List.forall_mem_cons.mp h
      cases part with
      | nil => exact iff_of_false (List.cons_ne_nil _ _) (List.cons_ne_nil _ _)
      | cons d part =>
          obtain ⟨hd, hpart⟩ := List.forall_mem_cons.mp hpart
          rw [List.map_cons, List.map_cons, List.map_cons, List.map_cons, List.cons.injEq, List.cons.injEq, hc d hd,
            ih hrest hpart]

/-- What a reader that stops at a NUL sees of a pattern. -/
def cString (text : List Char) : List Char := text.takeWhile (· ≠ '\x00')

end Catapulte.Sql
