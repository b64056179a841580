import Mathlib.Data.List.DropRight

namespace Catapulte.Text

def specials : List Char := ['(', ')', '<', '>', '[', ']', ':', ';', '@', '\\', ',', '.', '"']

def isAtext (c : Char) : Bool := 33 ≤ c.toNat && c.toNat ≠ 127 && !specials.contains c

structure DotAtom where
  first : List Char
  rest : List (List Char)
  atoms : ∀ a ∈ first :: rest, a ≠ [] ∧ ∀ c ∈ a, isAtext c = true

theorem atoms_of_all {first : List Char} {rest : List (List Char)}
    (h : (first :: rest).all (fun a => !a.isEmpty && a.all isAtext) = true) :
    ∀ a ∈ first :: rest, a ≠ [] ∧ ∀ c ∈ a, isAtext c = true := by
  intro a ha
  have hatom := List.all_eq_true.mp h a ha
  rw [Bool.and_eq_true, Bool.not_eq_true', List.isEmpty_eq_false_iff, List.all_eq_true] at hatom
  exact hatom

def DotAtom.text (a : DotAtom) : List Char := a.first ++ a.rest.flatMap ('.' :: ·)

inductive LocalPart
  | dotAtom (a : DotAtom)
  | quoted (content : List Char)

def LocalPart.text : LocalPart → List Char
  | dotAtom a => a.text
  | quoted content => '"' :: (content ++ ['"'])

inductive Domain
  | dotAtom (a : DotAtom)
  | literal (dtext : List Char)

def Domain.text : Domain → List Char
  | dotAtom a => a.text
  | literal dtext => '[' :: (dtext ++ [']'])

structure AddrSpec where
  localPart : LocalPart
  domain : Domain

def AddrSpec.text (a : AddrSpec) : List Char := a.localPart.text ++ '@' :: a.domain.text

/-- An address, alone or after a name and in angle brackets, with blanks at the end. -/
inductive Mailbox (blank : Char → Bool)
  | bare (a : AddrSpec)
  | display (name : List Char) (a : AddrSpec) (blanks : List Char) (h : ∀ c ∈ blanks, blank c = true)

namespace Mailbox

variable {blank : Char → Bool}

def address : Mailbox blank → AddrSpec
  | bare a => a
  | display _ a _ _ => a

def text : Mailbox blank → List Char
  | bare a => a.text
  | display name a blanks _ => name ++ ' ' :: '<' :: (a.text ++ '>' :: blanks)

end Mailbox

theorem Mailbox.text_split {blank : Char → Bool} (mailbox : Mailbox blank) : ∃ front behind,
    mailbox.text = front ++ '@' :: (mailbox.address.domain.text ++ behind) ∧
    (behind = [] ∨ ∃ blanks, behind = '>' :: blanks ∧ ∀ c ∈ blanks, blank c = true) := by
  cases mailbox with
  | bare a =>
      refine ⟨a.localPart.text, [], ?_, .inl rfl⟩
      rw [text, address, AddrSpec.text, List.append_nil]
  | display name a blanks h =>
      refine ⟨name ++ ' ' :: '<' :: a.localPart.text, '>' :: blanks, ?_, .inr ⟨blanks, rfl, h⟩⟩
      rw [text, address, AddrSpec.text, List.append_assoc, List.append_assoc]
      rfl

theorem DotAtom.text_split (a : DotAtom) : ∃ init last, a.text = init ++ last ∧ last ≠ [] ∧ ∀ c ∈ last, isAtext c = true := by
  rcases List.eq_nil_or_concat a.rest with hrest | ⟨atoms, last, hrest⟩
  · obtain ⟨hne, hatext⟩ := a.atoms a.first List.mem_cons_self
    refine ⟨[], a.first, ?_, hne, hatext⟩
    rw [text, hrest, List.flatMap_nil, List.append_nil, List.nil_append]
  · have hmem : last ∈ a.first :: a.rest := by
      rw [hrest, List.concat_eq_append]
      exact List.mem_cons_of_mem _ (List.mem_append_right _ List.mem_cons_self)
    obtain ⟨hne, hatext⟩ := a.atoms last hmem
    refine ⟨a.first ++ atoms.flatMap ('.' :: ·) ++ ['.'], last, ?_, hne, hatext⟩
    rw [text, hrest, List.concat_eq_append, List.flatMap_append, List.flatMap_singleton, List.append_assoc,
      List.append_assoc]
    rfl

theorem Domain.getLast?_text (d : Domain) : d.text.getLast? ≠ some '.' := by
  intro hdot
  cases d with
  | dotAtom a =>
      obtain ⟨init, last, htext, hne, hatext⟩ := a.text_split
      rw [text, htext, List.getLast?_append_of_ne_nil init hne] at hdot
      exact absurd (hatext '.' (List.mem_of_getLast? hdot)) (by decide)
  | literal dtext =>
      rw [text, ← List.cons_append, List.getLast?_append_of_ne_nil _ (List.cons_ne_nil _ _)] at hdot
      cases hdot

def dropDot (cs : List Char) : List Char := if cs.getLast? = some '.' then cs.dropLast else cs

def lower (cs : List Char) : List Char := cs.map Char.toLower

def dropDots (cs : List Char) : List Char := cs.rdropWhile (· = '.')

def SameDomain (a b : List Char) : Prop := lower (dropDot a) = lower (dropDot b)

instance (a b : List Char) : Decidable (SameDomain a b) := inferInstanceAs (Decidable (_ = _))

variable {a b cs : List Char}

theorem toLower_eq_iff {c d : Char} (hupper : ¬ ('A'.val ≤ d.val ∧ d.val ≤ 'Z'.val))
    (hlower : ¬ ('a'.val ≤ d.val ∧ d.val ≤ 'z'.val)) : c.toLower = d ↔ c = d := by
  delta Char.toLower
  split
  · rename_i hc
    constructor
    · rintro rfl
      refine absurd ?_ hlower
      simp only [ge_iff_le, UInt32.le_iff_toNat_le, UInt32.toNat_add] at hc ⊢
      have hA : 'A'.val.toNat = 65 := rfl
      have hZ : 'Z'.val.toNat = 90 := rfl
      have ha : 'a'.val.toNat = 97 := rfl
      have hz : 'z'.val.toNat = 122 := rfl
      have hshift : ('a'.val - 'A'.val).toNat = 32 := rfl
      rw [hA, hZ] at hc
      rw [ha, hz, hshift]
      omega
    · rintro rfl
      exact absurd hc hupper
  · rfl

theorem dropDots_of_getLast? (h : cs.getLast? ≠ some '.') : dropDots cs = cs := by
  rw [dropDots, List.rdropWhile_eq_self_iff]
  intro hne hdot
  exact h ((List.getLast?_eq_some_getLast hne).trans (congrArg some (of_decide_eq_true hdot)))

theorem dropDots_dropDot : dropDots (dropDot cs) = dropDots cs := by
  rw [dropDot]
  split
  · rename_i hdot
    obtain ⟨init, rfl⟩ := List.getLast?_eq_some_iff.mp hdot
    have hdrop := List.rdropWhile_concat_pos (fun c => decide (c = '.')) init '.' (decide_eq_true rfl)
    rw [List.dropLast_concat, dropDots, dropDots, hdrop]
  · rfl

theorem getLast?_dropDot : (dropDot cs).getLast? = some '.' ↔ ['.', '.'] <:+ cs := by
  rw [dropDot]
  split
  · rename_i hdot
    obtain ⟨init, rfl⟩ := List.getLast?_eq_some_iff.mp hdot
    rw [List.dropLast_concat, List.getLast?_eq_some_iff]
    constructor
    · rintro ⟨init, rfl⟩
      exact ⟨init, by rw [List.append_assoc]; rfl⟩
    · rintro ⟨init', h⟩
      have hdots : init' ++ ['.'] ++ ['.'] = init ++ ['.'] := by
        rw [List.append_assoc]
        exact h
      exact ⟨init', (List.append_cancel_right hdots).symm⟩
  · rename_i hdot
    constructor
    · intro h
      exact absurd h hdot
    · rintro ⟨init, rfl⟩
      exact absurd (by rw [List.getLast?_append_of_ne_nil _ (List.cons_ne_nil _ _)]; rfl) hdot

theorem sameDomain_iff (hb : b.getLast? ≠ some '.') :
    SameDomain a b ↔ lower (dropDots a) = lower b ∧ ¬ ['.', '.'] <:+ a := by
  have hdropDot : dropDot b = b := if_neg hb
  rw [SameDomain, hdropDot, ← getLast?_dropDot]
  constructor
  · intro hsame
    have hdot : (dropDot a).getLast? ≠ some '.' := by
      intro hdot
      have hlast := congrArg List.getLast? hsame
      rw [lower, lower, List.getLast?_map, List.getLast?_map, hdot] at hlast
      obtain ⟨c, hc, hlower⟩ := Option.map_eq_some_iff.mp hlast.symm
      rw [(toLower_eq_iff (by decide) (by decide)).mp hlower] at hc
      exact hb hc
    refine ⟨?_, hdot⟩
    rw [← dropDots_dropDot, dropDots_of_getLast? hdot, hsame]
  · rintro ⟨hsame, hdot⟩
    have hdrop := dropDots_of_getLast? hdot
    rw [dropDots_dropDot] at hdrop
    rw [← hsame, hdrop]

end Catapulte.Text
