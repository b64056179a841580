import Catapulte.Async.Beside

namespace Catapulte.Async

/-- A relation between computations that sequencing keeps. -/
structure Congruence (M N : Type → Type) [Monad M] [Monad N] where
  rel : {α : Type} → M α → N α → Prop
  pure : ∀ {α : Type} (a : α), rel (pure a) (pure a)
  bind : ∀ {α β : Type} {x : M α} {y : N α} {k : α → M β} {l : α → N β}, rel x y → (∀ a, rel (k a) (l a)) →
    rel (x >>= k) (y >>= l)

def Congruence.refl (M : Type → Type) [Monad M] : Congruence M M where
  rel x y := x = y
  pure _ := rfl
  bind h hk := h ▸ congrArg _ (funext hk)

namespace Program

variable {I : Interface} (N : Type → Type) [Monad N]

/-- The programs that satisfy a condition on their calls, whatever they are compared with. -/
def whereOnly (P : I.Op → Prop) : Congruence (Program I) N where
  rel p _ := p.Only P
  pure _ := trivial
  bind := Only.bind

/-- The programs whose finished runs all satisfy `T`. -/
def traced (T : List (Exchange I) → Prop) (hnil : T []) (happ : ∀ {t t'}, T t → T t' → T (t ++ t')) :
    Congruence (Program I) N where
  rel p _ := ∀ t a, p.Answered t a → T t
  pure a := by
    rintro t b ⟨rfl, -⟩
    exact hnil
  bind := by
    intro α β x y k l hx hk t b h
    obtain ⟨t₁, t₂, a, rfl, h₁, h₂⟩ := answered_bind.mp h
    exact happ (hx t₁ a h₁) (hk a t₂ b h₂)

/-- Programs that are alike without the calls of `J`. -/
def erasing (I J : Interface) : Congruence (Program (I.beside J)) (Program I) where
  rel p q := p.Erases Eq q
  pure a := ⟨a, rfl, rfl⟩
  bind h hk := h.bind fun a _ hab => hab ▸ hk a

end Program

end Catapulte.Async
