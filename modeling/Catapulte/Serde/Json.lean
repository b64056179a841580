import Mathlib.Algebra.Group.Int.Defs
import Mathlib.Algebra.Group.Nat.Defs
import Mathlib.Data.List.Pairwise

namespace Catapulte

/-- A JSON value. A number is an integer, or a finite double given by its bits. -/
inductive Json
  | null
  | bool (b : Bool)
  | number (n : Int)
  | float (bits : UInt64)
  | string (s : String)
  | array (items : List Json)
  | object (members : List (String × Json))

namespace Json

variable {α β : Type}

def optString : Option String → Json
  | none => .null
  | some s => .string s

def asString : Json → Option String
  | string s => some s
  | _ => none

def asU64 : Json → Option Nat
  | number (.ofNat n) => if n < 2 ^ 64 then some n else none
  | _ => none

def asSeq (decode : Json → Option α) : Json → Option (List α)
  | array items => items.mapM decode
  | _ => none

/-- `serde_json::Map`: no two entries have the same key. -/
structure Map where
  entries : List (String × Json)
  unique : entries.Pairwise fun a b => a.1 ≠ b.1

namespace Map

def new : Map := ⟨[], .nil⟩

def single (key : String) (value : Json) : Map := ⟨[(key, value)], List.pairwise_singleton _ _⟩

end Map

/-- Of the values of a repeated key the last one stays. -/
def asMap : Json → Option Map
  | object members => some ⟨members.pwFilter fun a b => a.1 ≠ b.1, List.pairwise_pwFilter members⟩
  | _ => none

def nullable (decode : Json → Option α) : Json → Option (Option α)
  | null => some none
  | j => (decode j).map some

/-- The name of a unit variant, on its own or as the key of a null. -/
def unitVariant : Json → Option String
  | string name => some name
  | object [(name, null)] => some name
  | _ => none

/-- Where a struct finds its fields: a struct is read from an object, or from an
array that lists the fields in order. -/
inductive Fields
  | named (members : List (String × Json))
  | listed (items : List Json)

/-- An internally tagged enum: the name of the variant, and the fields. -/
def tagged (tag : String) : Json → Option (String × Fields)
  | object members => ((members.lookup tag).bind asString).map fun name => (name, .named members)
  | array (string name :: items) => some (name, .listed items)
  | _ => none

namespace Fields

def get (i : Nat) (name : String) : Fields → Option Json
  | named members => members.lookup name
  | listed items => items[i]?

/-- An array must not have more items than the struct has fields. -/
def within (count : Nat) : Fields → Option Fields
  | named members => some (named members)
  | listed items => if items.length ≤ count then some (listed items) else none

def required (f : Fields) (i : Nat) (name : String) (decode : Json → Option α) : Option α :=
  (f.get i name).bind decode

/-- A field of type `Option`: it is `None` when an object does not have it. -/
def optional (f : Fields) (i : Nat) (name : String) (decode : Json → Option α) : Option (Option α) :=
  match f.get i name, f with
  | some j, _ => nullable decode j
  | none, named _ => some none
  | none, listed _ => none

/-- A field with a default, which stands in wherever the field is missing. -/
def defaulted (f : Fields) (i : Nat) (name : String) (decode : Json → Option α) (a : α) : Option α :=
  match f.get i name with
  | some j => decode j
  | none => some a

end Fields

def fields (count : Nat) : Json → Option Fields
  | object members => some (.named members)
  | array items => (Fields.listed items).within count
  | _ => none

/-- A struct variant of an untagged enum is read from an object alone. -/
def variantFields : Json → Option Fields
  | object members => some (.named members)
  | _ => none

@[simp] theorem asMap_object (m : Map) : (object m.entries).asMap = some m := by
  simp only [asMap, List.pwFilter_eq_self.mpr m.unique]

@[simp] theorem asString_string (s : String) : (string s).asString = some s := rfl

theorem lt_of_asU64 {j : Json} {n : Nat} (h : j.asU64 = some n) : n < 2 ^ 64 := by
  unfold asU64 at h
  split at h
  · split at h <;> cases h
    assumption
  · cases h

theorem asU64_number {n : Nat} (h : n < 2 ^ 64) : (number n).asU64 = some n := if_pos h

@[simp] theorem nullable_optString (s : Option String) : nullable asString (optString s) = some s := by
  cases s <;> rfl

theorem asSeq_array {decode : Json → Option α} {g : β → Json} {f : β → α} (items : List β)
    (h : ∀ b ∈ items, decode (g b) = some (f b)) :
    asSeq decode (array (items.map g)) = some (items.map f) := by
  rw [asSeq]
  induction items with
  | nil => rfl
  | cons b items ih =>
      rw [List.map_cons, List.mapM_cons, h b List.mem_cons_self,
        ih fun b hb => h b (List.mem_cons_of_mem _ hb)]
      rfl

theorem forall_of_asSeq {decode : Json → Option α} {P : α → Prop} (h : ∀ j a, decode j = some a → P a)
    {j : Json} {l : List α} (hj : asSeq decode j = some l) : ∀ a ∈ l, P a := by
  cases j with
  | array items =>
      rw [asSeq] at hj
      induction items generalizing l with
      | nil => cases hj; nofun
      | cons j items ih =>
          simp only [List.mapM_cons, Option.pure_def, Option.bind_eq_bind, Option.bind_eq_some_iff] at hj
          obtain ⟨a, ha, l', hl', hl⟩ := hj
          cases hl
          intro b hb
          rcases List.mem_cons.mp hb with rfl | hb
          · exact h j b ha
          · exact ih hl' b hb
  | _ => cases hj

end Json

end Catapulte
