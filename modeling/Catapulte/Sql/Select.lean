import Mathlib.Data.List.Sort

namespace Catapulte.Sql

variable {α β : Type} {le : α → α → Prop} {rows out out' : List α}

/-- What an `ORDER BY` may return: any order of the rows that agrees with the key. -/
structure Ordered (le : α → α → Prop) (rows out : List α) : Prop where
  perm : out.Perm rows
  sorted : out.Pairwise le

/-- `ORDER BY ... LIMIT limit OFFSET offset`. -/
def Page (le : α → α → Prop) (rows : List α) (limit offset : Nat) (page : List α) : Prop :=
  ∃ out, Ordered le rows out ∧ page = (out.drop offset).take limit

def Keyed (le : α → α → Prop) (rows : List α) : Prop := ∀ a ∈ rows, ∀ b ∈ rows, le a b → le b a → a = b

/-- `ORDER BY created DESC, id DESC`. -/
def Descending (created : α → Int) (id : α → Nat) (a b : α) : Prop :=
  created b < created a ∨ (created a = created b ∧ id b ≤ id a)

section Descending

variable {created : α → Int} {id : α → Nat}

instance : DecidableRel (Descending created id) := fun _ _ => inferInstanceAs (Decidable (_ ∨ _))

instance : Std.Total (Descending created id) := ⟨fun a b => by unfold Descending; omega⟩

instance : IsTrans α (Descending created id) := ⟨fun a b c => by unfold Descending; omega⟩

theorem ordered_insertionSort (rows : List α) :
    Ordered (Descending created id) rows (rows.insertionSort (Descending created id)) :=
  ⟨List.perm_insertionSort _ rows, List.pairwise_insertionSort _ rows⟩

theorem keyed_descending (h : (rows.map id).Nodup) : Keyed (Descending created id) rows := by
  intro a ha b hb hab hba
  have hid : id a = id b := by
    unfold Descending at hab hba
    omega
  exact List.inj_on_of_nodup_map h ha hb hid

end Descending

theorem Ordered.unique (hkeyed : Keyed le rows) (h : Ordered le rows out) (h' : Ordered le rows out') : out = out' :=
  List.Perm.eq_of_pairwise (fun a b ha hb => hkeyed a (h.perm.subset ha) b (h'.perm.subset hb)) h.sorted h'.sorted
    (h.perm.trans h'.perm.symm)

theorem Ordered.filter (h : Ordered le rows out) (p : α → Bool) : Ordered le (rows.filter p) (out.filter p) :=
  ⟨h.perm.filter p, h.sorted.sublist List.filter_sublist⟩

theorem Keyed.filter (h : Keyed le rows) (p : α → Bool) : Keyed le (rows.filter p) :=
  fun a ha b hb => h a (List.mem_of_mem_filter ha) b (List.mem_of_mem_filter hb)

theorem Page.eq {limit offset : Nat} {page : List α} (hkeyed : Keyed le rows) (hpage : Page le rows limit offset page)
    (h : Ordered le rows out) : page = (out.drop offset).take limit := by
  obtain ⟨out', h', rfl⟩ := hpage
  rw [h'.unique hkeyed h]

theorem flatten_pages {limit : Nat} {pages : List (List α)}
    (h : ∀ (k : Nat) (page : List α), pages[k]? = some page → page = (out.drop (k * limit)).take limit) :
    pages.flatten = out.take (pages.length * limit) := by
  induction pages generalizing out with
  | nil => rw [List.flatten_nil, List.length_nil, Nat.zero_mul, List.take_zero]
  | cons page pages ih =>
      have hfirst : page = out.take limit := by
        have hpage := h 0 page rfl
        rwa [Nat.zero_mul, List.drop_zero] at hpage
      have hrest : pages.flatten = (out.drop limit).take (pages.length * limit) := ih fun k page hk => by
        rw [h (k + 1) page hk, List.drop_drop, Nat.succ_mul, Nat.add_comm]
      rw [List.flatten_cons, hfirst, hrest, List.length_cons, Nat.succ_mul, Nat.add_comm, List.take_add]

section Reads

variable [DecidableRel le] {rows' : List α} {limit offset : Nat} {x : α} {page : List α} {pages : List (List α)}

/-- The number of rows that the order puts before `x`. -/
def rank (le : α → α → Prop) [DecidableRel le] (rows : List α) (x : α) : Nat :=
  rows.countP fun y => decide (le y x ∧ ¬ le x y)

theorem rank_mono (h : rows.Sublist rows') (x : α) : rank le rows x ≤ rank le rows' x := h.countP_le

theorem Ordered.rank_eq (h : Ordered le rows out) (x : α) : rank le out x = rank le rows x := h.perm.countP_eq _

theorem getElem?_rank (hkeyed : Keyed le out) (hsorted : out.Pairwise le) (hx : x ∈ out) : out[rank le out x]? = some x := by
  induction out with
  | nil => cases hx
  | cons y ys ih =>
      obtain ⟨hy, hys⟩ := List.pairwise_cons.mp hsorted
      have hkeyed' : Keyed le ys := fun a ha b hb => hkeyed a (List.mem_cons_of_mem y ha) b (List.mem_cons_of_mem y hb)
      by_cases hbefore : le y x ∧ ¬ le x y
      · have hx' : x ∈ ys := by
          rcases List.mem_cons.mp hx with rfl | hx
          · exact absurd hbefore.1 hbefore.2
          · exact hx
        have hrank : rank le (y :: ys) x = rank le ys x + 1 := List.countP_cons_of_pos (decide_eq_true hbefore)
        rw [hrank, List.getElem?_cons_succ]
        exact ih hkeyed' hys hx'
      · have hxy : y = x := by
          rcases List.mem_cons.mp hx with rfl | hx'
          · rfl
          · have hyx : le y x := hy x hx'
            exact hkeyed y List.mem_cons_self x hx hyx (by_contra fun hnot => hbefore ⟨hyx, hnot⟩)
        subst hxy
        have hzero : rank le (y :: ys) y = 0 := by
          refine List.countP_eq_zero.mpr fun z hz hbefore' => ?_
          obtain ⟨hzy, hnot⟩ := of_decide_eq_true hbefore'
          rcases List.mem_cons.mp hz with rfl | hz
          · exact hnot hzy
          · exact hnot (hy z hz)
        rw [hzero, List.getElem?_cons_zero]

theorem Page.mem (hkeyed : Keyed le rows) (hpage : Page le rows limit offset page) (hx : x ∈ rows)
    (hlo : offset ≤ rank le rows x) (hhi : rank le rows x < offset + limit) : x ∈ page := by
  obtain ⟨out, hout, rfl⟩ := hpage
  have hkeyed' : Keyed le out := fun a ha b hb => hkeyed a (hout.perm.subset ha) b (hout.perm.subset hb)
  have hat := getElem?_rank hkeyed' hout.sorted (hout.perm.mem_iff.mpr hx)
  rw [hout.rank_eq] at hat
  refine List.mem_of_getElem? (i := rank le rows x - offset) ?_
  rw [List.getElem?_take_of_lt (by omega), List.getElem?_drop, Nat.add_sub_of_le hlo, hat]

theorem Page.rank_lt (hkeyed : Keyed le rows) (hpage : Page le rows limit offset page) (hshort : page.length < limit)
    (hx : x ∈ rows) : rank le rows x < offset + limit := by
  obtain ⟨out, hout, rfl⟩ := hpage
  have hkeyed' : Keyed le out := fun a ha b hb => hkeyed a (hout.perm.subset ha) b (hout.perm.subset hb)
  have hat := getElem?_rank hkeyed' hout.sorted (hout.perm.mem_iff.mpr hx)
  rw [hout.rank_eq] at hat
  obtain ⟨hlt, -⟩ := List.getElem?_eq_some_iff.mp hat
  rw [List.length_take, List.length_drop] at hshort
  omega

/-- Pages read one after the other up to a short one, while rows are added to the table. -/
inductive Reads (le : α → α → Prop) (limit : Nat) : List α → Nat → List (List α) → Prop
  | last {rows : List α} {offset : Nat} {page : List α} (hkeyed : Keyed le rows) (h : Page le rows limit offset page)
      (hshort : page.length < limit) : Reads le limit rows offset [page]
  | next {rows rows' : List α} {offset : Nat} {page : List α} {pages : List (List α)} (hkeyed : Keyed le rows)
      (h : Page le rows limit offset page) (hgrow : rows.Sublist rows') (hrest : Reads le limit rows' (offset + limit) pages) :
      Reads le limit rows offset (page :: pages)

theorem Reads.mem (h : Reads le limit rows offset pages) (hx : x ∈ rows) (hlo : offset ≤ rank le rows x) :
    ∃ page ∈ pages, x ∈ page := by
  induction h with
  | last hkeyed h hshort => exact ⟨_, List.mem_cons_self, h.mem hkeyed hx hlo (h.rank_lt hkeyed hshort hx)⟩
  | @next rows rows' offset page pages hkeyed h hgrow hrest ih =>
      by_cases hhi : rank le rows x < offset + limit
      · exact ⟨page, List.mem_cons_self, h.mem hkeyed hx hlo hhi⟩
      · obtain ⟨page', hpage', hmem⟩ := ih (hgrow.subset hx) (Nat.le_trans (Nat.not_lt.mp hhi) (rank_mono hgrow x))
        exact ⟨page', List.mem_cons_of_mem page hpage', hmem⟩

end Reads

end Catapulte.Sql
