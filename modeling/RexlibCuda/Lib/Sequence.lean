import Mathlib.Data.List.Basic
import Mathlib.Data.List.MinMax
import Mathlib.Data.List.Perm.Basic
import Mathlib.Order.Lattice

/-! Sequences whose elements are names: the neighbours of a name, insertion
before a name, and insertion into a sequence kept in order, at the upper
bound of what is equivalent to the new element, as a multiset does. Also what
is left of a sequence once some of it has been dropped, and which of its least
elements comes first. -/

namespace Sequence

variable {α : Type}

section Neighbours

variable [DecidableEq α]

/-- What stands right after the first `a`. -/
def nextOf (a : α) : List α → Option α
  | [] => none
  | x :: xs => if x = a then xs.head? else nextOf a xs

/-- What stands right before the first `a`, or `prev` if `a` comes first. -/
def prevFrom (prev : Option α) (a : α) : List α → Option α
  | [] => none
  | x :: xs => if x = a then prev else prevFrom (some x) a xs

/-- What stands right before the first `a`. -/
def prevOf (a : α) (xs : List α) : Option α := prevFrom none a xs

/-- Put `n` right before the first `a`. -/
def insertBefore (a n : α) : List α → List α
  | [] => [n]
  | x :: xs => if x = a then n :: x :: xs else x :: insertBefore a n xs

theorem nextOf_append {a : α} {l r : List α} (h : a ∉ l) :
    nextOf a (l ++ a :: r) = r.head? := by
  induction l with
  | nil => simp [nextOf]
  | cons x l ih =>
      simp only [List.mem_cons, not_or] at h
      simp only [List.cons_append, nextOf, if_neg (Ne.symm h.1)]
      exact ih h.2

theorem prevFrom_append {prev : Option α} {a : α} {l r : List α} (h : a ∉ l) :
    prevFrom prev a (l ++ a :: r) = (l.getLast?).or prev := by
  induction l generalizing prev with
  | nil => simp [prevFrom]
  | cons x l ih =>
      simp only [List.mem_cons, not_or] at h
      simp only [List.cons_append, prevFrom, if_neg (Ne.symm h.1), ih h.2]
      cases l <;> simp [List.getLast?_cons]

theorem prevOf_append {a : α} {l r : List α} (h : a ∉ l) :
    prevOf a (l ++ a :: r) = l.getLast? := by
  simp [prevOf, prevFrom_append h]

theorem insertBefore_append {a n : α} {l r : List α} (h : a ∉ l) :
    insertBefore a n (l ++ a :: r) = l ++ n :: a :: r := by
  induction l with
  | nil => simp [insertBefore]
  | cons x l ih =>
      simp only [List.mem_cons, not_or] at h
      simp only [List.cons_append, insertBefore, if_neg (Ne.symm h.1), ih h.2]

/-- The place of a name, with what comes before it free of that name. -/
theorem split_at {a : α} {xs : List α} (h : a ∈ xs) :
    ∃ l r, xs = l ++ a :: r ∧ a ∉ l := by
  induction xs with
  | nil => cases h
  | cons x xs ih =>
      by_cases hx : x = a
      · exact ⟨[], xs, by rw [hx]; rfl, by simp⟩
      · obtain ⟨l, r, rfl, hl⟩ := ih ((List.mem_cons.mp h).resolve_left (Ne.symm hx))
        exact ⟨x :: l, r, rfl, by simp [hl, Ne.symm hx]⟩

/-- A next neighbour is adjacent. -/
theorem nextOf_eq_some {a n : α} {xs : List α} (ha : a ∈ xs)
    (h : nextOf a xs = some n) : ∃ l r, xs = l ++ a :: n :: r ∧ a ∉ l := by
  obtain ⟨l, r, rfl, hl⟩ := split_at ha
  rw [nextOf_append hl] at h
  obtain ⟨r, rfl⟩ := List.head?_eq_some_iff.mp h
  exact ⟨l, r, rfl, hl⟩

/-- A previous neighbour is adjacent. -/
theorem prevOf_eq_some {a p : α} {xs : List α} (ha : a ∈ xs)
    (h : prevOf a xs = some p) : ∃ l r, xs = l ++ p :: a :: r ∧ a ∉ l ∧ a ≠ p := by
  obtain ⟨l, r, rfl, hl⟩ := split_at ha
  rw [prevOf_append hl] at h
  obtain ⟨l, rfl⟩ := List.getLast?_eq_some_iff.mp h
  simp only [List.mem_append, List.mem_singleton, not_or] at hl
  exact ⟨l, r, by simp, hl⟩

theorem erase_middle {a : α} {l r : List α} (h : a ∉ l) :
    (l ++ a :: r).erase a = l ++ r := by
  rw [List.erase_append_right _ h, List.erase_cons_head]

end Neighbours

/-- The part of a list in front of its first failure, by counting back. -/
theorem take_sub_dropWhile (f : α → Bool) (xs : List α) :
    xs.take (xs.length - (xs.dropWhile f).length) = xs.takeWhile f := by
  induction xs with
  | nil => rfl
  | cons x xs ih =>
      have hle := (List.dropWhile_sublist (l := xs) f).length_le
      cases hx : f x with
      | false => simp [hx]
      | true =>
          rw [List.dropWhile_cons_of_pos hx, List.takeWhile_cons_of_pos hx, List.length_cons,
            Nat.succ_sub hle, List.take_succ_cons, ih]

/-- Only what is in the list is asked about. -/
theorem dropWhile_congr {f g : α → Bool} {xs : List α} (h : ∀ x ∈ xs, f x = g x) :
    xs.dropWhile f = xs.dropWhile g := by
  induction xs with
  | nil => rfl
  | cons x xs ih =>
      have hrest := ih fun y hy => h y (List.mem_cons_of_mem x hy)
      simp only [List.dropWhile_cons, h x List.mem_cons_self, hrest]

section InOrder

variable (lt : α → α → Bool)

/-- Insert at the upper bound: after everything `a` is not less than. -/
def insertUpper (a : α) : List α → List α
  | [] => [a]
  | x :: xs => if lt a x then a :: x :: xs else x :: insertUpper a xs

/-- Nothing stands before something less than it. -/
def InOrder (xs : List α) : Prop := xs.Pairwise fun x y => lt y x = false

theorem insertUpper_perm (a : α) (xs : List α) :
    (insertUpper lt a xs).Perm (a :: xs) := by
  induction xs with
  | nil => exact .refl _
  | cons x xs ih =>
      simp only [insertUpper]
      split
      · exact .refl _
      · exact (ih.cons x).trans (.swap a x xs)

@[simp] theorem mem_insertUpper {a b : α} {xs : List α} :
    b ∈ insertUpper lt a xs ↔ b = a ∨ b ∈ xs := by
  rw [(insertUpper_perm lt a xs).mem_iff, List.mem_cons]

/-- Only what is in the list is compared with. -/
theorem insertUpper_congr {lt lt' : α → α → Bool} {a : α} {xs : List α}
    (h : ∀ x ∈ xs, lt a x = lt' a x) : insertUpper lt a xs = insertUpper lt' a xs := by
  induction xs with
  | nil => rfl
  | cons x xs ih =>
      have hrest := ih fun y hy => h y (List.mem_cons_of_mem x hy)
      simp only [insertUpper, h x List.mem_cons_self, hrest]

theorem InOrder.congr {lt lt' : α → α → Bool} {xs : List α} (hx : InOrder lt xs)
    (h : ∀ x ∈ xs, ∀ y ∈ xs, lt x y = lt' x y) : InOrder lt' xs :=
  hx.imp_of_mem fun hx hy hlt => by rw [← h _ hy _ hx, hlt]

theorem InOrder.erase [DecidableEq α] {xs : List α} (h : InOrder lt xs) (a : α) :
    InOrder lt (xs.erase a) :=
  h.sublist List.erase_sublist

variable {lt} {κ : Type} [LinearOrder κ] {key : α → κ}

/-- Insertion keeps the order, when `lt` compares keys of a linear order. -/
theorem InOrder.insertUpper (hkey : ∀ x y, lt x y = true ↔ key x < key y)
    {a : α} {xs : List α} (h : InOrder lt xs) : InOrder lt (insertUpper lt a xs) := by
  have hle : ∀ x y, lt x y = false ↔ key y ≤ key x := fun x y => by
    rw [← not_lt, ← hkey, Bool.not_eq_true]
  induction xs with
  | nil => exact List.pairwise_singleton _ _
  | cons x xs ih =>
      obtain ⟨hx, hxs⟩ := List.pairwise_cons.mp h
      simp only [Sequence.insertUpper]
      split
      · rename_i hax
        have hlt : key a < key x := (hkey a x).mp hax
        refine List.pairwise_cons.mpr ⟨fun y hy => (hle y a).mpr ?_, h⟩
        rcases List.mem_cons.mp hy with rfl | hy
        · exact hlt.le
        · exact hlt.le.trans ((hle y x).mp (hx y hy))
      · rename_i hax
        refine List.pairwise_cons.mpr ⟨fun y hy => ?_, ih hxs⟩
        rcases (mem_insertUpper lt).mp hy with rfl | hy
        · exact Bool.not_eq_true _ ▸ hax
        · exact hx y hy

/-- Inserting one by one sorts whatever comes. -/
theorem InOrder.foldl_insertUpper (hkey : ∀ x y, lt x y = true ↔ key x < key y)
    (as : List α) {xs : List α} (h : InOrder lt xs) :
    InOrder lt (as.foldl (fun xs a => Sequence.insertUpper lt a xs) xs) := by
  induction as generalizing xs with
  | nil => exact h
  | cons a as ih => exact ih (h.insertUpper hkey)

/-- Only what is in the lists is compared. -/
theorem foldl_insertUpper_congr {lt lt' : α → α → Bool} (as : List α) : ∀ xs : List α,
    (∀ x ∈ as ++ xs, ∀ y ∈ as ++ xs, lt x y = lt' x y) →
      as.foldl (fun xs a => insertUpper lt a xs) xs
        = as.foldl (fun xs a => insertUpper lt' a xs) xs := by
  induction as with
  | nil => exact fun _ _ => rfl
  | cons a as ih =>
      intro xs h
      have hxs : ∀ {x}, x ∈ xs → x ∈ a :: as ++ xs := fun hx => List.mem_append_right _ hx
      have ha : a ∈ a :: as ++ xs := List.mem_cons_self
      rw [List.foldl_cons, List.foldl_cons, insertUpper_congr fun x hx => h a ha x (hxs hx)]
      apply ih
      have hsub : ∀ x ∈ as ++ insertUpper lt' a xs, x ∈ a :: as ++ xs := by
        intro x hx
        simp only [List.mem_append, List.mem_cons, mem_insertUpper] at hx ⊢
        tauto
      exact fun x hx y hy => h x (hsub x hx) y (hsub y hy)

theorem foldl_insertUpper_perm (as xs : List α) :
    (as.foldl (fun xs a => insertUpper lt a xs) xs).Perm (as ++ xs) := by
  induction as generalizing xs with
  | nil => exact .refl _
  | cons a as ih =>
      apply (ih _).trans
      apply ((insertUpper_perm lt a xs).append_left as).trans
      exact List.perm_middle

end InOrder

/-- What goes with one element of a sequence, and with those around it. -/
theorem forall₂_split {β : Type} {R : α → β → Prop} {xs : List α} {l r : List β} {y : β}
    (h : List.Forall₂ R xs (l ++ y :: r)) :
    ∃ l' x r', xs = l' ++ x :: r' ∧ List.Forall₂ R l' l ∧ R x y ∧ List.Forall₂ R r' r := by
  induction l generalizing xs with
  | nil =>
      cases h with
      | @cons x _ r' _ hx hr => exact ⟨[], x, r', rfl, .nil, hx, hr⟩
  | cons z l ih =>
      cases h with
      | @cons w _ xs _ hw hxs =>
          obtain ⟨l', x, r', rfl, hl, hx, hr⟩ := ih hxs
          exact ⟨w :: l', x, r', rfl, .cons hw hl, hx, hr⟩

theorem forall₂_trans {β γ : Type} {R : α → β → Prop} {S : β → γ → Prop} {T : α → γ → Prop}
    {xs : List α} {ys : List β} {zs : List γ} (hT : ∀ x y z, R x y → S y z → T x z)
    (h : List.Forall₂ R xs ys) (h' : List.Forall₂ S ys zs) : List.Forall₂ T xs zs := by
  induction h generalizing zs with
  | nil =>
      cases h'
      exact .nil
  | cons hx _ ih =>
      cases h' with
      | cons hy h' => exact .cons (hT _ _ _ hx hy) (ih h')

/-! ## What is left -/

/-- `left` is what is left of a list in its order, and `done` holds of all else
that was in it. -/
inductive Drops (done : α → Prop) : List α → List α → Prop
  | nil : Drops done [] []
  | keep {a : α} {as left : List α} : Drops done as left → Drops done (a :: as) (a :: left)
  | drop {a : α} {as left : List α} : done a → Drops done as left → Drops done (a :: as) left

section Drops

variable {done done' : α → Prop} {as bs cs : List α}

theorem Drops.refl (as : List α) : Drops done as as := by
  induction as with
  | nil => exact .nil
  | cons a as ih => exact .keep ih

theorem Drops.mono (hdone : ∀ a, done a → done' a) (h : Drops done as bs) :
    Drops done' as bs := by
  induction h with
  | nil => exact .nil
  | keep _ ih => exact .keep ih
  | drop ha _ ih => exact .drop (hdone _ ha) ih

theorem Drops.trans (h : Drops done as bs) (h' : Drops done bs cs) : Drops done as cs := by
  induction h generalizing cs with
  | nil => exact h'
  | keep _ ih =>
      cases h' with
      | keep h' => exact .keep (ih h')
      | drop ha h' => exact .drop ha (ih h')
  | drop ha _ ih => exact .drop ha (ih h')

theorem Drops.sublist (h : Drops done as bs) : bs.Sublist as := by
  induction h with
  | nil => exact .slnil
  | keep _ ih => exact ih.cons_cons _
  | drop _ _ ih => exact ih.cons _

theorem Drops.mem (h : Drops done as bs) {a : α} (ha : a ∈ as) : a ∈ bs ∨ done a := by
  induction h with
  | nil => cases ha
  | keep _ ih =>
      rcases List.mem_cons.mp ha with rfl | ha
      · exact .inl List.mem_cons_self
      · exact (ih ha).imp_left (List.mem_cons_of_mem _)
  | drop hdone _ ih =>
      rcases List.mem_cons.mp ha with rfl | ha
      · exact .inr hdone
      · exact ih ha

/-- Where each element was answered for, dropping those answered `true` drops
what is done, and what is left was answered `false`. -/
theorem Drops.of_answers {no : α → Prop} {answers : List Bool}
    (h : List.Forall₂ (fun a answer => if answer then done a else no a) as answers) :
    Drops done as (((as.zip answers).filter fun x => !x.2).map Prod.fst) ∧
      ∀ a ∈ ((as.zip answers).filter fun x => !x.2).map Prod.fst, no a := by
  induction h with
  | nil => exact ⟨.nil, by simp⟩
  | @cons a answer as answers ha h ih =>
      cases answer with
      | true => simpa using ⟨Drops.drop (by simpa using ha) ih.1, by simpa using ih.2⟩
      | false =>
          have hno : no a := by simpa using ha
          simpa using ⟨Drops.keep ih.1, hno, by simpa using ih.2⟩

end Drops

section Least

variable {f : α → Nat}

/-- A search that goes on into elements that are in order need only look at the
first of them. -/
theorem argmin_append_sorted (l : List α) {g : List α} (hg : g.Pairwise fun a b => f a ≤ f b) :
    (l ++ g).argmin f = match g.head?, l.argmin f with
      | none, best => best
      | some a, none => some a
      | some a, some best => if f a < f best then some a else some best := by
  induction g using List.reverseRecOn with
  | nil => simp
  | append_singleton g x ih =>
      obtain ⟨hg, -, hx⟩ := List.pairwise_append.mp hg
      rw [← List.append_assoc, List.argmin_concat, ih hg]
      cases g with
      | nil => cases l.argmin f <;> simp
      | cons a g =>
          -- what comes last is no less than what came first
          have hle : f a ≤ f x := hx a List.mem_cons_self x List.mem_cons_self
          simp only [List.head?_cons, List.cons_append]
          cases l.argmin f with
          | none => simp [Nat.not_lt.mpr hle]
          | some best =>
              by_cases hlt : f a < f best
              · simp [hlt, Nat.not_lt.mpr hle]
              · have hbest : ¬ f x < f best := by omega
                simp [hlt, hbest]

theorem argmin_sorted {l : List α} (h : l.Pairwise fun a b => f a ≤ f b) :
    l.argmin f = l.head? := by
  have happend := argmin_append_sorted [] h
  rw [List.nil_append] at happend
  rw [happend]
  cases l <;> rfl

end Least

end Sequence
