import Mathlib.Data.List.Chain

/-! Lists whose neighbours can be joined. Joining as much as possible is a
normal form: a single join anywhere in the list leaves it as it is, so that
neighbours may be joined in any order. -/

namespace Coalesce

variable {α : Type}

/-- Which neighbours can be joined, and to what. An element that was joined can
be joined on where its ends could. -/
structure Joining (α : Type) where
  joins : α → α → Prop
  decidable : DecidableRel joins
  join : α → α → α
  joins_left : ∀ {a b : α} (c : α), joins a b → (joins (join a b) c ↔ joins b c)
  joins_right : ∀ (a : α) {b c : α}, joins b c → (joins a (join b c) ↔ joins a b)
  assoc : ∀ {a b c : α}, joins a b → joins b c → join (join a b) c = join a (join b c)

instance (J : Joining α) : DecidableRel J.joins := J.decidable

variable (J : Joining α)

/-- Put `a` in front, joined to the first element if that is possible. -/
def push (a : α) : List α → List α
  | [] => [a]
  | b :: bs => if J.joins a b then J.join a b :: bs else a :: b :: bs

/-- Join all that can be joined, from the end to the front. -/
def coalesce : List α → List α
  | [] => []
  | a :: as => push J a (coalesce as)

/-- Nothing is left to join. -/
def Coalesced (as : List α) : Prop := as.IsChain fun a b => ¬ J.joins a b

variable {J} {a b : α} {l r as : List α}

/-- To put two joined elements in front is to put one after the other. -/
theorem push_join (h : J.joins a b) (bs : List α) :
    push J (J.join a b) bs = push J a (push J b bs) := by
  cases bs with
  | nil => simp [push, h]
  | cons c bs =>
      by_cases hbc : J.joins b c
      · have hleft := (J.joins_left c h).mpr hbc
        have hright := (J.joins_right a hbc).mpr h
        simp only [push, if_pos hleft, if_pos hbc, if_pos hright, J.assoc h hbc]
      · have hleft : ¬ J.joins (J.join a b) c := fun hc => hbc ((J.joins_left c h).mp hc)
        simp only [push, if_neg hleft, if_neg hbc, if_pos h]

/-- **One join does not change the normal form.** -/
theorem coalesce_join (h : J.joins a b) :
    coalesce J (l ++ J.join a b :: r) = coalesce J (l ++ a :: b :: r) := by
  induction l with
  | nil => exact push_join h _
  | cons c l ih => exact congrArg (push J c) ih

/-- A list in which nothing can be joined is its own normal form. -/
theorem Coalesced.coalesce (h : Coalesced J as) : coalesce J as = as := by
  induction as with
  | nil => rfl
  | cons a as ih =>
      rw [Coalesce.coalesce, ih h.tail]
      cases as with
      | nil => rfl
      | cons b bs => exact if_neg (List.isChain_cons_cons.mp h).1

/-- **What the elements of the normal form were joined from**: consecutive
pieces of the list, of which `R` tells what they were joined to. -/
theorem coalesce_groups {R : List α → α → Prop} (hsingle : ∀ a, R [a] a)
    (hjoin : ∀ a as b, R as b → J.joins a b → R (a :: as) (J.join a b)) (as : List α) :
    ∃ groups : List (List α), groups.flatten = as ∧ List.Forall₂ R groups (coalesce J as) := by
  induction as with
  | nil => exact ⟨[], rfl, .nil⟩
  | cons a as ih =>
      obtain ⟨groups, hflatten, hgroups⟩ := ih
      rw [coalesce]
      generalize coalesce J as = bs at hgroups
      cases hgroups with
      | nil => exact ⟨[[a]], by simp [← hflatten], .cons (hsingle a) .nil⟩
      | @cons group b groups bs hgroup hrest =>
          by_cases h : J.joins a b
          · -- the element joins the first piece
            refine ⟨(a :: group) :: groups, by simp [← hflatten], ?_⟩
            rw [push, if_pos h]
            exact .cons (hjoin a group b hgroup h) hrest
          · refine ⟨[a] :: group :: groups, by simp [← hflatten], ?_⟩
            rw [push, if_neg h]
            exact .cons (hsingle a) (.cons hgroup hrest)

end Coalesce
