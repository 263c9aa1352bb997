import Mathlib.Data.List.Nodup
import RexlibCuda.Lib.Runs

/-! A manager of memory that does no more than its clients can see. It obtains
regions of addresses, hands out parts of them under names, takes them back, and
returns a region once nothing is handed out of it. A region is given by where
it starts and by its length. -/

/-- What it has, and what is handed out of that under which name. -/
structure Arena (ι : Type) where
  held : List (Nat × Nat)
  out : List (ι × (Nat × Nat))

namespace Arena

open Relation (ReflTransGen)

/-- The address `x` is one of the region. -/
def Has (r : Nat × Nat) (x : Nat) : Prop := r.1 ≤ x ∧ x < r.1 + r.2

/-- No address is in both regions. -/
def Apart (r s : Nat × Nat) : Prop := ∀ x, Has r x → ¬ Has s x

/-- The first region begins and ends in the second one. -/
def Within (r s : Nat × Nat) : Prop := s.1 ≤ r.1 ∧ r.1 + r.2 ≤ s.1 + s.2

variable {ι : Type} {A : Nat} {a b : Arena ι} {r s t : Nat × Nat}

theorem Apart.symm (h : Apart r s) : Apart s r := fun x hs hr => h x hr hs

theorem Within.has (h : Within r s) {x : Nat} (hx : Has r x) : Has s x := by
  obtain ⟨hlo, hhi⟩ := h
  obtain ⟨hge, hlt⟩ := hx
  exact ⟨by omega, by omega⟩

theorem Apart.within (h : Apart r s) (ht : Within t r) : Apart t s :=
  fun x hx => h x (ht.has hx)

/-- Nothing is held. -/
def empty : Arena ι := ⟨[], []⟩

/-- One step of the manager, where what is handed out begins at a multiple
of `A`. -/
inductive Step (A : Nat) : Arena ι → Arena ι → Prop
  /-- A region is obtained. -/
  | obtained {a : Arena ι} {r : Nat × Nat} (apart : ∀ s ∈ a.held, Apart r s) :
      Step A a { a with held := r :: a.held }
  /-- A region is returned that nothing is handed out of. -/
  | returned {a : Arena ι} {r : Nat × Nat} (has : r ∈ a.held)
      (unused : ∀ e ∈ a.out, Apart e.2 r) :
      Step A a { a with held := a.held.erase r }
  /-- A part of a region is handed out. -/
  | handedOut {a : Arena ι} {i : ι} {r s : Nat × Nat} (fresh : i ∉ a.out.map Prod.fst)
      (has : s ∈ a.held) (within : Within r s) (aligned : A ∣ r.1)
      (apart : ∀ e ∈ a.out, Apart r e.2) :
      Step A a { a with out := (i, r) :: a.out }
  /-- It is given back. -/
  | givenBack {a : Arena ι} {before after : List (ι × (Nat × Nat))} {e : ι × (Nat × Nat)}
      (has : a.out = before ++ e :: after) :
      Step A a { a with out := before ++ after }

/-- **What a client may rely on**: what is handed out is told apart by its name
and by its addresses, and lies in a region that is held. -/
structure Sound (A : Nat) (a : Arena ι) : Prop where
  heldApart : a.held.Pairwise Apart
  outApart : a.out.Pairwise fun e f => Apart e.2 f.2
  inside : ∀ e ∈ a.out, 0 < e.2.2 → ∃ s ∈ a.held, Within e.2 s
  aligned : ∀ e ∈ a.out, A ∣ e.2.1
  named : (a.out.map Prod.fst).Nodup

theorem Sound.empty : Sound A (empty : Arena ι) where
  heldApart := .nil
  outApart := .nil
  inside _ h := nomatch h
  aligned _ h := nomatch h
  named := .nil

theorem Sound.step (h : Sound A a) (hstep : Step A a b) : Sound A b := by
  cases hstep with
  | obtained apart =>
      refine ⟨.cons apart h.heldApart, h.outApart, ?_, h.aligned, h.named⟩
      intro e he hpos
      obtain ⟨s, hs, hwithin⟩ := h.inside e he hpos
      exact ⟨s, List.mem_cons_of_mem _ hs, hwithin⟩
  | @returned r has unused =>
      refine ⟨h.heldApart.sublist List.erase_sublist, h.outApart, ?_, h.aligned, h.named⟩
      intro e he hpos
      obtain ⟨s, hs, hwithin⟩ := h.inside e he hpos
      -- the region it lies in is not the one that is returned
      have hfirst : Has e.2 e.2.1 := ⟨Nat.le_refl _, by omega⟩
      have hne : s ≠ r := by
        intro heq
        subst heq
        exact unused e he e.2.1 hfirst (hwithin.has hfirst)
      exact ⟨s, (List.mem_erase_of_ne hne).mpr hs, hwithin⟩
  | handedOut fresh has within aligned apart =>
      refine ⟨h.heldApart, .cons apart h.outApart, ?_, ?_, List.nodup_cons.mpr ⟨fresh, h.named⟩⟩
      · intro e he hpos
        rcases List.mem_cons.mp he with rfl | he
        · exact ⟨_, has, within⟩
        · exact h.inside e he hpos
      · intro e he
        rcases List.mem_cons.mp he with rfl | he
        · exact aligned
        · exact h.aligned e he
  | @givenBack before after e has =>
      have hsub : (before ++ after).Sublist a.out := by simp [has]
      refine ⟨h.heldApart, h.outApart.sublist hsub, ?_, ?_, h.named.sublist (hsub.map _)⟩
      · exact fun f hf => h.inside f (hsub.subset hf)
      · exact fun f hf => h.aligned f (hsub.subset hf)

theorem Sound.run (h : Sound A a) (hrun : ReflTransGen (Step A) a b) : Sound A b := by
  refine Runs.invariant (fun c d hc hcd => ?_) hrun h
  exact hc.step hcd

end Arena
