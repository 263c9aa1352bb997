import Mathlib.Logic.Relation

/-! Runs of a step relation: what every step keeps holds all along, what every
step makes smaller brings them to an end, and a simulation carries the runs of
one system over to another. -/

namespace Runs

open Relation (ReflTransGen)

variable {σ τ : Type} {R : σ → σ → Prop} {R' : τ → τ → Prop}

/-- What holds at the start and is kept by every step holds at the end. -/
theorem invariant {I : σ → Prop} (hstep : ∀ s t, I s → R s t → I t) {s t : σ}
    (hrun : ReflTransGen R s t) (hs : I s) : I t := by
  induction hrun with
  | refl => exact hs
  | tail _ hst ih => exact hstep _ _ ih hst

/-- What every step relates, transitively, a run relates. -/
theorem relation {P : σ → σ → Prop} (hrefl : ∀ s, P s s)
    (htrans : ∀ s t u, P s t → P t u → P s u) (hstep : ∀ s t, R s t → P s t) {s t : σ}
    (hrun : ReflTransGen R s t) : P s t := by
  induction hrun with
  | refl => exact hrefl s
  | tail _ hst ih => exact htrans _ _ _ ih (hstep _ _ hst)

/-- A run to somewhere may begin with a step. -/
theorem exists_head {P : σ → Prop} {s t : σ} (hst : R s t) (h : ∃ u, ReflTransGen R t u ∧ P u) :
    ∃ u, ReflTransGen R s u ∧ P u := by
  obtain ⟨u, htu, hu⟩ := h
  exact ⟨u, .head hst htu, hu⟩

/-- Where every step makes a measure smaller, no run goes on forever. -/
theorem ends {I : σ → Prop} {size : σ → Nat} (hstep : ∀ s t, I s → R s t → I t ∧ size t < size s)
    {s : σ} (hs : I s) : Acc (fun t s => R s t) s := by
  generalize hn : size s = n
  induction n using Nat.strongRecOn generalizing s with
  | ind n ih =>
      apply Acc.intro
      intro t hst
      obtain ⟨ht, hlt⟩ := hstep s t hs hst
      exact ih (size t) (hn ▸ hlt) ht rfl

/-- A run that cannot go on forever comes to where there is no step. -/
theorem exists_end {s : σ} (h : Acc (fun t s => R s t) s) :
    ∃ t, ReflTransGen R s t ∧ ∀ u, ¬ R t u := by
  induction h with
  | intro s _ ih =>
      by_cases hstep : ∃ t, R s t
      · obtain ⟨t, hst⟩ := hstep
        obtain ⟨u, htu, hend⟩ := ih t hst
        exact ⟨u, .head hst htu, hend⟩
      · exact ⟨s, .refl, fun u hu => hstep ⟨u, hu⟩⟩

/-- A simulation: each step of the one system is answered by a run of the
other that ends in a related state. -/
def Simulates (S : σ → τ → Prop) (R : σ → σ → Prop) (R' : τ → τ → Prop) : Prop :=
  ∀ s t a, S s a → R s t → ∃ b, ReflTransGen R' a b ∧ S t b

theorem Simulates.run {S : σ → τ → Prop} (h : Simulates S R R') {s t : σ} {a : τ}
    (hrun : ReflTransGen R s t) (hs : S s a) :
    ∃ b, ReflTransGen R' a b ∧ S t b := by
  induction hrun with
  | refl => exact ⟨a, .refl, hs⟩
  | tail _ hst ih =>
      obtain ⟨b, hab, hb⟩ := ih
      obtain ⟨c, hbc, hc⟩ := h _ _ _ hb hst
      exact ⟨c, hab.trans hbc, hc⟩

end Runs
