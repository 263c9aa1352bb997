import Mathlib.Data.List.Nodup
import RexlibCuda.StreamTimeline

/-! Who has which ticket. Tickets are handed out again once they are given back,
so the same one stands for different points over time; what keeps that safe is
that never more than one party has it. -/

namespace RexlibCuda

variable {σ : Type}

/-- The recorder and the timelines never have one ticket twice. -/
structure Owned (r : PooledEventRecorder σ) (points : Timeline → List Ticket) : Prop where
  once : r.available.Nodup
  pooled : ∀ x ∈ r.available, 0 < x ∧ x ≤ r.events
  distinct : ∀ t, (points t).Nodup
  held : ∀ t, ∀ x ∈ points t, 0 < x ∧ x ≤ r.events ∧ x ∉ r.available
  apart : ∀ t t' x, x ∈ points t → x ∈ points t' → t = t'
  room : r.events ≤ r.reserved

/-- Whoever asked for the ticket is the only one that has it. -/
structure Free (x : Ticket) (r : PooledEventRecorder σ) (points : Timeline → List Ticket) :
    Prop where
  made : 0 < x ∧ x ≤ r.events
  pool : x ∉ r.available
  timelines : ∀ t, x ∉ points t

section Owned

variable {r : PooledEventRecorder σ} {points : Timeline → List Ticket} {t : Timeline} {x : Ticket}
  {rest : List Ticket}

theorem Owned.empty : Owned (σ := σ) ⟨0, [], 0, fun _ => none⟩ fun _ => [] where
  once := List.nodup_nil
  pooled x hx := by simp at hx
  distinct t := List.nodup_nil
  held t x hx := by simp at hx
  apart t t' x hx := by simp at hx
  room := Nat.le_refl 0

theorem Owned.take (h : Owned r points) (hx : r.available = x :: rest) :
    Owned { r with available := rest } points ∧ Free x { r with available := rest } points := by
  have honce := h.once
  have hpooled := h.pooled
  rw [hx] at honce hpooled
  have hnot := (List.nodup_cons.mp honce).1
  constructor
  · exact {
      once := (List.nodup_cons.mp honce).2
      pooled := fun y hy => hpooled y (List.mem_cons_of_mem _ hy)
      distinct := h.distinct
      held := by
        intro t y hy
        obtain ⟨hpos, hle, hnot⟩ := h.held t y hy
        exact ⟨hpos, hle, fun hmem => hnot (hx ▸ List.mem_cons_of_mem _ hmem)⟩
      apart := h.apart
      room := h.room }
  · exact {
      made := hpooled x (List.mem_cons_self ..)
      pool := hnot
      timelines := fun t hmem => (h.held t x hmem).2.2 (hx ▸ List.mem_cons_self ..) }

/-- An event is made for a ticket nobody has had. -/
theorem Owned.create (h : Owned r points) {reserved : Nat} (hroom : r.events + 1 ≤ reserved) :
    Owned { r with events := r.events + 1, reserved } points
      ∧ Free (r.events + 1) { r with events := r.events + 1, reserved } points := by
  constructor
  · exact {
      once := h.once
      pooled := fun y hy => ⟨(h.pooled y hy).1, Nat.le_succ_of_le (h.pooled y hy).2⟩
      distinct := h.distinct
      held := fun t y hy =>
        ⟨(h.held t y hy).1, Nat.le_succ_of_le (h.held t y hy).2.1, (h.held t y hy).2.2⟩
      apart := h.apart
      room := hroom }
  · exact {
      made := ⟨Nat.succ_pos _, Nat.le_refl _⟩
      pool := fun hmem => absurd (h.pooled _ hmem).2 (Nat.not_succ_le_self _)
      timelines := fun t hmem => absurd (h.held t _ hmem).2.1 (Nat.not_succ_le_self _) }

theorem Owned.release (h : Owned r points) (hx : Free x r points) :
    Owned { r with available := x :: r.available } points where
  once := List.nodup_cons.mpr ⟨hx.pool, h.once⟩
  pooled := by
    intro y hy
    rcases List.mem_cons.mp hy with rfl | hy
    · exact hx.made
    · exact h.pooled y hy
  distinct := h.distinct
  held := by
    intro t y hy
    obtain ⟨hpos, hle, hnot⟩ := h.held t y hy
    refine ⟨hpos, hle, fun hmem => ?_⟩
    rcases List.mem_cons.mp hmem with rfl | hmem
    · exact hx.timelines t hy
    · exact hnot hmem
  apart := h.apart
  room := h.room

theorem Owned.push (h : Owned r points) (hx : Free x r points) (t : Timeline) :
    Owned r (Function.update points t (points t ++ [x])) := by
  have hmem : ∀ t' y, y ∈ Function.update points t (points t ++ [x]) t' →
      y ∈ points t' ∨ t' = t ∧ y = x := by
    intro t' y hy
    by_cases ht : t' = t
    · subst ht
      simpa using hy
    · exact .inl (by simpa [ht] using hy)
  exact {
    once := h.once
    pooled := h.pooled
    distinct := by
      intro t'
      by_cases ht : t' = t
      · subst ht
        rw [Function.update_self]
        exact List.nodup_append.mpr ⟨h.distinct t', List.nodup_singleton x, by
          intro y hy z hz
          rw [List.mem_singleton.mp hz]
          exact fun heq => hx.timelines t' (heq ▸ hy)⟩
      · rw [Function.update_of_ne ht]
        exact h.distinct t'
    held := by
      intro t' y hy
      rcases hmem t' y hy with hy | ⟨-, rfl⟩
      · exact h.held t' y hy
      · exact ⟨hx.made.1, hx.made.2, hx.pool⟩
    apart := by
      -- the new ticket is in no other timeline
      intro t₁ t₂ y h₁ h₂
      rcases hmem t₁ y h₁ with h₁ | ⟨ht₁, hy₁⟩
      · rcases hmem t₂ y h₂ with h₂ | ⟨-, hy₂⟩
        · exact h.apart t₁ t₂ y h₁ h₂
        · exact absurd (hy₂ ▸ h₁) (hx.timelines t₁)
      · rcases hmem t₂ y h₂ with h₂ | ⟨ht₂, -⟩
        · exact absurd (hy₁ ▸ h₂) (hx.timelines t₂)
        · rw [ht₁, ht₂]
    room := h.room }

/-- A timeline lets go of its oldest point. -/
theorem Owned.pop (h : Owned r points) (hx : points t = x :: rest) :
    Owned r (Function.update points t rest) ∧ Free x r (Function.update points t rest) := by
  have hmem : ∀ t' y, y ∈ Function.update points t rest t' → y ∈ points t' := by
    intro t' y hy
    by_cases ht : t' = t
    · subst ht
      rw [Function.update_self] at hy
      exact hx ▸ List.mem_cons_of_mem _ hy
    · rwa [Function.update_of_ne ht] at hy
  have hhead : x ∈ points t := hx ▸ List.mem_cons_self ..
  have hdistinct := h.distinct t
  rw [hx] at hdistinct
  constructor
  · exact {
      once := h.once
      pooled := h.pooled
      distinct := by
        intro t'
        by_cases ht : t' = t
        · subst ht
          rw [Function.update_self]
          exact (List.nodup_cons.mp hdistinct).2
        · rw [Function.update_of_ne ht]
          exact h.distinct t'
      held := fun t' y hy => h.held t' y (hmem t' y hy)
      apart := fun t₁ t₂ y h₁ h₂ => h.apart t₁ t₂ y (hmem t₁ y h₁) (hmem t₂ y h₂)
      room := h.room }
  · exact {
      made := ⟨(h.held t x hhead).1, (h.held t x hhead).2.1⟩
      pool := (h.held t x hhead).2.2
      timelines := by
        intro t' hx'
        by_cases ht : t' = t
        · subst ht
          rw [Function.update_self] at hx'
          exact (List.nodup_cons.mp hdistinct).1 hx'
        · exact ht (h.apart t' t x (hmem t' x hx') hhead) }

/-- A timeline gives all of its points back. -/
theorem Owned.clear (h : Owned r points) (t : Timeline) :
    Owned { r with available := (points t).reverse ++ r.available }
      (Function.update points t []) := by
  have hmem : ∀ t' y, y ∈ Function.update points t [] t' → t' ≠ t ∧ y ∈ points t' := by
    intro t' y hy
    by_cases ht : t' = t
    · subst ht
      simp at hy
    · exact ⟨ht, by simpa [ht] using hy⟩
  exact {
    once := by
      rw [List.nodup_append]
      refine ⟨List.nodup_reverse.mpr (h.distinct t), h.once, ?_⟩
      intro x hx y hy heq
      exact (h.held t x (List.mem_reverse.mp hx)).2.2 (heq ▸ hy)
    pooled := by
      intro x hx
      rcases List.mem_append.mp hx with hx | hx
      · have hx := h.held t x (List.mem_reverse.mp hx)
        exact ⟨hx.1, hx.2.1⟩
      · exact h.pooled x hx
    distinct := by
      intro t'
      by_cases ht : t' = t
      · subst ht
        simp
      · simpa [ht] using h.distinct t'
    held := by
      intro t' y hy
      obtain ⟨ht, hy⟩ := hmem t' y hy
      obtain ⟨hpos, hle, hnot⟩ := h.held t' y hy
      refine ⟨hpos, hle, fun hmem => ?_⟩
      rcases List.mem_append.mp hmem with hmem | hmem
      · exact ht (h.apart t' t y hy (List.mem_reverse.mp hmem))
      · exact hnot hmem
    apart := fun t₁ t₂ y h₁ h₂ => h.apart t₁ t₂ y (hmem t₁ y h₁).2 (hmem t₂ y h₂).2
    room := h.room }

end Owned

end RexlibCuda
