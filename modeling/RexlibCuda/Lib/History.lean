import RexlibCuda.Lib.Completion

/-! Clocks that are read off a history: what was known to have finished at each
moment of it. Whatever is known of a command is known of the earlier ones of
its timeline as well. -/

namespace Completion

variable {τ : Type}

/-- The clock of a history in which nothing that was done is undone. -/
def Clock.ofHistory (done : Nat → Command τ → Prop)
    (rising : ∀ n c, done n c → done (n + 1) c) : Clock τ where
  finished n c := ∃ d, done n d ∧ d.timeline = c.timeline ∧ c.id ≤ d.id
  stays := by
    intro m n c hmn h
    induction hmn with
    | refl => exact h
    | step _ ih =>
        obtain ⟨d, hd, hc⟩ := ih
        exact ⟨d, rising _ d hd, hc⟩
  inOrder := by
    intro n c d ⟨e, he, htl, hid⟩ ht hcd
    exact ⟨e, he, htl.trans ht, Nat.le_trans hcd hid⟩

variable {done : Nat → Command τ → Prop} {rising : ∀ n c, done n c → done (n + 1) c} {n : Nat}
  {c : Command τ}

theorem Clock.ofHistory_iff : Complete (.ofHistory done rising) n c ↔
    ∃ d, done n d ∧ d.timeline = c.timeline ∧ c.id ≤ d.id := Iff.rfl

theorem Clock.ofHistory_done (h : done n c) : Complete (.ofHistory done rising) n c :=
  ⟨c, h, rfl, Nat.le_refl _⟩

/-- The clock says no less than was known, up to a moment. -/
def Clock.Agrees (k : Clock τ) (done : Nat → Command τ → Prop) (last : Nat) : Prop :=
  ∀ n ≤ last, ∀ c, done n c → Complete k n c

theorem Clock.agrees_ofHistory (last : Nat) :
    (Clock.ofHistory done rising).Agrees done last :=
  fun _ _ _ h => ofHistory_done h

/-- It agrees with histories that know less, over a shorter time. -/
theorem Clock.Agrees.of_le {k : Clock τ} {done' : Nat → Command τ → Prop} {last last' : Nat}
    (h : k.Agrees done last) (hle : last' ≤ last)
    (hdone : ∀ n ≤ last', ∀ c, done' n c → done n c) : k.Agrees done' last' :=
  fun n hn c hc => h n (Nat.le_trans hn hle) c (hdone n hn c hc)

end Completion
