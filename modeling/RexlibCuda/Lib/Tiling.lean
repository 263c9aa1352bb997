import Mathlib.Algebra.GroupWithZero.Nat
import Mathlib.Data.List.Nodup

/-! Spaces cut into consecutive extents. `Run` is one space covered from one
position to another, `Tiles` a list of spaces covered one after the other in
a single list of extents. Cutting an extent, joining two neighbours, adding a
space and taking one away all keep a tiling. -/

namespace Tiling

variable {η : Type}

/-- `size` positions of `space` from `offset` on. -/
structure Extent (η : Type) where
  space : η
  offset : Nat
  size : Nat

/-- The position `x` of the space lies in the extent. -/
def Extent.Has (e : Extent η) (x : Nat) : Prop :=
  e.offset ≤ x ∧ x < e.offset + e.size

/-- The extents follow each other in `h` from `a` to `z`. -/
def Run (h : η) : Nat → List (Extent η) → Nat → Prop
  | a, [], z => a = z
  | a, e :: es, z => e.space = h ∧ e.offset = a ∧ Run h (a + e.size) es z

/-- The spaces `hs`, of the given sizes, are covered one after the other. -/
def Tiles (size : η → Nat) : List η → List (Extent η) → Prop
  | [], es => es = []
  | h :: hs, es =>
      ∃ run rest, es = run ++ rest ∧ Run h 0 run (size h) ∧ Tiles size hs rest

section Run

variable {h : η} {a z : Nat} {e e' : Extent η} {l r es : List (Extent η)}

theorem run_append :
    Run h a (l ++ r) z ↔ ∃ m, Run h a l m ∧ Run h m r z := by
  induction l generalizing a with
  | nil => simp [Run]
  | cons e l ih =>
      simp only [List.cons_append, Run, ih]
      constructor
      · rintro ⟨hs, ho, m, hl, hr⟩
        exact ⟨m, ⟨hs, ho, hl⟩, hr⟩
      · rintro ⟨m, ⟨hs, ho, hl⟩, hr⟩
        exact ⟨hs, ho, m, hl, hr⟩

theorem Run.le (hr : Run h a es z) : a ≤ z := by
  induction es generalizing a with
  | nil => exact Nat.le_of_eq hr
  | cons e es ih => exact Nat.le_trans (Nat.le_add_right _ _) (ih hr.2.2)

/-- Every extent of a run lies between its ends. -/
theorem Run.mem (hr : Run h a es z) (he : e ∈ es) :
    e.space = h ∧ a ≤ e.offset ∧ e.offset + e.size ≤ z := by
  induction es generalizing a with
  | nil => cases he
  | cons x es ih =>
      obtain ⟨hs, ho, hr⟩ := hr
      rcases List.mem_cons.mp he with rfl | he
      · exact ⟨hs, Nat.le_of_eq ho.symm, by rw [ho]; exact hr.le⟩
      · obtain ⟨hs', ho', hz⟩ := ih hr he
        exact ⟨hs', by omega, hz⟩

/-- The part of a run at one extent. -/
theorem Run.at (hr : Run h a (l ++ e :: r) z) :
    e.space = h ∧ Run h a l e.offset ∧ Run h (e.offset + e.size) r z := by
  obtain ⟨m, hl, hs, ho, hr⟩ := run_append.mp hr
  subst ho
  exact ⟨hs, hl, hr⟩

/-- Every position between the ends lies in an extent of the run. -/
theorem Run.cover (hr : Run h a es z) {x : Nat} (hx : a ≤ x) (hz : x < z) :
    ∃ e ∈ es, e.Has x := by
  induction es generalizing a with
  | nil => simp only [Run] at hr; omega
  | cons e es ih =>
      obtain ⟨-, ho, hr⟩ := hr
      by_cases hlt : x < a + e.size
      · exact ⟨e, by simp, by simp only [Extent.Has]; omega⟩
      · obtain ⟨e', he', hx'⟩ := ih hr (by omega)
        exact ⟨e', by simp [he'], hx'⟩

end Run

section Tiles

variable {size size' : η → Nat} {hs : List η} {h : η} {e e₁ e₂ : Extent η}
  {l r es : List (Extent η)}

theorem Tiles.congr (ht : Tiles size hs es) (hsize : ∀ h ∈ hs, size h = size' h) :
    Tiles size' hs es := by
  induction hs generalizing es with
  | nil => exact ht
  | cons h hs ih =>
      obtain ⟨run, rest, rfl, hrun, hrest⟩ := ht
      exact ⟨run, rest, rfl, hsize h (by simp) ▸ hrun,
        ih hrest fun g hg => hsize g (by simp [hg])⟩

theorem tiles_append {hs hs' : List η} :
    Tiles size (hs ++ hs') es
      ↔ ∃ l r, es = l ++ r ∧ Tiles size hs l ∧ Tiles size hs' r := by
  induction hs generalizing es with
  | nil => simp [Tiles]
  | cons h hs ih =>
      simp only [List.cons_append, Tiles, ih]
      constructor
      · rintro ⟨run, -, rfl, hrun, l, r, rfl, hl, hr⟩
        exact ⟨run ++ l, r, by simp, ⟨run, l, rfl, hrun, hl⟩, hr⟩
      · rintro ⟨-, r, rfl, ⟨run, l, rfl, hrun, hl⟩, hr⟩
        exact ⟨run, l ++ r, by simp, hrun, l, r, rfl, hl, hr⟩

/-- A space and its own run, in a longer tiling. -/
theorem tiles_middle {hs₁ hs₂ : List η} :
    Tiles size (hs₁ ++ h :: hs₂) es
      ↔ ∃ l run r, es = l ++ (run ++ r) ∧ Tiles size hs₁ l
          ∧ Run h 0 run (size h) ∧ Tiles size hs₂ r := by
  rw [tiles_append]
  constructor
  · rintro ⟨l, -, rfl, hl, run, r, rfl, hrun, hr⟩
    exact ⟨l, run, r, rfl, hl, hrun, hr⟩
  · rintro ⟨l, run, r, rfl, hl, hrun, hr⟩
    exact ⟨l, run ++ r, rfl, hl, run, r, rfl, hrun, hr⟩

/-- The space an extent is cut from, with what stands around the extent
there and elsewhere. -/
theorem Tiles.at (ht : Tiles size hs (l ++ e :: r)) :
    ∃ hs₁ hs₂ l₁ l₂ r₁ r₂, hs = hs₁ ++ e.space :: hs₂ ∧ l = l₁ ++ l₂ ∧ r = r₁ ++ r₂
      ∧ Tiles size hs₁ l₁ ∧ Run e.space 0 (l₂ ++ e :: r₁) (size e.space)
      ∧ Tiles size hs₂ r₂ := by
  induction hs generalizing l with
  | nil => simp [Tiles] at ht
  | cons h hs ih =>
      obtain ⟨run, rest, heq, hrun, hrest⟩ := ht
      rcases List.append_eq_append_iff.mp heq with ⟨m, rfl, hm⟩ | ⟨m, rfl, hm⟩
      · rcases m with _ | ⟨x, m⟩
        · -- the run ends right before `e`
          simp only [List.nil_append] at hm
          subst hm
          obtain ⟨hs₁, hs₂, l₁, l₂, r₁, r₂, rfl, hl, rfl, h₁, hr, h₂⟩ := ih (l := []) hrest
          obtain ⟨rfl, rfl⟩ := List.append_eq_nil_iff.mp hl.symm
          refine ⟨h :: hs₁, hs₂, l, [], r₁, r₂, rfl, by simp, rfl, ?_, hr, h₂⟩
          exact ⟨l, [], by simp, by simpa using hrun, h₁⟩
        · -- `e` is in the run
          simp only [List.cons_append, List.cons.injEq] at hm
          obtain ⟨rfl, rfl⟩ := hm
          obtain ⟨rfl, -⟩ := (Run.at hrun).imp_right fun _ => trivial
          exact ⟨[], hs, [], l, m, rest, rfl, rfl, rfl, rfl, hrun, hrest⟩
      · -- `e` comes after the run
        subst hm
        obtain ⟨hs₁, hs₂, l₁, l₂, r₁, r₂, rfl, rfl, rfl, h₁, hr, h₂⟩ := ih hrest
        exact ⟨h :: hs₁, hs₂, run ++ l₁, l₂, r₁, r₂, rfl, by simp, rfl,
          ⟨run, l₁, rfl, hrun, h₁⟩, hr, h₂⟩

/-- Every extent is cut from one of the spaces and stays inside it. -/
theorem Tiles.mem (ht : Tiles size hs es) (he : e ∈ es) :
    e.space ∈ hs ∧ e.offset + e.size ≤ size e.space := by
  obtain ⟨l, r, rfl⟩ := List.append_of_mem he
  obtain ⟨hs₁, hs₂, l₁, l₂, r₁, r₂, rfl, rfl, rfl, -, hr, -⟩ := ht.at
  exact ⟨by simp, (hr.mem (by simp)).2.2⟩

/-- Of two extents of one space, the second starts where the first ends or
further on. -/
theorem Tiles.apart {m : List (Extent η)} (ht : Tiles size hs (l ++ e₁ :: (m ++ e₂ :: r)))
    (hnd : hs.Nodup) (hsp : e₁.space = e₂.space) : e₁.offset + e₁.size ≤ e₂.offset := by
  obtain ⟨hs₁, hs₂, l₁, l₂, r₁, r₂, rfl, rfl, hr, -, hrun, h₂⟩ := ht.at
  have hmem : e₂ ∈ r₁ ++ r₂ := by simp [← hr]
  rcases List.mem_append.mp hmem with hmem | hmem
  · exact (hrun.at.2.2.mem hmem).2.1
  · -- the second extent would be cut from a later space
    have hspace := (h₂.mem hmem).1
    rw [← hsp] at hspace
    rw [List.nodup_append, List.nodup_cons] at hnd
    exact absurd hspace hnd.2.1.1

/-- Every position of a space lies in an extent cut from it. -/
theorem Tiles.cover (ht : Tiles size hs es) (hh : h ∈ hs) {x : Nat}
    (hx : x < size h) : ∃ e ∈ es, e.space = h ∧ e.Has x := by
  obtain ⟨hs₁, hs₂, rfl⟩ := List.append_of_mem hh
  obtain ⟨l, run, r, rfl, -, hrun, -⟩ := tiles_middle.mp ht
  obtain ⟨e, he, hx⟩ := hrun.cover (Nat.zero_le x) hx
  exact ⟨e, by simp [he], (hrun.mem he).1, hx⟩

/-- Right after an extent that does not end its space comes another one of it. -/
theorem Tiles.next (ht : Tiles size hs (l ++ e :: r))
    (hlt : e.offset + e.size < size e.space) :
    ∃ e' r', r = e' :: r' ∧ e'.space = e.space ∧ e'.offset = e.offset + e.size := by
  obtain ⟨hs₁, hs₂, l₁, l₂, r₁, r₂, rfl, rfl, rfl, -, hrun, -⟩ := ht.at
  have hrun := hrun.at.2.2
  cases r₁ with
  | nil => exact absurd hrun (Nat.ne_of_lt hlt)
  | cons e' r₁ => exact ⟨e', r₁ ++ r₂, rfl, hrun.1, hrun.2.1⟩

/-- The extents of a run add up to its length. -/
theorem Run.sum {a z : Nat} (hr : Run h a es z) : a + (es.map (·.size)).sum = z := by
  induction es generalizing a with
  | nil => simpa [Run] using hr
  | cons e es ih =>
      have hsum := ih hr.2.2
      rw [List.map_cons, List.sum_cons]
      omega

/-- The extents of a tiling add up to the spaces. -/
theorem Tiles.sum (ht : Tiles size hs es) : (es.map (·.size)).sum = (hs.map size).sum := by
  induction hs generalizing es with
  | nil =>
      rw [Tiles] at ht
      simp [ht]
  | cons h hs ih =>
      obtain ⟨run, rest, rfl, hrun, hrest⟩ := ht
      have hsum := hrun.sum
      rw [List.map_append, List.sum_append, List.map_cons, List.sum_cons, ih hrest]
      omega

/-- Cutting an extent in two. -/
theorem Tiles.cut (ht : Tiles size hs (l ++ e :: r)) {m n : Nat} (hmn : m + n = e.size) :
    Tiles size hs
      (l ++ ⟨e.space, e.offset, m⟩ :: ⟨e.space, e.offset + m, n⟩ :: r) := by
  obtain ⟨hs₁, hs₂, l₁, l₂, r₁, r₂, rfl, rfl, rfl, h₁, hr, h₂⟩ := ht.at
  obtain ⟨-, hl, hr⟩ := hr.at
  refine tiles_middle.mpr ⟨l₁, l₂ ++ ⟨e.space, e.offset, m⟩ ::
    ⟨e.space, e.offset + m, n⟩ :: r₁, r₂, by simp, h₁, ?_, h₂⟩
  refine run_append.mpr ⟨_, hl, rfl, rfl, rfl, rfl, ?_⟩
  rwa [Nat.add_assoc, hmn]

/-- Joining two neighbours cut from one space. -/
theorem Tiles.join (ht : Tiles size hs (l ++ e₁ :: e₂ :: r)) (hnd : hs.Nodup)
    (hsp : e₁.space = e₂.space) :
    e₂.offset = e₁.offset + e₁.size
      ∧ Tiles size hs (l ++ ⟨e₁.space, e₁.offset, e₁.size + e₂.size⟩ :: r) := by
  obtain ⟨hs₁, hs₂, l₁, l₂, r₁, r₂, rfl, rfl, hr, h₁, hrun, h₂⟩ := ht.at
  rcases r₁ with _ | ⟨x, r₁⟩
  · -- the second extent would be cut from a later space
    simp only [List.nil_append] at hr
    subst hr
    have hmem := (h₂.mem (e := e₂) (by simp)).1
    rw [← hsp] at hmem
    rw [List.nodup_append, List.nodup_cons] at hnd
    exact absurd hmem hnd.2.1.1
  · simp only [List.cons_append, List.cons.injEq] at hr
    obtain ⟨rfl, rfl⟩ := hr
    obtain ⟨-, hl, -, ho, hr⟩ := hrun.at
    refine ⟨ho, tiles_middle.mpr ⟨l₁, l₂ ++ ⟨e₁.space, e₁.offset, e₁.size + e₂.size⟩ :: r₁,
      r₂, by simp, h₁, ?_, h₂⟩⟩
    exact run_append.mpr ⟨_, hl, rfl, rfl, by rwa [← Nat.add_assoc]⟩

/-- A new space in one piece. -/
theorem Tiles.push (ht : Tiles size hs es) (h : η) :
    Tiles size (hs ++ [h]) (es ++ [⟨h, 0, size h⟩]) :=
  tiles_append.mpr ⟨es, _, rfl, ht, [⟨h, 0, size h⟩], [], by simp,
    ⟨rfl, rfl, by simp [Run]⟩, rfl⟩

/-- An extent with no neighbour of its own space is that whole space, and
taking both away leaves a tiling of the others. -/
theorem Tiles.remove [DecidableEq η] (ht : Tiles size hs (l ++ e :: r)) (hnd : hs.Nodup)
    (hprev : ∀ x ∈ l.getLast?, x.space ≠ e.space)
    (hnext : ∀ x ∈ r.head?, x.space ≠ e.space) :
    e.offset = 0 ∧ e.size = size e.space ∧ (∀ x ∈ l ++ r, x.space ≠ e.space)
      ∧ (∀ x ∈ l, ∀ y ∈ r, x.space ≠ y.space)
      ∧ Tiles size (hs.erase e.space) (l ++ r) := by
  obtain ⟨hs₁, hs₂, l₁, l₂, r₁, r₂, rfl, rfl, rfl, h₁, hrun, h₂⟩ := ht.at
  have hr₁ : r₁ = [] := by
    rcases r₁ with _ | ⟨x, r₁⟩
    · rfl
    · exact absurd (hrun.mem (e := x) (by simp)).1 (hnext x (by simp))
  have hl₂ : l₂ = [] := by
    rcases List.eq_nil_or_concat l₂ with rfl | ⟨l₂, x, rfl⟩
    · rfl
    · exact absurd (hrun.mem (e := x) (by simp)).1 (hprev x (by simp))
  subst hr₁ hl₂
  simp only [List.append_nil, List.nil_append] at hrun ⊢
  obtain ⟨-, ho, hz⟩ := hrun
  simp only [Run] at hz
  have hnd' := List.nodup_middle.mp hnd
  rw [List.nodup_cons, List.mem_append, not_or] at hnd'
  refine ⟨ho, by omega, fun x hx hxs => ?_, fun x hx y hy hxy => ?_, ?_⟩
  · -- the other extents are cut from the other spaces
    rcases List.mem_append.mp hx with hx | hx
    · exact hnd'.1.1 (hxs ▸ (h₁.mem hx).1)
    · exact hnd'.1.2 (hxs ▸ (h₂.mem hx).1)
  · have hdisj := (List.nodup_append.mp hnd'.2).2.2
    exact hdisj _ (h₁.mem hx).1 _ (h₂.mem hy).1 hxy
  · rw [List.erase_append_right _ hnd'.1.1, List.erase_cons_head]
    exact tiles_append.mpr ⟨l₁, r₂, rfl, h₁, h₂⟩

end Tiles

end Tiling
