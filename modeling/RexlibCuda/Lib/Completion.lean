import Mathlib.Data.List.Nodup

/-! Timelines that finish their commands in the order of their ids, and what
has to be waited for. A token names at most one command. A set of tokens
covers a command once waiting for all of them is enough for it: some token is
of its timeline and not earlier, or it has finished by itself. -/

namespace Completion

variable {τ : Type}

/-- A command of a timeline. Ids grow in the order of submission. -/
structure Command (τ : Type) where
  timeline : τ
  id : Nat
deriving DecidableEq, Repr

/-- A token stands for a command, or for nothing. -/
abbrev Token (τ : Type) := Option (Command τ)

/-- Which commands have finished at each moment. Commands stay finished, and
those of a timeline finish in the order of their ids. -/
structure Clock (τ : Type) where
  finished : Nat → Command τ → Prop
  stays : ∀ {m n : Nat} {c : Command τ}, m ≤ n → finished m c → finished n c
  inOrder : ∀ {n : Nat} {c d : Command τ}, finished n d → d.timeline = c.timeline →
    c.id ≤ d.id → finished n c

/-- The clock of a system whose commands take no time. -/
def Clock.always (τ : Type) : Clock τ where
  finished _ _ := True
  stays _ _ := trivial
  inOrder _ _ _ := trivial

/-- The command has finished at moment `n`. -/
def Complete (k : Clock τ) (n : Nat) (c : Command τ) : Prop := k.finished n c

/-- Waiting for the token is waiting for the command. -/
def Covers (t : Token τ) (c : Command τ) : Prop :=
  ∃ d ∈ t, d.timeline = c.timeline ∧ c.id ≤ d.id

/-- Waiting for all the tokens is waiting for the command. -/
def Covered (k : Clock τ) (n : Nat) (ts : List (Token τ)) (c : Command τ) : Prop :=
  Complete k n c ∨ ∃ t ∈ ts, Covers t c

variable {k : Clock τ} {m n : Nat} {c d : Command τ} {t : Token τ} {ts us : List (Token τ)}

theorem Complete.mono (h : Complete k m c) (hmn : m ≤ n) : Complete k n c :=
  k.stays hmn h

/-- A command has finished once a later one of its timeline has. -/
theorem Complete.earlier (h : Complete k n d) (ht : d.timeline = c.timeline)
    (hid : c.id ≤ d.id) : Complete k n c :=
  k.inOrder h ht hid

theorem Covers.self (c : Command τ) : Covers (some c) c :=
  ⟨c, rfl, rfl, Nat.le_refl _⟩

theorem not_covers_none : ¬ Covers none c := by
  rintro ⟨_, h, _⟩
  cases h

theorem Covers.complete (h : Covers t c) (hd : ∀ d ∈ t, Complete k n d) :
    Complete k n c := by
  obtain ⟨d, hdt, ht, hid⟩ := h
  exact (hd d hdt).earlier ht hid

theorem Covered.mono (h : Covered k m ts c) (hmn : m ≤ n) : Covered k n ts c :=
  h.imp_left (·.mono hmn)

theorem Covered.of_mem (h : t ∈ ts) (hc : Covers t c) : Covered k n ts c :=
  .inr ⟨t, h, hc⟩

/-- Tokens may be exchanged for others that cover the commands they name. -/
theorem Covered.exchange (h : Covered k n ts c)
    (hts : ∀ t ∈ ts, ∀ d ∈ t, Covered k n us d) : Covered k n us c := by
  rcases h with h | ⟨t, ht, d, hd, htl, hid⟩
  · exact .inl h
  · rcases hts t ht d hd with hc | ⟨u, hu, e, he, htl', hid'⟩
    · exact .inl (hc.earlier htl hid)
    · exact .inr ⟨u, hu, e, he, htl'.trans htl, Nat.le_trans hid hid'⟩

theorem Covered.subset (h : Covered k n ts c) (hts : ∀ t ∈ ts, t ∈ us) :
    Covered k n us c :=
  h.exchange fun t ht d hd => .inr ⟨t, hts t ht, hd ▸ Covers.self d⟩

/-- Once every command the tokens name has finished, so has what they cover. -/
theorem Covered.complete (h : Covered k n ts c)
    (hts : ∀ t ∈ ts, ∀ d ∈ t, Complete k n d) : Complete k n c := by
  rcases h with h | ⟨t, ht, hc⟩
  · exact h
  · exact hc.complete (hts t ht)

theorem covered_none : Covered k n [none] c ↔ Complete k n c := by
  refine ⟨fun h => h.complete ?_, .inl⟩
  intro t ht d hd
  rw [List.mem_singleton] at ht
  subst ht
  cases hd

/-! ## The latest command of each timeline -/

/-- The timeline of the command a token stands for. -/
def timelineOf (t : Token τ) : Option τ := t.map Command.timeline

/-- `us` has one token for each timeline that occurs in `ts`, its latest, and
no other. -/
structure Latest (ts us : List (Token τ)) : Prop where
  latest : ∀ u ∈ us, ∃ c, u = some c ∧ some c ∈ ts ∧
    ∀ d, some d ∈ ts → d.timeline = c.timeline → d.id ≤ c.id
  every : ∀ c, some c ∈ ts → ∃ d, some d ∈ us ∧ d.timeline = c.timeline
  once : (us.map timelineOf).Nodup

section Latest

variable {ts' us' l r : List (Token τ)}

theorem Latest.nil : Latest ([] : List (Token τ)) [] where
  latest u hu := by simp at hu
  every c hc := by simp at hc
  once := .nil

theorem Latest.congr (h : Latest ts us) (hts : ∀ c, some c ∈ ts ↔ some c ∈ ts') :
    Latest ts' us where
  latest u hu := by
    obtain ⟨c, hc, hmem, hmax⟩ := h.latest u hu
    exact ⟨c, hc, (hts c).mp hmem, fun d hd => hmax d ((hts d).mpr hd)⟩
  every c hc := h.every c ((hts c).mpr hc)
  once := h.once

/-- Commands of distinct timelines that are all there and cover all there is. -/
theorem Latest.of_covers (hfrom : ∀ u ∈ us, ∃ c, u = some c ∧ some c ∈ ts)
    (hcovers : ∀ c, some c ∈ ts → ∃ u ∈ us, Covers u c) (hone : (us.map timelineOf).Nodup) :
    Latest ts us where
  latest u hu := by
    obtain ⟨c, rfl, hc⟩ := hfrom u hu
    refine ⟨c, rfl, hc, ?_⟩
    intro d hd ht
    obtain ⟨v, hv, e, rfl, htl, hid⟩ := hcovers d hd
    -- what covers a command of that timeline is the one there is of it
    have hsame : timelineOf (some c) = timelineOf (some e) := congrArg some (htl.trans ht).symm
    obtain rfl := Option.some.inj (List.inj_on_of_nodup_map hone hu hv hsame)
    exact hid
  every c hc := by
    obtain ⟨u, hu, d, rfl, htl, -⟩ := hcovers c hc
    exact ⟨d, hu, htl⟩
  once := hone

theorem Latest.covers (h : Latest ts us) (hc : some c ∈ ts) : ∃ u ∈ us, Covers u c := by
  obtain ⟨d, hd, ht⟩ := h.every c hc
  obtain ⟨e, he, -, hmax⟩ := h.latest _ hd
  obtain rfl := Option.some.inj he
  exact ⟨some d, hd, d, rfl, ht, hmax c hc ht.symm⟩

/-- Once the commands that are listed have finished, all have. -/
theorem Latest.complete (h : Latest ts us) (hus : ∀ u ∈ us, ∀ d ∈ u, Complete k n d)
    (hc : some c ∈ ts) : Complete k n c := by
  obtain ⟨u, hu, hcov⟩ := h.covers hc
  exact hcov.complete (hus u hu)

/-- Which tokens are listed does not depend on how. -/
theorem Latest.mem_iff (h : Latest ts us) : some c ∈ us ↔
    some c ∈ ts ∧ ∀ d, some d ∈ ts → d.timeline = c.timeline → d.id ≤ c.id := by
  constructor
  · intro hc
    obtain ⟨d, hd, hmem⟩ := h.latest _ hc
    obtain rfl := Option.some.inj hd
    exact hmem
  · intro ⟨hc, hmax⟩
    obtain ⟨u, hu, d, rfl, ht, hid⟩ := h.covers hc
    obtain ⟨e, he, hd, -⟩ := h.latest _ hu
    obtain rfl := Option.some.inj he
    obtain rfl : d = c := by
      have hid' := hmax d hd ht
      cases c
      cases d
      simp only [Command.mk.injEq]
      exact ⟨ht, Nat.le_antisymm hid' hid⟩
    exact hu

theorem Latest.perm (h : Latest ts us) (h' : Latest ts us') : us.Perm us' := by
  refine (List.perm_ext_iff_of_nodup h.once.of_map h'.once.of_map).mpr ?_
  intro t
  cases t with
  | none =>
      have hnone : ∀ {vs : List (Token τ)}, Latest ts vs → none ∉ vs := by
        intro vs hvs hmem
        obtain ⟨c, hc, -⟩ := hvs.latest _ hmem
        cases hc
      exact iff_of_false (hnone h) (hnone h')
  | some c => rw [h.mem_iff, h'.mem_iff]

/-! More tokens -/

theorem Latest.without (h : Latest ts us) (hnone : ∀ c, some c ∉ ts') : Latest (ts' ++ ts) us :=
  h.congr fun c => by simp [hnone c]

/-- Those of a timeline that does not occur, of which one speaks for all. -/
theorem Latest.cons (h : Latest ts us) (hc : some c ∈ ts')
    (hcovers : ∀ d, some d ∈ ts' → Covers (some c) d)
    (hnew : ∀ d, some d ∈ ts → d.timeline ≠ c.timeline) : Latest (ts' ++ ts) (some c :: us) := by
  refine Latest.of_covers ?_ ?_ ?_
  · intro u hu
    rcases List.mem_cons.mp hu with rfl | hu
    · exact ⟨c, rfl, List.mem_append_left _ hc⟩
    · obtain ⟨d, rfl, hd, -⟩ := h.latest u hu
      exact ⟨d, rfl, List.mem_append_right _ hd⟩
  · intro d hd
    rcases List.mem_append.mp hd with hd | hd
    · exact ⟨some c, List.mem_cons_self, hcovers d hd⟩
    · obtain ⟨u, hu, hcov⟩ := h.covers hd
      exact ⟨u, List.mem_cons_of_mem _ hu, hcov⟩
  · refine List.nodup_cons.mpr ⟨?_, h.once⟩
    intro hmem
    obtain ⟨u, hu, htl⟩ := List.mem_map.mp hmem
    obtain ⟨d, rfl, hd, -⟩ := h.latest u hu
    exact hnew d hd (Option.some.inj htl)

/-! One more token -/

theorem Latest.empty (h : Latest ts us) : Latest (none :: ts) us :=
  h.congr fun c => by simp

/-- One that is not later than what is listed of its timeline. -/
theorem Latest.keep (h : Latest ts us) (hd : some d ∈ us) (ht : c.timeline = d.timeline)
    (hid : c.id ≤ d.id) : Latest (some c :: ts) us where
  latest u hu := by
    obtain ⟨e, rfl, he, hmax⟩ := h.latest u hu
    refine ⟨e, rfl, List.mem_cons_of_mem _ he, ?_⟩
    intro f hf htl
    rcases List.mem_cons.mp hf with hf | hf
    · obtain rfl := Option.some.inj hf
      -- the listed command of that timeline is `d`
      have hd' := (h.mem_iff.mp hd).1
      exact Nat.le_trans hid (hmax d hd' (ht.symm.trans htl))
    · exact hmax f hf htl
  every e he := by
    rcases List.mem_cons.mp he with he | he
    · obtain rfl := Option.some.inj he
      exact ⟨d, hd, ht.symm⟩
    · exact h.every e he
  once := h.once

/-- One that is later takes the place of what is listed of its timeline. -/
theorem Latest.replace (h : Latest ts (l ++ some d :: r)) (ht : c.timeline = d.timeline)
    (hid : d.id ≤ c.id) : Latest (some c :: ts) (l ++ some c :: r) := by
  have hone := h.once
  have hmap : (l ++ some c :: r).map timelineOf = (l ++ some d :: r).map timelineOf := by
    simp [timelineOf, ht]
  refine Latest.of_covers ?_ ?_ (hmap ▸ hone)
  · intro u hu
    have hu : u = some c ∨ u ∈ l ++ some d :: r := by
      simp only [List.mem_append, List.mem_cons] at hu ⊢
      rcases hu with hu | hu | hu <;> simp [hu]
    rcases hu with rfl | hu
    · exact ⟨c, rfl, List.mem_cons_self⟩
    · obtain ⟨e, rfl, he, -⟩ := h.latest u hu
      exact ⟨e, rfl, List.mem_cons_of_mem _ he⟩
  · intro e he
    have hself : some c ∈ l ++ some c :: r := by simp
    rcases List.mem_cons.mp he with he | he
    · obtain rfl := Option.some.inj he
      exact ⟨some e, hself, Covers.self e⟩
    · obtain ⟨u, hu, f, rfl, htl, hid'⟩ := h.covers he
      simp only [List.mem_append, List.mem_cons] at hu
      rcases hu with hu | hu | hu
      · exact ⟨some f, by simp [hu], f, rfl, htl, hid'⟩
      · obtain rfl := Option.some.inj hu
        exact ⟨some c, hself, c, rfl, ht.trans htl, Nat.le_trans hid' hid⟩
      · exact ⟨some f, by simp [hu], f, rfl, htl, hid'⟩

/-- One of a timeline that has not occurred. -/
theorem Latest.append (h : Latest ts us) (hnew : some c.timeline ∉ us.map timelineOf) :
    Latest (some c :: ts) (us ++ [some c]) := by
  refine Latest.of_covers ?_ ?_ ?_
  · intro u hu
    rcases List.mem_append.mp hu with hu | hu
    · obtain ⟨e, rfl, he, -⟩ := h.latest u hu
      exact ⟨e, rfl, List.mem_cons_of_mem _ he⟩
    · exact ⟨c, List.mem_singleton.mp hu, List.mem_cons_self⟩
  · intro e he
    rcases List.mem_cons.mp he with he | he
    · obtain rfl := Option.some.inj he
      exact ⟨some e, by simp, Covers.self e⟩
    · obtain ⟨u, hu, hcov⟩ := h.covers he
      exact ⟨u, List.mem_append_left _ hu, hcov⟩
  · rw [List.map_append, List.nodup_append]
    refine ⟨h.once, by simp, ?_⟩
    intro x hx y hy heq
    have hy : y = some c.timeline := by simpa [timelineOf] using hy
    exact hnew (hy ▸ heq ▸ hx)

end Latest

end Completion
