import Mathlib.Data.Finset.Insert
import Mathlib.Logic.Hydra
import RexlibCuda.Lib.Threads

/-! Threads that share locks. As long as each takes its locks in one order, some
thread is never held up by a lock; and as no program makes calls forever,
threads that begin nothing new come to an end. -/

namespace Calls

variable {C : Type} {A : C → Type} {ε α β σ Θ τ L : Type}

/-- What a call does to a lock. -/
inductive LockUse (L : Type) where
  | takes (l : L)
  | frees (l : L)
  | none

/-- Run `body` between a call that takes a lock and one that frees it. -/
def locked (take free : C) (body : Calls C A ε α) : Calls C A ε α :=
  call take fun _ => body.andFinally (call free fun _ => ret ())

variable (use : C → LockUse L) (rank : L → Nat)

/-- Where it holds the locks `held`, the latest first, `x` takes only locks of a
higher rank, frees the latest first and none of `last`, and is left with those. -/
def Ordered (last : List L) : Calls C A ε α → List L → Prop
  | ret _, held => held = last
  | throw _, held => held = last
  | call c k, held =>
      match use c with
      | .takes l => (∀ l' ∈ held, rank l' < rank l) ∧ ∀ a, (k a).Ordered last (l :: held)
      | .frees l => ∃ rest, held = l :: rest ∧ last <:+ rest ∧ ∀ a, (k a).Ordered last rest
      | .none => ∀ a, (k a).Ordered last held

/-- The program waits for a lock that somebody holds. -/
def Waits (holder : L → Option Θ) (x : Calls C A ε α) : Prop :=
  ∃ c k l, x = call c k ∧ use c = .takes l ∧ holder l ≠ none

section Ordered

variable {use rank} {x : Calls C A ε α} {c : C} {k : A c → Calls C A ε α} {last mid held : List L}
  {l : L}

theorem ordered_takes (h : use c = .takes l) : (call c k).Ordered use rank last held ↔
    (∀ l' ∈ held, rank l' < rank l) ∧ ∀ a, (k a).Ordered use rank last (l :: held) := by
  rw [Ordered, h]

theorem ordered_frees (h : use c = .frees l) : (call c k).Ordered use rank last held ↔
    ∃ rest, held = l :: rest ∧ last <:+ rest ∧ ∀ a, (k a).Ordered use rank last rest := by
  rw [Ordered, h]

theorem ordered_none (h : use c = .none) : (call c k).Ordered use rank last held ↔
    ∀ a, (k a).Ordered use rank last held := by
  rw [Ordered, h]

/-- A program may go on with any other that ends with the same locks. -/
theorem Ordered.map {y : Calls C A ε α → Calls C A ε β} (hlast : last <:+ mid)
    (hret : ∀ a, (y (ret a)).Ordered use rank last mid)
    (hthrow : ∀ e, (y (throw e)).Ordered use rank last mid)
    (hcall : ∀ c k, y (call c k) = call c fun a => y (k a)) (h : x.Ordered use rank mid held) :
    (y x).Ordered use rank last held := by
  induction x generalizing held with
  | ret a =>
      obtain rfl : held = mid := h
      exact hret a
  | throw e =>
      obtain rfl : held = mid := h
      exact hthrow e
  | call c k ih =>
      rw [hcall]
      cases huse : use c with
      | takes l =>
          rw [ordered_takes huse] at h ⊢
          exact ⟨h.1, fun a => ih a (h.2 a)⟩
      | frees l =>
          rw [ordered_frees huse] at h ⊢
          obtain ⟨rest, hheld, hmid, hrest⟩ := h
          exact ⟨rest, hheld, hlast.trans hmid, fun a => ih a (hrest a)⟩
      | none =>
          rw [ordered_none huse] at h ⊢
          exact fun a => ih a (h a)

theorem Ordered.bind {f : α → Calls C A ε β} (h : x.Ordered use rank last held)
    (hf : ∀ a, (f a).Ordered use rank last last) : (x >>= f).Ordered use rank last held :=
  h.map (y := fun x => x.bind f) (List.suffix_refl _) hf (fun _ => rfl) fun _ _ => rfl

theorem Ordered.tryCatch {handler : ε → Calls C A ε α} (h : x.Ordered use rank last held)
    (hhandler : ∀ e, (handler e).Ordered use rank last last) :
    (x.tryCatch handler).Ordered use rank last held :=
  h.map (y := fun x => x.tryCatch handler) (List.suffix_refl _) (fun _ => rfl) hhandler
    fun _ _ => rfl

theorem Ordered.andFinally {y : Calls C A ε Unit} (hlast : last <:+ mid)
    (h : x.Ordered use rank mid held) (hy : y.Ordered use rank last mid) :
    (x.andFinally y).Ordered use rank last held := by
  refine h.map (y := fun x => x.andFinally y) hlast (fun a => ?_) (fun e => ?_) fun _ _ => rfl
  · exact hy.bind (f := fun _ => ret a) fun _ => rfl
  · exact hy.bind (f := fun _ => throw e) fun _ => rfl

theorem Ordered.ask (h : use c = .none) : (ask c : Calls C A ε _).Ordered use rank held held :=
  (ordered_none h).mpr fun _ => rfl

theorem Ordered.locked {take free : C} (htake : use take = .takes l) (hfree : use free = .frees l)
    (habove : ∀ l' ∈ held, rank l' < rank l) (h : x.Ordered use rank (l :: held) (l :: held)) :
    (locked take free x).Ordered use rank held held := by
  refine (ordered_takes htake).mpr ⟨habove, fun _ => h.andFinally (List.suffix_cons l held) ?_⟩
  exact (ordered_frees hfree).mpr ⟨held, rfl, List.suffix_refl _, fun _ => rfl⟩

end Ordered

/-- The calls take and free the locks as they should, and nothing else does. -/
structure System.Locking (S : System Θ C A σ) [DecidableEq L] (use : C → LockUse L)
    (holder : σ → L → Option Θ) : Prop where
  takes : ∀ {θ s c a t l}, S.does θ s c a t → use c = .takes l →
    holder s l = none ∧ holder t = Function.update (holder s) l (some θ)
  frees : ∀ {θ s c a t l}, S.does θ s c a t → use c = .frees l →
    holder t = Function.update (holder s) l none
  keeps : ∀ {θ s c a t}, S.does θ s c a t → use c = .none → holder t = holder s
  moves : ∀ {s t}, S.moves s t → holder t = holder s

/-- **A program that goes by the order keeps the locks it began with.** -/
theorem wp_held [DecidableEq L] {use : C → LockUse L} {rank : L → Nat} {S : System Θ C A σ}
    {holder : σ → L → Option Θ} (hlocks : S.Locking use holder) {θ : Θ} {l : L}
    (hstable : S.Stable θ fun s => holder s l = some θ) {x : Calls C A ε α} {last held : List L}
    (hx : x.Ordered use rank last held) (hsorted : held.Pairwise fun l l' => rank l' < rank l)
    (hmem : l ∈ last) {Q : α → σ → Prop} {E : ε → σ → Prop} {s : σ} (h : x.wp S θ Q E s)
    (hheld : holder s l = some θ) :
    x.wp S θ (fun a t => Q a t ∧ holder t l = some θ) (fun e t => E e t ∧ holder t l = some θ) s := by
  induction x generalizing held s with
  | ret a => exact fun t hst ht => ⟨h t hst ht, hstable s t hst hheld⟩
  | throw e => exact fun t hst ht => ⟨h t hst ht, hstable s t hst hheld⟩
  | call c k ih =>
      intro t hst ht
      obtain ⟨hdemands, hnext⟩ := h t hst ht
      have hheld := hstable s t hst hheld
      refine ⟨hdemands, fun a u hau => ?_⟩
      cases huse : use c with
      | takes l' =>
          obtain ⟨habove, hx⟩ := (ordered_takes huse).mp hx
          obtain ⟨hfree, hholder⟩ := hlocks.takes hau huse
          have hne : l ≠ l' := by
            rintro rfl
            simp [hfree] at hheld
          refine ih a (hx a) (List.pairwise_cons.mpr ⟨habove, hsorted⟩) (hnext a u hau) ?_
          simpa [hholder, hne] using hheld
      | frees l' =>
          obtain ⟨rest, rfl, hlast, hx⟩ := (ordered_frees huse).mp hx
          obtain ⟨habove, hsorted⟩ := List.pairwise_cons.mp hsorted
          -- what it frees it has taken itself
          have hne : l ≠ l' := by
            rintro rfl
            exact absurd (habove l (hlast.subset hmem)) (Nat.lt_irrefl _)
          refine ih a (hx a) hsorted (hnext a u hau) ?_
          simpa [hlocks.frees hau huse, hne] using hheld
      | none =>
          refine ih a ((ordered_none huse).mp hx a) hsorted (hnext a u hau) ?_
          simpa [hlocks.keeps hau huse] using hheld

end Calls

namespace Threads

open Calls

open Relation (ReflTransGen)

variable {Θ τ C L : Type} {A : C → Type} {ε α σ : Type}

/-! ## Some thread is not held up -/

section Locks

variable (use : C → LockUse L) (rank : L → Nat)

/-- A thread holds the locks `locks`, in the order of their ranks, and what it
runs goes by that order. -/
structure Holding (holder : L → Option Θ) (θ : Θ) (runs : Option (τ × Calls C A ε α))
    (locks : List L) : Prop where
  exactly : ∀ l, holder l = some θ ↔ l ∈ locks
  sorted : locks.Pairwise fun l l' => rank l' < rank l
  idle : runs = none → locks = []
  ordered : ∀ t x, runs = some (t, x) → x.Ordered use rank [] locks

/-- Every thread takes its locks in order. -/
def InOrder (holder : σ → L → Option Θ) (m : Threads Θ τ C A ε α σ) : Prop :=
  ∀ θ, ∃ locks, Holding use rank (holder m.shared) θ (m.running θ) locks

variable {use rank} {holder : σ → L → Option Θ} {S : System Θ C A σ}
  {begins : Θ → σ → τ → Calls C A ε α → Prop} {m m' : Threads Θ τ C A ε α σ} {θ θ' : Θ}
  {runs : Option (τ × Calls C A ε α)} {locks : List L} {h h' : L → Option Θ} {l : L}

/-- Only what a thread holds itself matters to it. -/
theorem Holding.congr (hh : Holding use rank h θ runs locks)
    (hsame : ∀ l, h' l = some θ ↔ h l = some θ) : Holding use rank h' θ runs locks :=
  ⟨fun l => (hsame l).trans (hh.exactly l), hh.sorted, hh.idle, hh.ordered⟩

theorem Holding.left {t : τ} {x : Calls C A ε α} (hh : Holding use rank h θ (some (t, x)) locks)
    (hx : x.Ordered use rank [] locks → locks = []) : Holding use rank h θ
      (none : Option (τ × Calls C A ε α)) locks :=
  ⟨hh.exactly, hh.sorted, fun _ => hx (hh.ordered t x rfl), nofun⟩

theorem Holding.takes [DecidableEq L] {t : τ} {c : C} {k : A c → Calls C A ε α} (a : A c)
    (hh : Holding use rank h θ (some (t, call c k)) locks) (huse : use c = .takes l) :
    Holding use rank (Function.update h l (some θ)) θ (some (t, k a)) (l :: locks) := by
  obtain ⟨habove, hnext⟩ := (ordered_takes huse).mp (hh.ordered t _ rfl)
  refine ⟨?_, List.pairwise_cons.mpr ⟨habove, hh.sorted⟩, nofun, ?_⟩
  · intro l'
    by_cases heq : l' = l
    · simp [heq]
    · rw [Function.update_of_ne heq, hh.exactly l']
      simp [heq]
  · rintro _ _ ⟨⟩
    exact hnext a

theorem Holding.frees [DecidableEq L] {t : τ} {c : C} {k : A c → Calls C A ε α} (a : A c)
    (hh : Holding use rank h θ (some (t, call c k)) locks) (huse : use c = .frees l) :
    ∃ rest, Holding use rank (Function.update h l none) θ (some (t, k a)) rest ∧ l ∈ locks := by
  obtain ⟨rest, rfl, -, hnext⟩ := (ordered_frees huse).mp (hh.ordered t _ rfl)
  obtain ⟨habove, hsorted⟩ := List.pairwise_cons.mp hh.sorted
  refine ⟨rest, ⟨?_, hsorted, nofun, ?_⟩, List.mem_cons_self⟩
  · intro l'
    by_cases heq : l' = l
    · subst heq
      -- it is held once only
      have hnot : l' ∉ rest := fun hmem => absurd (habove l' hmem) (Nat.lt_irrefl _)
      simp [hnot]
    · rw [Function.update_of_ne heq, hh.exactly l']
      simp [heq]
  · rintro _ _ ⟨⟩
    exact hnext a

theorem Holding.keeps {t : τ} {c : C} {k : A c → Calls C A ε α} (a : A c)
    (hh : Holding use rank h θ (some (t, call c k)) locks) (huse : use c = .none) :
    Holding use rank h θ (some (t, k a)) locks := by
  refine ⟨hh.exactly, hh.sorted, nofun, ?_⟩
  rintro _ _ ⟨⟩
  exact (ordered_none huse).mp (hh.ordered t _ rfl) a

/-- One thread runs something else, and the others hold what they held. -/
theorem InOrder.update [DecidableEq Θ] (hm : m.InOrder use rank holder) {s : σ}
    (hself : ∃ locks, Holding use rank (holder s) θ runs locks)
    (hothers : ∀ θ' ≠ θ, ∀ l, holder s l = some θ' ↔ holder m.shared l = some θ') :
    InOrder use rank holder ⟨s, Function.update m.running θ runs⟩ := by
  intro θ'
  by_cases heq : θ' = θ
  · subst heq
    simpa using hself
  · obtain ⟨locks, hh⟩ := hm θ'
    refine ⟨locks, ?_⟩
    simpa [heq] using hh.congr (hothers θ' heq)

theorem InOrder.step [DecidableEq Θ] [DecidableEq L] (hlocks : S.Locking use holder)
    (hbegins : ∀ θ s t x, begins θ s t x → x.Ordered use rank [] [])
    (hm : m.InOrder use rank holder) (hstep : Step S begins m m') :
    m'.InOrder use rank holder := by
  cases hstep with
  | @began θ t x idle may =>
      refine hm.update ?_ fun _ _ _ => Iff.rfl
      obtain ⟨locks, hh⟩ := hm θ
      obtain rfl := hh.idle idle
      refine ⟨[], hh.exactly, hh.sorted, fun _ => rfl, ?_⟩
      rintro _ _ ⟨⟩
      exact hbegins _ _ _ _ may
  | @called θ t c k a s here does =>
      obtain ⟨locks, hh⟩ := hm θ
      rw [here] at hh
      cases huse : use c with
      | takes l =>
          obtain ⟨hfree, hholder⟩ := hlocks.takes does huse
          refine hm.update ⟨_, hholder ▸ hh.takes a huse⟩ ?_
          intro θ' hne l'
          by_cases hl : l' = l
          · subst hl
            simp [hholder, hfree, Ne.symm hne]
          · simp [hholder, hl]
      | frees l =>
          have hholder := hlocks.frees does huse
          obtain ⟨rest, hrest, hmem⟩ := hh.frees a huse
          refine hm.update ⟨rest, hholder ▸ hrest⟩ ?_
          intro θ' hne l'
          by_cases hl : l' = l
          · subst hl
            simp [hholder, (hh.exactly l').mpr hmem, Ne.symm hne]
          · simp [hholder, hl]
      | none =>
          have hholder := hlocks.keeps does huse
          exact hm.update ⟨locks, hholder ▸ hh.keeps a huse⟩ fun _ _ _ => by rw [hholder]
  | @returned θ t a here =>
      obtain ⟨locks, hh⟩ := hm θ
      rw [here] at hh
      exact hm.update ⟨locks, hh.left fun h => h⟩ fun _ _ _ => Iff.rfl
  | @threw θ t e here =>
      obtain ⟨locks, hh⟩ := hm θ
      rw [here] at hh
      exact hm.update ⟨locks, hh.left fun h => h⟩ fun _ _ _ => Iff.rfl
  | moved moves =>
      intro θ'
      rw [hlocks.moves moves]
      exact hm θ'

/-- **Locks that are taken in order hold nobody up for good**: some thread that
runs a program waits for no lock. -/
theorem InOrder.exists_not_waits {n : Nat} (hrank : ∀ l, rank l < n)
    (hm : m.InOrder use rank holder) {t : τ} {x : Calls C A ε α} (hx : m.running θ = some (t, x)) :
    ∃ θ t x, m.running θ = some (t, x) ∧ ¬ x.Waits use (holder m.shared) := by
  -- whoever holds the lock it waits for waits, if at all, for one of a higher rank
  have hchain : ∀ (d : Nat) (θ : Θ) (t : τ) (x : Calls C A ε α), m.running θ = some (t, x) →
      (∀ c k l, x = call c k → use c = .takes l → n ≤ rank l + d) →
      ∃ θ t x, m.running θ = some (t, x) ∧ ¬ x.Waits use (holder m.shared) := by
    intro d
    induction d with
    | zero =>
        intro θ t x hx hhigh
        refine ⟨θ, t, x, hx, ?_⟩
        rintro ⟨c, k, l, hcall, huse, -⟩
        have hge := hhigh c k l hcall huse
        have hlt := hrank l
        omega
    | succ d ih =>
        intro θ t x hx hhigh
        by_cases hwaits : x.Waits use (holder m.shared)
        · obtain ⟨c, k, l, hcall, huse, hheld⟩ := hwaits
          obtain ⟨θ', hholder⟩ := Option.ne_none_iff_exists'.mp hheld
          obtain ⟨locks, hh⟩ := hm θ'
          have hmem := (hh.exactly l).mp hholder
          cases hruns : m.running θ' with
          | none =>
              rw [hh.idle hruns] at hmem
              cases hmem
          | some p =>
              refine ih θ' p.1 p.2 hruns ?_
              intro c' k' l' hcall' huse'
              have hordered := hh.ordered p.1 p.2 hruns
              rw [hcall', ordered_takes huse'] at hordered
              have hlt := hordered.1 l hmem
              have hge := hhigh c k l hcall huse
              omega
        · exact ⟨θ, t, x, hx, hwaits⟩
  exact hchain n θ t x hx fun _ _ _ _ _ => Nat.le_add_left n _

end Locks

/-! ## They come to an end -/

/-- What a thread runs once it has made a call or has left its program. -/
inductive Later : Option (τ × Calls C A ε α) → Option (τ × Calls C A ε α) → Prop
  | called {t : τ} {c : C} {k : A c → Calls C A ε α} (a : A c) :
      Later (some (t, k a)) (some (t, call c k))
  | left {t : τ} {x : Calls C A ε α} : Later none (some (t, x))

theorem later_wf : WellFounded (Later (τ := τ) (C := C) (A := A) (ε := ε) (α := α)) := by
  have hnone : Acc (Later (τ := τ) (C := C) (A := A) (ε := ε) (α := α)) none := .intro _ nofun
  refine ⟨fun o => ?_⟩
  cases o with
  | none => exact hnone
  | some p =>
      obtain ⟨t, x⟩ := p
      induction x with
      | ret a =>
          apply Acc.intro
          rintro _ ⟨⟩
          exact hnone
      | throw e =>
          apply Acc.intro
          rintro _ ⟨⟩
          exact hnone
      | call c k ih =>
          apply Acc.intro
          intro o ho
          cases ho with
          | called a => exact ih a
          | left => exact hnone

section Ends

variable [DecidableEq Θ] {S : System Θ C A σ} {m m' : Threads Θ τ C A ε α σ} {θ : Θ}
  {begins : Θ → σ → τ → Calls C A ε α → Prop} {I : Θ → σ → Prop} {Q : Θ → τ → α → σ → Prop} {E : Θ → τ → ε → σ → Prop}

/-- The threads go on, and none begins a program. -/
def Goes (S : System Θ C A σ) : Threads Θ τ C A ε α σ → Threads Θ τ C A ε α σ → Prop :=
  Step S fun _ _ _ _ => False

/-- Only so many threads run. -/
def Few (m : Threads Θ τ C A ε α σ) : Prop := ∃ F : Finset Θ, ∀ θ, m.running θ ≠ none → θ ∈ F

theorem Few.step (h : m.Few)
    (hstep : Step S begins m m') : m'.Few := by
  obtain ⟨F, hF⟩ := h
  -- whoever runs ran before, or begins
  have hinsert : ∀ (θ : Θ) (o : Option (τ × Calls C A ε α)) (θ' : Θ),
      Function.update m.running θ o θ' ≠ none → θ' ∈ insert θ F := by
    intro θ o θ' hne
    by_cases heq : θ' = θ
    · simp [heq]
    · rw [Function.update_of_ne heq] at hne
      simp [hF θ' hne]
  cases hstep with
  | began idle may => exact ⟨_, hinsert _ _⟩
  | called here does => exact ⟨_, hinsert _ _⟩
  | returned here => exact ⟨_, hinsert _ _⟩
  | threw here => exact ⟨_, hinsert _ _⟩
  | moved moves => exact ⟨F, hF⟩

/-- What the threads of `F` run. -/
def programs (m : Threads Θ τ C A ε α σ) (F : Finset Θ) : Multiset (Option (τ × Calls C A ε α)) :=
  F.val.map m.running

/-- One thread goes on with its program. -/
theorem programs_update {F : Finset Θ} {s : σ} {o : Option (τ × Calls C A ε α)} (hmem : θ ∈ F)
    (hlater : Later o (m.running θ)) : Relation.CutExpand Later
      (programs ⟨s, Function.update m.running θ o⟩ F) (programs m F) := by
  have hsplit := Multiset.cons_erase (Finset.mem_val.mpr hmem)
  have hothers : (F.val.erase θ).map (Function.update m.running θ o)
      = (F.val.erase θ).map m.running := by
    apply Multiset.map_congr rfl
    intro θ' hθ'
    have hne : θ' ≠ θ := fun heq => F.nodup.notMem_erase (heq ▸ hθ')
    exact Function.update_of_ne hne _ _
  show Relation.CutExpand Later (F.val.map (Function.update m.running θ o)) (F.val.map m.running)
  rw [← hsplit, Multiset.map_cons, Multiset.map_cons, hothers, Function.update_self]
  exact Relation.cutExpand_single_add hlater _

/-- **Threads that begin nothing come to an end**, where what happens without
them does. -/
theorem Sound.ends (hverified : Verified S begins I Q E)
    (hmoves : ∀ s, S.inv s → Acc (fun t s => S.moves s t) s) {F : Finset Θ}
    (hF : ∀ θ, m.running θ ≠ none → θ ∈ F) (h : m.Sound S I Q E) :
    Acc (fun m' m => Goes S m m') m := by
  have hgoes : Verified S (fun _ _ _ _ => False) I Q E :=
    ⟨hverified.stable, fun _ _ may => may.elim, hverified.returns, hverified.throws⟩
  generalize hp : m.programs F = p
  induction later_wf.cutExpand.apply p generalizing m with
  | intro p _ ih =>
      -- the programs stay as they are while things happen without the threads
      generalize hs : m.shared = s
      induction hmoves s (hs ▸ h.inv) generalizing m with
      | intro s _ ihs =>
          apply Acc.intro
          intro m' hstep
          have hsound : m'.Sound S I Q E := h.step hgoes hstep
          have hF' : ∀ (θ : Θ) (o : Option (τ × Calls C A ε α)), θ ∈ F → ∀ θ',
              Function.update m.running θ o θ' ≠ none → θ' ∈ F := by
            intro θ o hmem θ' hne
            by_cases heq : θ' = θ
            · exact heq ▸ hmem
            · rw [Function.update_of_ne heq] at hne
              exact hF θ' hne
          cases hstep with
          | began idle may => exact may.elim
          | @called θ t c k a u here does =>
              have hmem := hF θ (by simp [here])
              exact ih _ (hp ▸ programs_update hmem (here ▸ .called a)) (hF' θ _ hmem) hsound rfl
          | @returned θ t a here =>
              have hmem := hF θ (by simp [here])
              exact ih _ (hp ▸ programs_update hmem (here ▸ .left)) (hF' θ _ hmem) hsound rfl
          | @threw θ t e here =>
              have hmem := hF θ (by simp [here])
              exact ih _ (hp ▸ programs_update hmem (here ▸ .left)) (hF' θ _ hmem) hsound rfl
          | @moved u moves => exact ihs u (hs ▸ moves) hF hsound hp rfl

end Ends

end Threads
