import Mathlib.Logic.Relation

/-! Programs that change a state and may throw. What a program did to the
state before it threw stays done. A weakest precondition has one
postcondition for a return and one for a throw; the rules below compute it
along the syntax. `Tracks` adds that the run itself is a sequence of steps
of a given relation, whichever way the program is left. -/

/-- A program over states `σ` that returns an `α` or throws an `ε`. -/
def Prog (ε σ α : Type) := σ → Except ε α × σ

namespace Prog

variable {ε σ α β : Type}

instance : Monad (Prog ε σ) where
  pure a := fun s => (.ok a, s)
  bind x f := fun s =>
    match x s with
    | (.ok a, t) => f a t
    -- what `x` did to the state stays done
    | (.error e, t) => (.error e, t)

def throw (e : ε) : Prog ε σ α := fun s => (.error e, s)

def get : Prog ε σ σ := fun s => (.ok s, s)

def modify (f : σ → σ) : Prog ε σ Unit := fun s => (.ok (), f s)

/-- Run `x`; what it throws goes to `handler`, which may throw it again. -/
def tryCatch (x : Prog ε σ α) (handler : ε → Prog ε σ α) : Prog ε σ α := fun s =>
  match x s with
  | (.ok a, t) => (.ok a, t)
  | (.error e, t) => handler e t

/-- Run `body` on each element in turn, leaving with the first throw. -/
def forEach (body : β → Prog ε σ Unit) : List β → Prog ε σ Unit
  | [] => pure ()
  | b :: bs => do
      body b
      forEach body bs

/-! ## Weakest preconditions -/

/-- `x`, run from `s`, returns in `Q` or throws in `E`. -/
def wp (x : Prog ε σ α) (Q : α → σ → Prop) (E : ε → σ → Prop) (s : σ) : Prop :=
  match x s with
  | (.ok a, t) => Q a t
  | (.error e, t) => E e t

variable {x : Prog ε σ α} {Q Q' : α → σ → Prop} {E E' : ε → σ → Prop} {s t : σ}

@[simp] theorem wp_pure (a : α) :
    wp (pure a : Prog ε σ α) Q E s ↔ Q a s := Iff.rfl

@[simp] theorem wp_throw (e : ε) :
    wp (throw e : Prog ε σ α) Q E s ↔ E e s := Iff.rfl

@[simp] theorem wp_get {Q : σ → σ → Prop} :
    wp (get : Prog ε σ σ) Q E s ↔ Q s s := Iff.rfl

@[simp] theorem wp_modify {Q : Unit → σ → Prop} (f : σ → σ) :
    wp (modify f : Prog ε σ Unit) Q E s ↔ Q () (f s) := Iff.rfl

@[simp] theorem wp_bind (x : Prog ε σ α) (f : α → Prog ε σ β)
    {Q : β → σ → Prop} :
    wp (x >>= f) Q E s ↔ wp x (fun a t => wp (f a) Q E t) E s := by
  simp only [wp, bind]
  rcases x s with ⟨_ | _, t⟩ <;> rfl

@[simp] theorem wp_tryCatch (x : Prog ε σ α) (handler : ε → Prog ε σ α) :
    wp (tryCatch x handler) Q E s
      ↔ wp x Q (fun e t => wp (handler e) Q E t) s := by
  simp only [wp, tryCatch]
  rcases x s with ⟨_ | _, t⟩ <;> rfl

theorem wp_ite {c : Prop} [Decidable c] (x y : Prog ε σ α) :
    wp (if c then x else y) Q E s ↔ if c then wp x Q E s else wp y Q E s := by
  split <;> rfl

theorem wp_mono (h : wp x Q E s) (hQ : ∀ a t, Q a t → Q' a t)
    (hE : ∀ e t, E e t → E' e t) : wp x Q' E' s := by
  simp only [wp] at h ⊢
  rcases hx : x s with ⟨_ | _, t⟩ <;> rw [hx] at h
  · exact hE _ _ h
  · exact hQ _ _ h

theorem wp_and (h : wp x Q E s) (h' : wp x Q' E' s) :
    wp x (fun a t => Q a t ∧ Q' a t) (fun e t => E e t ∧ E' e t) s := by
  simp only [wp] at h h' ⊢
  rcases hx : x s with ⟨_ | _, t⟩ <;> rw [hx] at h h' <;> exact ⟨h, h'⟩

/-- How a run was left. -/
theorem wp_run (x : Prog ε σ α) (s : σ) :
    wp x (fun a t => x s = (.ok a, t)) (fun e t => x s = (.error e, t)) s := by
  simp only [wp]
  rcases x s with ⟨_ | _, t⟩ <;> rfl

/-- What holds on every way out holds of the state that is left. -/
theorem wp_final {P : σ → Prop} (h : wp x (fun _ t => P t) (fun _ t => P t) s) : P (x s).2 := by
  simp only [wp] at h
  rcases hx : x s with ⟨_ | _, t⟩ <;> rw [hx] at h <;> exact h

/-- A run that is known to have returned. -/
theorem wp_returned (h : wp x Q E s) {a : α} (hr : x s = (.ok a, t)) : Q a t := by
  simpa only [wp, hr] using h

/-- A run that is known to have thrown. -/
theorem wp_thrown (h : wp x Q E s) {e : ε} (hr : x s = (.error e, t)) : E e t := by
  simpa only [wp, hr] using h

theorem wp_of_returned {a : α} (hr : x s = (.ok a, t)) (h : Q a t) : wp x Q E s := by
  simpa only [wp, hr] using h

theorem wp_of_thrown {e : ε} (hr : x s = (.error e, t)) (h : E e t) : wp x Q E s := by
  simpa only [wp, hr] using h

/-- `x`, run from `s`, does not throw. -/
def Returns (x : Prog ε σ α) (s : σ) : Prop := wp x (fun _ _ => True) (fun _ _ => False) s

theorem Returns.pure {a : α} : Returns (Pure.pure a : Prog ε σ α) s := trivial

theorem Returns.modify {f : σ → σ} : Returns (modify f : Prog ε σ Unit) s := trivial

theorem Returns.bind {x : Prog ε σ α} {f : α → Prog ε σ β} (hx : Returns x s)
    (hf : ∀ a t, Returns (f a) t) : Returns (x >>= f) s := by
  rw [Returns, wp_bind]
  exact wp_mono hx (fun a t _ => hf a t) fun _ _ h => h

theorem Returns.forEach {body : β → Prog ε σ Unit} (hbody : ∀ b t, Returns (body b) t)
    (bs : List β) (s : σ) : Returns (forEach body bs) s := by
  induction bs generalizing s with
  | nil => exact .pure
  | cons b bs ih => exact (hbody b s).bind fun _ t => ih t

theorem Returns.exists_ok (hx : Returns x s) : ∃ a t, x s = (.ok a, t) := by
  rcases hr : x s with ⟨e | a, t⟩
  · exact (wp_thrown hx hr).elim
  · exact ⟨a, t, rfl⟩

/-- What holds on a return holds of a program that does return. -/
theorem Returns.and (hx : Returns x s) (h : wp x Q E s) : wp x Q (fun _ _ => False) s :=
  wp_mono (wp_and hx h) (fun _ _ h => h.2) fun _ _ h => h.1

/-! ## Runs made of steps -/

/-- Every way out of `x` from `s` is reached by steps of `R`, and a return
satisfies `Q`. -/
def Tracks (R : σ → σ → Prop) (x : Prog ε σ α) (Q : α → σ → Prop) (s : σ) : Prop :=
  wp x (fun a t => Relation.ReflTransGen R s t ∧ Q a t)
    (fun _ t => Relation.ReflTransGen R s t) s

variable {R : σ → σ → Prop}

theorem Tracks.pure {a : α} (h : Q a s) :
    Tracks R (Pure.pure a : Prog ε σ α) Q s := ⟨.refl, h⟩

theorem Tracks.throw (e : ε) : Tracks R (throw e : Prog ε σ α) Q s :=
  Relation.ReflTransGen.refl

/-- Reading the state is no step. -/
theorem Tracks.get_bind {f : σ → Prog ε σ α} (h : Tracks R (f s) Q s) :
    Tracks R (get >>= f) Q s := h

/-- One state change that is itself a step. -/
theorem Tracks.modify {Q : Unit → σ → Prop} {f : σ → σ}
    (hR : R s (f s)) (h : Q () (f s)) :
    Tracks R (modify f : Prog ε σ Unit) Q s := ⟨.single hR, h⟩

theorem Tracks.bind {x : Prog ε σ α} {f : α → Prog ε σ β} {Q' : β → σ → Prop}
    (hx : Tracks R x Q s)
    (hf : ∀ a t, Relation.ReflTransGen R s t → Q a t → Tracks R (f a) Q' t) :
    Tracks R (x >>= f) Q' s := by
  rw [Tracks, wp_bind]
  refine wp_mono hx (fun a t ⟨hst, hq⟩ => ?_) (fun _ _ hst => hst)
  exact wp_mono (hf a t hst hq) (fun _ _ ⟨htu, hq'⟩ => ⟨hst.trans htu, hq'⟩)
    (fun _ _ htu => hst.trans htu)

theorem Tracks.tryCatch {x : Prog ε σ α} {handler : ε → Prog ε σ α}
    (hx : Tracks R x Q s)
    (hh : ∀ e t, Relation.ReflTransGen R s t → Tracks R (handler e) Q t) :
    Tracks R (tryCatch x handler) Q s := by
  rw [Tracks, wp_tryCatch]
  refine wp_mono hx (fun _ _ h => h) (fun e t hst => ?_)
  exact wp_mono (hh e t hst) (fun _ _ ⟨htu, hq⟩ => ⟨hst.trans htu, hq⟩)
    (fun _ _ htu => hst.trans htu)

theorem Tracks.mono {x : Prog ε σ α} (hx : Tracks R x Q s)
    (hQ : ∀ a t, Relation.ReflTransGen R s t → Q a t → Q' a t) :
    Tracks R x Q' s :=
  wp_mono hx (fun a t ⟨hst, hq⟩ => ⟨hst, hQ a t hst hq⟩) (fun _ _ h => h)

/-- A loop over a list keeps `I`, indexed by what is left to do. -/
theorem Tracks.forEach {body : β → Prog ε σ Unit} {I : List β → σ → Prop}
    (hbody : ∀ b bs t, I (b :: bs) t → Tracks R (body b) (fun _ u => I bs u) t) :
    ∀ (bs : List β) (s : σ), I bs s →
      Tracks R (forEach body bs) (fun _ u => I [] u) s
  | [], _, h => Tracks.pure h
  | b :: bs, s, h =>
      (hbody b bs s h).bind fun _ t _ ht => Tracks.forEach hbody bs t ht

end Prog
