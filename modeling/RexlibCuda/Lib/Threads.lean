import Mathlib.Logic.Function.Basic
import RexlibCuda.Lib.Runs

/-! Programs that any number of threads run at the same time, one call to what
they share after another. A weakest precondition speaks for one thread, with
whatever the others may do between its calls; where it holds of each program
as it begins, it holds of what is left of the programs all along. -/

/-- A program that returns an `α` or throws an `ε`. The answer to the call `c`
is an `A c`. -/
inductive Calls (C : Type) (A : C → Type) (ε α : Type) where
  | ret (a : α)
  | throw (e : ε)
  | call (c : C) (k : A c → Calls C A ε α)

namespace Calls

open Relation (ReflTransGen)

variable {C : Type} {A : C → Type} {ε α β σ Θ τ : Type}

def bind (x : Calls C A ε α) (f : α → Calls C A ε β) : Calls C A ε β :=
  match x with
  | ret a => f a
  | throw e => throw e
  | call c k => call c fun a => (k a).bind f

instance : Monad (Calls C A ε) where
  pure := ret
  bind := bind

/-- Make a call. -/
def ask (c : C) : Calls C A ε (A c) := call c ret

/-- Run `x`; what it throws goes to `handler`. -/
def tryCatch (x : Calls C A ε α) (handler : ε → Calls C A ε α) : Calls C A ε α :=
  match x with
  | ret a => ret a
  | throw e => handler e
  | call c k => call c fun a => (k a).tryCatch handler

/-- Run `last` after `x`, whichever way that is left. -/
def andFinally (x : Calls C A ε α) (last : Calls C A ε Unit) : Calls C A ε α :=
  match x with
  | ret a => last.bind fun _ => ret a
  | throw e => last.bind fun _ => throw e
  | call c k => call c fun a => (k a).andFinally last

/-- What the threads share, and what each may count on. -/
structure System (Θ C : Type) (A : C → Type) (σ : Type) where
  /-- What a call of a thread may do, and answer. -/
  does : Θ → σ → (c : C) → A c → σ → Prop
  /-- What holds between any two calls. -/
  inv : σ → Prop
  /-- What a thread finds that the others have done since its last call. -/
  rely : Θ → σ → σ → Prop
  /-- What has to hold where a thread makes the call. -/
  demands : Θ → C → σ → Prop
  /-- What happens without any of the threads. -/
  moves : σ → σ → Prop
  refl : ∀ θ s, rely θ s s
  trans : ∀ {θ s t u}, rely θ s t → rely θ t u → rely θ s u
  keeps : ∀ {θ s c a t}, inv s → demands θ c s → does θ s c a t → inv t
  others : ∀ {θ θ' s c a t}, θ' ≠ θ → inv s → demands θ c s → does θ s c a t → rely θ' s t
  keepsMoved : ∀ {s t}, inv s → moves s t → inv t
  moved : ∀ {θ s t}, moves s t → rely θ s t

variable (S : System Θ C A σ) {θ : Θ}

/-- Run from `s` by `θ`, while others run their programs, `x` makes no call
that it may not make, and returns in `Q` or throws in `E`. -/
def wp (θ : Θ) (x : Calls C A ε α) (Q : α → σ → Prop) (E : ε → σ → Prop) (s : σ) : Prop :=
  match x with
  | ret a => ∀ t, S.rely θ s t → S.inv t → Q a t
  | throw e => ∀ t, S.rely θ s t → S.inv t → E e t
  | call c k => ∀ t, S.rely θ s t → S.inv t → S.demands θ c t ∧
      ∀ a u, S.does θ t c a u → (k a).wp θ Q E u

/-- What the others cannot undo. -/
def System.Stable (S : System Θ C A σ) (θ : Θ) (P : σ → Prop) : Prop :=
  ∀ s t, S.rely θ s t → P s → P t

section Rules

variable {S} {x : Calls C A ε α} {Q Q' : α → σ → Prop} {E E' : ε → σ → Prop} {s t : σ}

theorem stable_and {P R : σ → Prop} (hP : S.Stable θ P) (hR : S.Stable θ R) :
    S.Stable θ fun s => P s ∧ R s :=
  fun s t hst h => ⟨hP s t hst h.1, hR s t hst h.2⟩

theorem wp_mono (h : x.wp S θ Q E s) (hQ : ∀ a t, Q a t → Q' a t) (hE : ∀ e t, E e t → E' e t) :
    x.wp S θ Q' E' s := by
  induction x generalizing s with
  | ret a => exact fun t hst ht => hQ a t (h t hst ht)
  | throw e => exact fun t hst ht => hE e t (h t hst ht)
  | call c k ih =>
      intro t hst ht
      obtain ⟨hdemands, hnext⟩ := h t hst ht
      exact ⟨hdemands, fun a u hau => ih a (hnext a u hau)⟩

/-- What others do before a program begins is what they may do anyway. -/
theorem wp_rely (h : x.wp S θ Q E s) (hst : S.rely θ s t) : x.wp S θ Q E t := by
  cases x with
  | ret a => exact fun u htu hu => h u (S.trans hst htu) hu
  | throw e => exact fun u htu hu => h u (S.trans hst htu) hu
  | call c k => exact fun u htu hu => h u (S.trans hst htu) hu

theorem wp_stable (x : Calls C A ε α) : S.Stable θ fun s => x.wp S θ Q E s :=
  fun _ _ hst h => wp_rely h hst

/-- So it is enough to look at where they have done it. -/
theorem wp_of_rely (h : ∀ t, S.rely θ s t → S.inv t → x.wp S θ Q E t) : x.wp S θ Q E s := by
  cases x with
  | ret a => exact fun t hst ht => h t hst ht t (S.refl θ t) ht
  | throw e => exact fun t hst ht => h t hst ht t (S.refl θ t) ht
  | call c k => exact fun t hst ht => h t hst ht t (S.refl θ t) ht

theorem wp_ret {a : α} (hQ : S.Stable θ (Q a)) (h : Q a s) :
    (pure a : Calls C A ε α).wp S θ Q E s :=
  fun t hst _ => hQ s t hst h

theorem wp_throw {e : ε} (hE : S.Stable θ (E e)) (h : E e s) :
    (throw e : Calls C A ε α).wp S θ Q E s :=
  fun t hst _ => hE s t hst h

theorem wp_bind {f : α → Calls C A ε β} {Q : β → σ → Prop}
    (h : x.wp S θ (fun a t => (f a).wp S θ Q E t) E s) : (x >>= f).wp S θ Q E s := by
  show (x.bind f).wp S θ Q E s
  induction x generalizing s with
  | ret a => exact wp_of_rely h
  | throw e => exact h
  | call c k ih =>
      intro t hst ht
      obtain ⟨hdemands, hnext⟩ := h t hst ht
      exact ⟨hdemands, fun a u hau => ih a (hnext a u hau)⟩

theorem wp_tryCatch {handler : ε → Calls C A ε α}
    (h : x.wp S θ Q (fun e t => (handler e).wp S θ Q E t) s) :
    (x.tryCatch handler).wp S θ Q E s := by
  induction x generalizing s with
  | ret a => exact h
  | throw e => exact wp_of_rely h
  | call c k ih =>
      intro t hst ht
      obtain ⟨hdemands, hnext⟩ := h t hst ht
      exact ⟨hdemands, fun a u hau => ih a (hnext a u hau)⟩

/-- What holds where a program returns holds after whatever the others do next. -/
theorem wp_later (h : x.wp S θ Q E s) :
    x.wp S θ (fun a t => ∀ u, S.rely θ t u → S.inv u → Q a u) E s := by
  induction x generalizing s with
  | ret a => exact fun t hst _ u htu hu => h u (S.trans hst htu) hu
  | throw e => exact h
  | call c k ih =>
      intro t hst ht
      obtain ⟨hdemands, hnext⟩ := h t hst ht
      exact ⟨hdemands, fun a u hau => ih a (hnext a u hau)⟩

theorem wp_andFinally {last : Calls C A ε Unit}
    (h : x.wp S θ (fun a t => last.wp S θ (fun _ u => Q a u) E t)
      (fun e t => last.wp S θ (fun _ u => E e u) E t) s) :
    (x.andFinally last).wp S θ Q E s := by
  induction x generalizing s with
  | ret a => exact wp_bind (wp_later (wp_of_rely h))
  | throw e => exact wp_bind (wp_later (wp_of_rely h))
  | call c k ih =>
      intro t hst ht
      obtain ⟨hdemands, hnext⟩ := h t hst ht
      exact ⟨hdemands, fun a u hau => ih a (hnext a u hau)⟩

/-- What no call undoes, of this thread or of others, holds to the end. -/
theorem wp_frame {P : σ → Prop} (hrely : S.Stable θ P)
    (hdoes : ∀ s c a t, S.does θ s c a t → P s → P t) (h : x.wp S θ Q E s) (hP : P s) :
    x.wp S θ (fun a t => Q a t ∧ P t) (fun e t => E e t ∧ P t) s := by
  induction x generalizing s with
  | ret a => exact fun t hst ht => ⟨h t hst ht, hrely s t hst hP⟩
  | throw e => exact fun t hst ht => ⟨h t hst ht, hrely s t hst hP⟩
  | call c k ih =>
      intro t hst ht
      obtain ⟨hdemands, hnext⟩ := h t hst ht
      refine ⟨hdemands, fun a u hau => ih a (hnext a u hau) ?_⟩
      exact hdoes t c a u hau (hrely s t hst hP)

/-- A call is made where what the thread knows meets its demands. -/
theorem wp_ask {c : C} {P : σ → Prop} {Q : A c → σ → Prop} (hP : S.Stable θ P)
    (hQ : ∀ a, S.Stable θ (Q a))
    (hcall : ∀ t, S.inv t → P t → S.demands θ c t ∧ ∀ a u, S.does θ t c a u → Q a u) (h : P s) :
    (ask c : Calls C A ε (A c)).wp S θ Q E s := by
  intro t hst ht
  obtain ⟨hdemands, hdoes⟩ := hcall t ht (hP s t hst h)
  exact ⟨hdemands, fun a u hau v huv _ => hQ a u v huv (hdoes a u hau)⟩

theorem wp_ask_bind {c : C} {P : σ → Prop} {f : A c → Calls C A ε α} (hP : S.Stable θ P)
    (hcall : ∀ t, S.inv t → P t → S.demands θ c t ∧
      ∀ a u, S.does θ t c a u → (f a).wp S θ Q E u) (h : P s) :
    (ask c >>= f).wp S θ Q E s :=
  fun t hst ht => hcall t ht (hP s t hst h)

end Rules

end Calls

/-! ## Any number of threads -/

/-- What the threads share, and what is left of the program of each thread
that runs one, with what it was begun for. -/
structure Threads (Θ τ C : Type) (A : C → Type) (ε α σ : Type) where
  shared : σ
  running : Θ → Option (τ × Calls C A ε α)

namespace Threads

open Calls

open Relation (ReflTransGen)

variable {Θ τ C : Type} {A : C → Type} {ε α σ : Type} [DecidableEq Θ]

/-- One thread begins a program, makes a call, or leaves its program, or
something happens without any of them. -/
inductive Step (S : System Θ C A σ) (begins : Θ → σ → τ → Calls C A ε α → Prop) :
    Threads Θ τ C A ε α σ → Threads Θ τ C A ε α σ → Prop
  | began {m : Threads Θ τ C A ε α σ} {θ : Θ} {t : τ} {x : Calls C A ε α}
      (idle : m.running θ = none) (may : begins θ m.shared t x) :
      Step S begins m { m with running := Function.update m.running θ (some (t, x)) }
  | called {m : Threads Θ τ C A ε α σ} {θ : Θ} {t : τ} {c : C} {k : A c → Calls C A ε α}
      {a : A c} {s : σ} (here : m.running θ = some (t, .call c k))
      (does : S.does θ m.shared c a s) :
      Step S begins m ⟨s, Function.update m.running θ (some (t, k a))⟩
  | returned {m : Threads Θ τ C A ε α σ} {θ : Θ} {t : τ} {a : α}
      (here : m.running θ = some (t, .ret a)) :
      Step S begins m { m with running := Function.update m.running θ none }
  | threw {m : Threads Θ τ C A ε α σ} {θ : Θ} {t : τ} {e : ε}
      (here : m.running θ = some (t, .throw e)) :
      Step S begins m { m with running := Function.update m.running θ none }
  | moved {m : Threads Θ τ C A ε α σ} {s : σ} (moves : S.moves m.shared s) :
      Step S begins m { m with shared := s }

/-- Programs that end as they are to end where they are begun by a thread of
which `I` holds, and that leave it so. -/
structure Verified (S : System Θ C A σ) (begins : Θ → σ → τ → Calls C A ε α → Prop)
    (I : Θ → σ → Prop) (Q : Θ → τ → α → σ → Prop) (E : Θ → τ → ε → σ → Prop) : Prop where
  stable : ∀ θ, S.Stable θ (I θ)
  begins : ∀ {θ s t x}, S.inv s → I θ s → begins θ s t x → x.wp S θ (Q θ t) (E θ t) s
  returns : ∀ {θ t a s}, Q θ t a s → I θ s
  throws : ∀ {θ t e s}, E θ t e s → I θ s

/-- **The invariant of a number of threads**: what they share is in order, what
is left of each program will end as the program was to end, and `I` holds of
the threads that run none. -/
structure Sound (S : System Θ C A σ) (I : Θ → σ → Prop) (Q : Θ → τ → α → σ → Prop)
    (E : Θ → τ → ε → σ → Prop) (m : Threads Θ τ C A ε α σ) : Prop where
  inv : S.inv m.shared
  idle : ∀ θ, m.running θ = none → I θ m.shared
  running : ∀ θ t x, m.running θ = some (t, x) → x.wp S θ (Q θ t) (E θ t) m.shared

section Sound

variable {S : System Θ C A σ} {begins : Θ → σ → τ → Calls C A ε α → Prop} {I : Θ → σ → Prop}
  {Q : Θ → τ → α → σ → Prop} {E : Θ → τ → ε → σ → Prop} {m m' : Threads Θ τ C A ε α σ} {θ : Θ}

omit [DecidableEq Θ] in
/-- A program that has come to its return has kept what it was to keep. -/
theorem Sound.at_ret (h : m.Sound S I Q E) {t : τ} {a : α}
    (hx : m.running θ = some (t, .ret a)) : Q θ t a m.shared :=
  h.running θ t _ hx m.shared (S.refl θ _) h.inv

omit [DecidableEq Θ] in
theorem Sound.at_throw (h : m.Sound S I Q E) {t : τ} {e : ε}
    (hx : m.running θ = some (t, .throw e)) : E θ t e m.shared :=
  h.running θ t _ hx m.shared (S.refl θ _) h.inv

/-- One thread runs something else, and the others run what they ran. -/
theorem Sound.update (h : m.Sound S I Q E) {s : σ} (hs : S.inv s)
    {o : Option (τ × Calls C A ε α)} (hothers : ∀ θ' ≠ θ, S.rely θ' m.shared s)
    (hI : ∀ θ, S.Stable θ (I θ)) (hidle : o = none → I θ s)
    (hself : ∀ t x, o = some (t, x) → x.wp S θ (Q θ t) (E θ t) s) :
    Sound S I Q E ⟨s, Function.update m.running θ o⟩ := by
  refine ⟨hs, fun θ' hx => ?_, fun θ' t x hx => ?_⟩
  · by_cases heq : θ' = θ
    · subst heq
      exact hidle (by simpa using hx)
    · exact hI θ' _ _ (hothers θ' heq) (h.idle θ' (by simpa [heq] using hx))
  · by_cases heq : θ' = θ
    · subst heq
      exact hself t x (by simpa using hx)
    · exact wp_rely (h.running θ' t x (by simpa [heq] using hx)) (hothers θ' heq)

theorem Sound.step (hverified : Verified S begins I Q E) (h : m.Sound S I Q E)
    (hstep : Step S begins m m') : m'.Sound S I Q E := by
  cases hstep with
  | @began θ t x idle may =>
      refine h.update h.inv (fun θ' _ => S.refl θ' _) hverified.stable nofun ?_
      intro _ _ heq
      cases heq
      exact hverified.begins h.inv (h.idle θ idle) may
  | @called θ t c k a s here does =>
      obtain ⟨hdemands, hnext⟩ := h.running θ t _ here m.shared (S.refl θ _) h.inv
      refine h.update (S.keeps h.inv hdemands does) ?_ hverified.stable nofun ?_
      · exact fun θ' hne => S.others hne h.inv hdemands does
      · intro _ _ heq
        cases heq
        exact hnext a s does
  | returned here =>
      refine h.update h.inv (fun θ' _ => S.refl θ' _) hverified.stable ?_ nofun
      exact fun _ => hverified.returns (h.at_ret here)
  | threw here =>
      refine h.update h.inv (fun θ' _ => S.refl θ' _) hverified.stable ?_ nofun
      exact fun _ => hverified.throws (h.at_throw here)
  | moved moves =>
      refine ⟨S.keepsMoved h.inv moves, fun θ hx => ?_, fun θ t x hx => ?_⟩
      · exact hverified.stable θ _ _ (S.moved moves) (h.idle θ hx)
      · exact wp_rely (h.running θ t x hx) (S.moved moves)

theorem Sound.run (hverified : Verified S begins I Q E) (h : m.Sound S I Q E)
    (hrun : ReflTransGen (Step S begins) m m') : m'.Sound S I Q E := by
  refine Runs.invariant (fun a b ha hab => ?_) hrun h
  exact ha.step hverified hab

end Sound

end Threads
