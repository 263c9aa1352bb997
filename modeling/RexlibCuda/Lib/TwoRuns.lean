import RexlibCuda.Lib.Prog

/-! Two runs side by side, of programs that start from related states. They
agree where both return the same or both throw the same, and end in related
states; the rules carry that along the syntax. -/

namespace Prog

variable {ε σ α β : Type} {E E' : σ → σ → Prop} {R : α → σ → σ → Prop} {R' : β → σ → σ → Prop}
  {I : σ → σ → Prop} {x x' : Prog ε σ α} {s s' : σ}

/-- The two runs end alike: the one of `x` from `s`, and that of `x'` from `s'`. -/
structure Agree (E : σ → σ → Prop) (R : α → σ → σ → Prop) (x x' : Prog ε σ α) (s s' : σ) : Prop where
  result : (x' s').1 = (x s).1
  returned : ∀ a, (x s).1 = .ok a → R a (x s).2 (x' s').2
  thrown : ∀ e, (x s).1 = .error e → E (x s).2 (x' s').2

namespace Agree

/-- Where it does not matter how the runs end. -/
theorem intro (hresult : (x' s').1 = (x s).1) (hfinal : I (x s).2 (x' s').2) :
    Agree I (fun _ => I) x x' s s' := ⟨hresult, fun _ _ => hfinal, fun _ _ => hfinal⟩

theorem mono (h : Agree E R x x' s s') (hE : ∀ t t', E t t' → I t t')
    (hR : ∀ a t t', R a t t' → I t t') : Agree I (fun _ => I) x x' s s' where
  result := h.result
  returned a ha := hR a _ _ (h.returned a ha)
  thrown e he := hE _ _ (h.thrown e he)

theorem final (h : Agree I (fun _ => I) x x' s s') : I (x s).2 (x' s').2 := by
  cases hresult : (x s).1 with
  | ok a => exact h.returned a hresult
  | error e => exact h.thrown e hresult

theorem pure (a : α) (h : R a s s') :
    Agree E R (Pure.pure a : Prog ε σ α) (Pure.pure a) s s' where
  result := rfl
  returned a' ha := by
    obtain rfl := Except.ok.inj ha
    exact h
  thrown _ he := nomatch he

theorem throw (e : ε) (h : E s s') :
    Agree E R (Prog.throw e : Prog ε σ α) (Prog.throw e) s s' where
  result := rfl
  returned _ ha := nomatch ha
  thrown _ _ := h

theorem modify {f f' : σ → σ} (h : I (f s) (f' s')) :
    Agree E (fun _ => I) (Prog.modify f : Prog ε σ Unit) (Prog.modify f') s s' where
  result := rfl
  returned _ _ := h
  thrown _ he := nomatch he

/-- What the two go on with may depend on the states they are in. -/
theorem get_bind {f f' : σ → Prog ε σ α} (h : Agree E R (f s) (f' s') s s') :
    Agree E R (get >>= f) (get >>= f') s s' := ⟨h.result, h.returned, h.thrown⟩

/-- What is known of the one run helps to go on with both. -/
theorem bind_of {Q : α → σ → Prop} {f f' : α → Prog ε σ β} (hx : Agree E R x x' s s')
    (hQ : wp x Q (fun _ _ => True) s)
    (hf : ∀ a t t', Q a t → R a t t' → Agree E R' (f a) (f' a) t t') :
    Agree E R' (x >>= f) (x' >>= f') s s' := by
  obtain ⟨hresult, hreturned, hthrown⟩ := hx
  cases hrun : x s with
  | mk result t =>
      cases hrun' : x' s' with
      | mk result' t' =>
          simp only [hrun, hrun'] at hresult hreturned hthrown
          subst hresult
          cases result' with
          | ok a =>
              have hbind : (x >>= f) s = f a t := by simp only [Bind.bind, hrun]
              have hbind' : (x' >>= f') s' = f' a t' := by simp only [Bind.bind, hrun']
              have hrest := hf a t t' (wp_returned hQ hrun) (hreturned a rfl)
              constructor
              · rw [hbind, hbind']
                exact hrest.result
              · rw [hbind, hbind']
                exact hrest.returned
              · rw [hbind, hbind']
                exact hrest.thrown
          | error e =>
              have hbind : (x >>= f) s = (.error e, t) := by simp only [Bind.bind, hrun]
              have hbind' : (x' >>= f') s' = (.error e, t') := by simp only [Bind.bind, hrun']
              constructor
              · rw [hbind, hbind']
              · intro b hb
                rw [hbind] at hb
                cases hb
              · intro e' _
                rw [hbind, hbind']
                exact hthrown e rfl

theorem bind {f f' : α → Prog ε σ β} (hx : Agree E R x x' s s')
    (hf : ∀ a t t', R a t t' → Agree E R' (f a) (f' a) t t') :
    Agree E R' (x >>= f) (x' >>= f') s s' := by
  have htrue : wp x (fun _ _ => True) (fun _ _ => True) s :=
    wp_mono (wp_run x s) (fun _ _ _ => trivial) fun _ _ _ => trivial
  exact hx.bind_of htrue fun a t t' _ => hf a t t'

theorem tryCatch {handler handler' : ε → Prog ε σ α} (hx : Agree E R x x' s s')
    (hh : ∀ e t t', E t t' → Agree E' R (handler e) (handler' e) t t') :
    Agree E' R (Prog.tryCatch x handler) (Prog.tryCatch x' handler') s s' := by
  obtain ⟨hresult, hreturned, hthrown⟩ := hx
  cases hrun : x s with
  | mk result t =>
      cases hrun' : x' s' with
      | mk result' t' =>
          simp only [hrun, hrun'] at hresult hreturned hthrown
          subst hresult
          cases result' with
          | ok a =>
              have hcatch : Prog.tryCatch x handler s = (.ok a, t) := by
                simp only [Prog.tryCatch, hrun]
              have hcatch' : Prog.tryCatch x' handler' s' = (.ok a, t') := by
                simp only [Prog.tryCatch, hrun']
              constructor
              · rw [hcatch, hcatch']
              · intro a' ha
                rw [hcatch] at ha ⊢
                rw [hcatch']
                exact hreturned a' ha
              · intro e he
                rw [hcatch] at he
                cases he
          | error e =>
              have hcatch : Prog.tryCatch x handler s = handler e t := by
                simp only [Prog.tryCatch, hrun]
              have hcatch' : Prog.tryCatch x' handler' s' = handler' e t' := by
                simp only [Prog.tryCatch, hrun']
              have hrest := hh e t t' (hthrown e rfl)
              constructor
              · rw [hcatch, hcatch']
                exact hrest.result
              · rw [hcatch, hcatch']
                exact hrest.returned
              · rw [hcatch, hcatch']
                exact hrest.thrown

theorem forEach {body body' : β → Prog ε σ Unit}
    (hbody : ∀ b t t', I t t' → Agree E (fun _ => I) (body b) (body' b) t t') (bs : List β) :
    ∀ s s', I s s' → Agree E (fun _ => I) (Prog.forEach body bs) (Prog.forEach body' bs) s s' := by
  induction bs with
  | nil => exact fun s s' h => pure () h
  | cons b bs ih => exact fun s s' h => (hbody b s s' h).bind fun _ => ih

end Agree

end Prog
