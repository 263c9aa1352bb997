import RexlibCuda.DeviceSelection

/-! What the programs of the backend do with the device their thread has
selected, whatever other threads do meanwhile. -/

namespace RexlibCuda

open Calls

open Relation (ReflTransGen)

namespace Devices

variable {Θ : Type} [DecidableEq Θ] {θ : Θ} {α β : Type} {s t : Devices Θ} {d o : Int} {n : Nat}
  {l : List Handle} {P : Devices Θ → Prop} {Q : α → Devices Θ → Prop} {E : Exn → Devices Θ → Prop}

/-- What a thread knows of itself: the device it has selected, how often it has
failed to select one, and what it has had made that nothing owns. -/
structure Known (θ : Θ) (d : Int) (n : Nat) (l : List Handle) (s : Devices Θ) : Prop where
  current : s.current θ = d
  failures : s.failures θ = n
  loose : s.loose θ = l

/-- **How a thread is left that had selected `d`**: as it was, unless it has
failed to select a device since. -/
structure Restored (θ : Θ) (d : Int) (n : Nat) (l : List Handle) (s : Devices Θ) : Prop where
  current : s.current θ = d ∨ n < s.failures θ
  loose : s.loose θ = l

/-- What stays true while objects are made. -/
def Lasting (P : Devices Θ → Prop) : Prop := ∀ s t : Devices Θ, s.Grows t → P s → P t

omit [DecidableEq Θ] in
theorem Known.restored (h : Known θ d n l s) : Restored θ d n l s := ⟨.inl h.current, h.loose⟩

theorem Known.stable : (system Θ).Stable θ (Known θ d n l) := by
  intro s t hst h
  exact ⟨hst.2.current.trans h.current, hst.2.failures.trans h.failures,
    hst.2.loose.trans h.loose⟩

theorem Restored.stable : (system Θ).Stable θ (Restored θ d n l) := by
  intro s t hst h
  refine ⟨?_, hst.2.loose.trans h.loose⟩
  rw [hst.2.current, hst.2.failures]
  exact h.current

theorem Lasting.stable (h : Lasting P) : (system Θ).Stable θ P := fun s t hst => h s t hst.1

omit [DecidableEq Θ] in
theorem lasting_made (handle : Handle) (home : Home) :
    Lasting fun s : Devices Θ => s.made handle = some home := fun _ _ h => h.made _ _

omit [DecidableEq Θ] in
theorem lasting_serves (r : Nat) (ordinal : Int) :
    Lasting fun s : Devices Θ => s.Serves r ordinal := fun _ _ h hs => hs.grows h

omit [DecidableEq Θ] in
theorem lasting_outfits (device : DeviceHandle) :
    Lasting fun s : Devices Θ => s.Outfits device := fun _ _ h hs => hs.grows h

omit [DecidableEq Θ] in
theorem lasting_hasTicket (r : Nat) (ticket : Ticket) :
    Lasting fun s : Devices Θ => s.HasTicket r ticket := fun _ _ h hs => hs.grows h

/-- What lasts holds to the end of any program. -/
theorem Lasting.frame (hlasting : Lasting P) {x : Backend α} (h : x.wp (system Θ) θ Q E s)
    (hP : P s) : x.wp (system Θ) θ (fun a t => Q a t ∧ P t) (fun e t => E e t ∧ P t) s :=
  wp_frame hlasting.stable (fun s _ _ t hst => hlasting s t hst.grows) h hP

/-! ## Checks and memory of the host -/

/-- The return code is found to be good, or something is thrown. -/
def Checks (checked : CudaError → Backend Unit) : Prop :=
  ∀ code, code = .success ∧ checked code = pure () ∨
    code ≠ .success ∧ ∃ e, checked code = .throw e

theorem check_checks : Checks check := by
  intro code
  by_cases hcode : code = .success
  · exact .inl ⟨hcode, if_neg (not_not_intro hcode)⟩
  · exact .inr ⟨hcode, .error, if_pos hcode⟩

theorem checkAllocation_checks : Checks checkAllocation := by
  intro code
  by_cases hcode : code = .memoryAllocation
  · exact .inr ⟨by simp [hcode], .badAlloc, if_pos hcode⟩
  · rw [checkAllocation, if_neg hcode]
    exact check_checks code

theorem Checks.spec {checked : CudaError → Backend Unit} (hchecked : Checks checked)
    {Q : Unit → Devices Θ → Prop} {code : CudaError} (hQ : (system Θ).Stable θ (Q ()))
    (hE : ∀ e, (system Θ).Stable θ (E e)) (hgood : code = .success → Q () s)
    (hbad : code ≠ .success → ∀ e, E e s) : (checked code).wp (system Θ) θ Q E s := by
  rcases hchecked code with ⟨hcode, heq⟩ | ⟨hcode, e, heq⟩
  · rw [heq]
    exact wp_ret hQ (hgood hcode)
  · rw [heq]
    exact wp_throw (hE e) (hbad hcode e)

theorem hostMemory_spec (hP : (system Θ).Stable θ P) (h : P s) :
    hostMemory.wp (system Θ) θ (fun _ t => P t) (fun _ t => P t) s := by
  refine wp_ask_bind hP (fun t _ hPt => ⟨trivial, fun granted u hau => ?_⟩) h
  cases hau
  cases granted with
  | true => exact wp_ret (a := ()) hP hPt
  | false => exact wp_throw (e := Exn.badAlloc) hP hPt

omit [DecidableEq Θ] in
/-- Calls of the driver that select nothing and make nothing. -/
theorem Restored.note (h : Restored θ d n l s) (c : DriverCall) :
    Restored θ d n l (s.note c) := by
  cases c <;> exact ⟨h.current, h.loose⟩

theorem driver_spec {c : DriverCall} (h : Restored θ d n l s) (hlasting : Lasting P) (hP : P s)
    (hdemands : ∀ t : Devices Θ, P t → t.Demands (.driver c)) :
    (request (.driver c)).wp (system Θ) θ (fun _ t => Restored θ d n l t) E s := by
  refine wp_ask (stable_and Restored.stable hlasting.stable) (fun _ => Restored.stable) ?_ ⟨h, hP⟩
  rintro t - ⟨hrestored, hPt⟩
  refine ⟨hdemands t hPt, ?_⟩
  intro code u hau
  cases hau
  exact hrestored.note c

/-- A call of the driver whose return code is checked. -/
theorem driverCheck_spec {c : DriverCall} (h : Restored θ d n l s) (hlasting : Lasting P)
    (hP : P s) (hdemands : ∀ t : Devices Θ, P t → t.Demands (.driver c)) :
    (do let code ← request (.driver c); check code : Backend Unit).wp (system Θ) θ
      (fun _ t => Restored θ d n l t) (fun _ t => Restored θ d n l t) s := by
  apply wp_bind
  refine wp_mono (driver_spec h hlasting hP hdemands) ?_ fun _ _ h => h
  intro code t ht
  exact check_checks.spec Restored.stable (fun _ => Restored.stable) (fun _ => ht) fun _ _ => ht

theorem driverCheck_plain {c : DriverCall} (h : Restored θ d n l s)
    (hdemands : ∀ t : Devices Θ, t.Demands (.driver c)) :
    (do let code ← request (.driver c); check code : Backend Unit).wp (system Θ) θ
      (fun _ t => Restored θ d n l t) (fun _ t => Restored θ d n l t) s :=
  driverCheck_spec h (P := fun _ => True) (fun _ _ _ h => h) trivial fun t _ => hdemands t

/-- One whose failure is only reported. -/
theorem driverNoThrow_spec {c : DriverCall} (h : Restored θ d n l s)
    (hdemands : ∀ t : Devices Θ, t.Demands (.driver c)) :
    (do let code ← request (.driver c); checkNoThrow code : Backend Unit).wp (system Θ) θ
      (fun _ t => Restored θ d n l t) E s := by
  apply wp_bind
  refine wp_mono (driver_spec h (P := fun _ => True) (fun _ _ _ h => h) trivial
    fun t _ => hdemands t) ?_ fun _ _ h => h
  exact fun code t ht => wp_ret (a := ()) Restored.stable ht

/-! ## Under a guard -/

theorem Known.selected (h : Known θ d n l s) : Known θ o n l (s.select θ o) :=
  ⟨Function.update_self .., h.failures, h.loose⟩

/-- One that could not be selected is one failure more. -/
theorem Known.notSelected (h : Known θ o n l s) (left : Int) :
    Restored θ d n l ((s.select θ left).fail θ) := by
  have hlt : n < ((s.select θ left).fail θ).failures θ := by
    simp [fail, select, h.failures]
  exact ⟨.inr hlt, h.loose⟩

namespace DeviceGuard

open RexlibCuda.DeviceGuard

/-- **The constructor of a guard**: the device is selected, and what has to be
selected again is remembered. -/
theorem construct_spec (h : Known θ d n l s) :
    (construct o).wp (system Θ) θ (fun previous t => Known θ o n l t ∧
        (previous = noSelection ∧ d = o ∨ previous = d ∧ d ≠ noSelection))
      (fun _ t => Restored θ d n l t) s := by
  have hend : ∀ previous, (system Θ).Stable θ fun t => Known θ o n l t ∧
      (previous = noSelection ∧ d = o ∨ previous = d ∧ d ≠ noSelection) :=
    fun previous s t hst h => ⟨Known.stable s t hst h.1, h.2⟩
  refine wp_ask_bind Known.stable (fun t ht hknown => ⟨trivial, ?_⟩) h
  rintro ⟨code, previous⟩ u (told : Does θ t .getDevice (code, previous) u)
  cases told with
  | gotDevice told =>
      apply wp_bind
      refine check_checks.spec (wp_stable _) (fun _ => Restored.stable) ?_ fun _ _ => hknown.restored
      intro hcode
      have hprevious : previous = d := (told hcode).trans hknown.current
      have hpos : 0 ≤ d := hknown.current ▸ ht.selected θ
      have hd : d ≠ noSelection := by
        simp only [noSelection]
        omega
      subst hprevious
      by_cases heq : previous = o
      · -- the device was selected already
        rw [if_neg (not_not_intro heq)]
        subst heq
        exact wp_ret (hend _) ⟨hknown, .inl ⟨rfl, rfl⟩⟩
      · rw [if_pos heq]
        refine wp_ask_bind Known.stable (fun t _ hknown => ⟨trivial, ?_⟩) hknown
        intro code v hav
        apply wp_bind
        cases hav with
        | selected exist =>
            refine check_checks.spec (wp_stable _) (fun _ => Restored.stable) (fun _ => ?_) nofun
            exact wp_ret (hend _) ⟨hknown.selected, .inr ⟨rfl, hd⟩⟩
        | @notSelected _ left _ failed left_ =>
            refine check_checks.spec (wp_stable _) (fun _ => Restored.stable) ?_ ?_
            · exact fun hcode => absurd hcode failed
            · exact fun _ _ => hknown.notSelected left

/-- **Its destructor** selects what had been selected. -/
theorem destruct_spec {previous : Int} (h : Known θ o n l s)
    (hprevious : previous = noSelection ∧ d = o ∨ previous = d ∧ d ≠ noSelection) :
    (destruct previous).wp (system Θ) θ (fun _ t => Restored θ d n l t) (fun _ _ => False) s := by
  rcases hprevious with ⟨rfl, rfl⟩ | ⟨rfl, hd⟩
  · exact wp_ret Restored.stable h.restored
  · rw [destruct, if_pos hd]
    refine wp_ask_bind Known.stable (fun t _ hknown => ⟨trivial, ?_⟩) h
    intro code u hau
    have hend : Restored θ previous n l u := by
      cases hau with
      | selected exist => exact hknown.selected.restored
      | @notSelected _ left _ failed left_ => exact hknown.notSelected left
    exact wp_ret (a := ()) Restored.stable hend

/-- **A scope under a guard** leaves the selection as it was, whichever way the
scope is left, and is under the device itself. -/
theorem scope_spec {body : Backend α} {made : α → List Handle} {R : α → Devices Θ → Prop}
    (hR : ∀ a, Lasting (R a)) (h : Known θ d n l s)
    (hbody : ∀ t, Known θ o n l t → body.wp (system Θ) θ
      (fun a u => Known θ o n (made a) u ∧ R a u) (fun _ u => Known θ o n l u) t) :
    (scope o body).wp (system Θ) θ (fun a t => Restored θ d n (made a) t ∧ R a t)
      (fun _ t => Restored θ d n l t) s := by
  apply wp_bind
  refine wp_mono (construct_spec h) ?_ fun _ _ h => h
  rintro previous t ⟨hknown, hprevious⟩
  apply wp_andFinally
  refine wp_mono (hbody t hknown) ?_ ?_
  · rintro a u ⟨hknown, hRa⟩
    exact wp_mono ((hR a).frame (destruct_spec hknown hprevious) hRa) (fun _ _ h => h)
      fun _ _ h => h.1.elim
  · intro e u hknown
    exact wp_mono (destruct_spec hknown hprevious) (fun _ _ h => h) fun _ _ h => h.elim

end DeviceGuard

/-- What the driver makes is where it makes it for the thread. -/
theorem makeChecked_spec {checked : CudaError → Backend Unit} (hchecked : Checks checked)
    {what : Making} (h : Known θ o n l s) :
    (makeChecked checked what).wp (system Θ) θ
      (fun handle t => Known θ o n (handle :: l) t ∧ t.made handle = some (what.home o))
      (fun _ t => Known θ o n l t) s := by
  have hend : ∀ handle, (system Θ).Stable θ fun t =>
      Known θ o n (handle :: l) t ∧ t.made handle = some (what.home o) :=
    fun handle => stable_and Known.stable (lasting_made _ _).stable
  refine wp_ask_bind Known.stable (fun t _ hknown => ⟨trivial, ?_⟩) h
  intro a u hau
  obtain ⟨code, handle⟩ := a
  change Does θ t (.make what) (code, handle) u at hau
  apply wp_bind
  cases hau with
  | made fresh =>
      have hmade : Known θ o n (handle :: l) (t.gain θ handle (what.home (t.current θ))) ∧
          (t.gain θ handle (what.home (t.current θ))).made handle = some (what.home o) := by
        refine ⟨⟨hknown.current, hknown.failures, ?_⟩, ?_⟩
        · simp [gain, hknown.loose]
        · simp [gain, hknown.current]
      refine hchecked.spec (wp_stable _) (fun _ => Known.stable) (fun _ => ?_) ?_
      · exact wp_ret (hend handle) hmade
      · exact fun hfailed => absurd rfl hfailed
  | notMade failed =>
      refine hchecked.spec (wp_stable _) (fun _ => Known.stable) ?_ fun _ _ => hknown
      exact fun hcode => absurd hcode failed

/-- **What is made under a guard is on the device of the guard.** -/
theorem makeOn_spec {checked : CudaError → Backend Unit} (hchecked : Checks checked)
    {what : Making} (h : Known θ d n l s) :
    (makeOn o checked what).wp (system Θ) θ
      (fun handle t => Restored θ d n (handle :: l) t ∧ t.made handle = some (what.home o))
      (fun _ t => Restored θ d n l t) s :=
  DeviceGuard.scope_spec (fun _ => lasting_made _ _) h fun _ hknown =>
    makeChecked_spec hchecked hknown

/-! ## Events -/

theorem event_construct_spec (h : Known θ d n l s) :
    (CudaEvent.construct o).wp (system Θ) θ
      (fun event t => Restored θ d n (event.handle :: l) t ∧ event.ordinal = o ∧
        t.made event.handle = some (.device o))
      (fun _ t => Restored θ d n l t) s := by
  apply wp_bind
  refine wp_mono (makeOn_spec check_checks h) ?_ fun _ _ h => h
  rintro handle t ⟨hrestored, hmade⟩
  refine wp_ret ?_ ⟨hrestored, rfl, hmade⟩
  exact stable_and Restored.stable (stable_and (fun _ _ _ h => h) (lasting_made _ _).stable)

namespace PooledEventRecorder

open RexlibCuda.PooledEventRecorder

variable {r : Nat} {ticket : Ticket} {stream : Handle}

theorem createOn_spec (h : Known θ d n l s) (hserves : s.Serves r o) :
    (createOn r o).wp (system Θ) θ
      (fun ticket t => Restored θ d n l t ∧ t.HasTicket r ticket)
      (fun _ t => Restored θ d n l t) s := by
  have hboth : (system Θ).Stable θ fun t => Known θ d n l t ∧ t.Serves r o :=
    stable_and Known.stable (lasting_serves _ _).stable
  apply wp_bind
  refine wp_mono (hostMemory_spec hboth ⟨h, hserves⟩) ?_ fun _ _ h => h.1.restored
  intro _ t ht
  apply wp_bind
  refine wp_mono (hostMemory_spec hboth ht) ?_ fun _ _ h => h.1.restored
  rintro _ u ⟨hknown, hserves⟩
  apply wp_bind
  refine wp_mono ((lasting_serves r o).frame (event_construct_spec hknown) hserves) ?_
    fun _ _ h => h.1
  rintro event v ⟨⟨hrestored, rfl, hmade⟩, hserves⟩
  -- the event joins those of its recorder, which owns it from then on
  refine wp_ask (stable_and Restored.stable (stable_and (lasting_made _ _).stable
    (lasting_serves _ _).stable)) (fun _ => stable_and Restored.stable (lasting_hasTicket _ _).stable)
    ?_ ⟨hrestored, hmade, hserves⟩
  rintro w - ⟨hrestored, hmade, hserves⟩
  refine ⟨⟨hserves, hmade⟩, ?_⟩
  intro ticket x hdoes
  cases hdoes with
  | eventAdded has =>
      have hlt := (List.getElem?_eq_some_iff.mp has).1
      refine ⟨⟨hrestored.current, ?_⟩, _, List.getElem?_set_self hlt, Nat.succ_pos _, ?_⟩
      · simp [owned, setRecorder, hrestored.loose]
      · simp

theorem acquireOn_spec (h : Known θ d n l s) (hserves : s.Serves r o) :
    (acquireOn r o).wp (system Θ) θ
      (fun ticket t => Restored θ d n l t ∧ t.HasTicket r ticket)
      (fun _ t => Restored θ d n l t) s := by
  refine wp_ask_bind (stable_and Known.stable (lasting_serves r o).stable) ?_ ⟨h, hserves⟩
  rintro t ht ⟨hknown, hserves⟩
  refine ⟨⟨o, hserves⟩, ?_⟩
  intro available u hdoes
  have hserves' := hserves.grows hdoes.grows
  have hknown' : Known θ d n l u := by
    cases hdoes
    exact ⟨hknown.current, hknown.failures, hknown.loose⟩
  cases available with
  | none => exact createOn_spec hknown' hserves'
  | some ticket =>
      refine wp_ret (stable_and Restored.stable (lasting_hasTicket _ _).stable)
        ⟨hknown'.restored, ?_⟩
      generalize hfirst : some ticket = first at hdoes
      cases hdoes with
      | taken has =>
          -- the tickets that are available are those of events
          have hmem := List.mem_of_head? hfirst.symm
          have hticket : t.HasTicket r ticket :=
            ⟨_, has, ht.available _ (List.mem_of_getElem? has) ticket hmem⟩
          exact hticket.grows (grows_setRecorder has rfl List.prefix_rfl)

theorem getEvent_spec (h : Restored θ d n l s) (hserves : s.Serves r o)
    (hticket : s.HasTicket r ticket) :
    (getEvent r ticket).wp (system Θ) θ
      (fun event t => Restored θ d n l t ∧ t.made event.handle = some (.device o)) E s := by
  refine wp_ask (stable_and Restored.stable (stable_and (lasting_serves r o).stable
    (lasting_hasTicket r ticket).stable)) (fun _ => stable_and Restored.stable (lasting_made _ _).stable)
    ?_ ⟨h, hserves, hticket⟩
  rintro t ht ⟨hrestored, ⟨pool, hpool, rfl⟩, hticket⟩
  refine ⟨hticket, ?_⟩
  intro event u hdoes
  cases hdoes with
  | gotEvent has at_ =>
      rw [has] at hpool
      cases hpool
      have hevent := ht.events _ (List.mem_of_getElem? has) event (List.mem_of_getElem? at_)
      exact ⟨hrestored, hevent.1 ▸ hevent.2⟩

theorem releaseTo_spec (h : Restored θ d n l s) (hticket : s.HasTicket r ticket) :
    (releaseTo r ticket).wp (system Θ) θ (fun _ t => Restored θ d n l t) E s := by
  unfold releaseTo
  split
  · exact wp_ret Restored.stable h
  · refine wp_ask (stable_and Restored.stable (lasting_hasTicket r ticket).stable)
      (fun _ => Restored.stable) ?_ ⟨h, hticket⟩
    rintro t - ⟨hrestored, hticket⟩
    refine ⟨hticket, ?_⟩
    intro _ u hdoes
    cases hdoes
    exact ⟨hrestored.current, hrestored.loose⟩

/-- **`record`** captures a stream of the device in an event of the device. -/
theorem recordOn_spec (h : Known θ d n l s) (hserves : s.Serves r o)
    (hstream : s.made stream = some (.device o)) :
    (recordOn r o stream).wp (system Θ) θ (fun _ t => Restored θ d n l t)
      (fun _ t => Restored θ d n l t) s := by
  have hfacts : Lasting fun t : Devices Θ =>
      t.Serves r o ∧ t.made stream = some (.device o) :=
    fun _ _ hg h => ⟨h.1.grows hg, hg.made _ _ h.2⟩
  apply wp_bind
  refine wp_mono (hfacts.frame (acquireOn_spec h hserves) ⟨hserves, hstream⟩) ?_ fun _ _ h => h.1
  rintro ticket t ⟨⟨hrestored, hticket⟩, hserves, hstream⟩
  apply wp_bind
  apply wp_tryCatch
  refine wp_mono (Q := fun _ u => Restored θ d n l u ∧ u.HasTicket r ticket)
    (E := fun _ u => Restored θ d n l u ∧ u.HasTicket r ticket) ?_ ?_ ?_
  · refine (lasting_hasTicket r ticket).frame ?_ hticket
    apply wp_bind
    refine wp_mono ((lasting_made stream _).frame (getEvent_spec hrestored hserves hticket) hstream)
      ?_ fun _ _ h => h.1
    rintro event u ⟨⟨hrestored, hevent⟩, hstream⟩
    have hmade : Lasting fun v : Devices Θ => v.made event.handle = some (.device o) ∧
        v.made stream = some (.device o) := fun _ _ hg h => ⟨hg.made _ _ h.1, hg.made _ _ h.2⟩
    exact driverCheck_spec hrestored hmade ⟨hevent, hstream⟩ fun _ h => ⟨o, h⟩
  · rintro _ u ⟨hrestored, -⟩
    exact wp_ret Restored.stable hrestored
  · rintro e u ⟨hrestored, hticket⟩
    apply wp_bind
    refine wp_mono (releaseTo_spec hrestored hticket) ?_ fun _ _ h => h
    exact fun _ v hv => wp_throw Restored.stable hv

/-- So does asking about a ticket, waiting for it or having a stream wait for it. -/
theorem ofTicket_spec {f : CudaEvent → Backend β}
    (h : Restored θ d n l s) (hticket : s.HasTicket r ticket)
    (hf : ∀ event t, Restored θ d n l t → (f event).wp (system Θ) θ
      (fun _ u => Restored θ d n l u) (fun _ u => Restored θ d n l u) t) :
    (getEvent r ticket >>= f).wp (system Θ) θ (fun _ t => Restored θ d n l t)
      (fun _ t => Restored θ d n l t) s := by
  obtain ⟨pool, hpool, hhas⟩ := hticket
  apply wp_bind
  refine wp_mono (getEvent_spec (E := fun _ _ => False) h ⟨pool, hpool, rfl⟩ ⟨pool, hpool, hhas⟩) ?_
    fun _ _ h => h.elim
  exact fun event t ht => hf event t ht.1

theorem isComplete_spec (h : Restored θ d n l s) (hticket : s.HasTicket r ticket) :
    (isComplete r ticket).wp (system Θ) θ (fun _ t => Restored θ d n l t)
      (fun _ t => Restored θ d n l t) s := by
  refine ofTicket_spec h hticket fun event t ht => ?_
  apply wp_bind
  refine wp_mono (driver_spec ht (P := fun _ => True) (fun _ _ _ h => h) trivial
    fun _ _ => trivial) ?_ fun _ _ h => h
  intro code u hu
  cases code with
  | success => exact wp_ret Restored.stable hu
  | notReady => exact wp_ret Restored.stable hu
  | _ =>
      apply wp_bind
      exact check_checks.spec (wp_stable _) (fun _ => Restored.stable) nofun fun _ _ => hu

end PooledEventRecorder

/-! ## Queues and devices -/

theorem makeEvents_spec (h : Known θ d n l s) :
    (CudaDevice.makeEvents o).wp (system Θ) θ
      (fun events t => Known θ d n l t ∧ t.Serves events o)
      (fun _ t => Restored θ d n l t) s := by
  apply wp_bind
  refine wp_mono (hostMemory_spec Known.stable h) ?_ fun _ _ h => h.restored
  intro _ t hknown
  refine wp_ask Known.stable
    (fun _ => stable_and Known.stable (lasting_serves _ _).stable) (fun u _ hknown => ⟨trivial, ?_⟩)
    hknown
  intro events v hdoes
  cases hdoes
  refine ⟨⟨hknown.current, hknown.failures, hknown.loose⟩, ⟨o, [], []⟩, ?_, rfl⟩
  simp

theorem makeMemory_spec (h : Known θ d n l s) :
    (CudaDevice.makeMemory o).wp (system Θ) θ
      (fun memory t => Known θ d n l t ∧ ∀ ordinal ∈ memory, ordinal = o)
      (fun _ t => Restored θ d n l t) s := by
  have hend : ∀ memory : Option Int, (system Θ).Stable θ fun t =>
      Known θ d n l t ∧ ∀ ordinal ∈ memory, ordinal = o :=
    fun _ => stable_and Known.stable fun _ _ _ h => h
  refine wp_ask_bind Known.stable (fun t _ hknown => ⟨trivial, fun kind u hdoes => ?_⟩) h
  cases hdoes
  split
  · apply wp_bind
    refine wp_mono (hostMemory_spec Known.stable hknown) ?_ fun _ _ h => h.restored
    intro _ v hv
    refine wp_ret (hend _) ⟨hv, ?_⟩
    simp
  · exact wp_ret (hend _) ⟨hknown, nofun⟩

/-- **The constructor of a device** makes its recorder for the device it is of,
and its memory too. -/
theorem construct_spec (h : Known θ d n l s) :
    (CudaDevice.construct o).wp (system Θ) θ
      (fun device t => Known θ d n l t ∧ device.ordinal = o ∧ t.Outfits device)
      (fun _ t => Restored θ d n l t) s := by
  apply wp_bind
  refine wp_mono (makeEvents_spec h) ?_ fun _ _ h => h
  rintro events t ⟨hknown, hserves⟩
  apply wp_bind
  refine wp_mono ((lasting_serves events o).frame (makeMemory_spec hknown) hserves) ?_
    fun _ _ h => h.1
  rintro memory u ⟨⟨hknown, hmemory⟩, hserves⟩
  refine wp_ret ?_ ⟨hknown, rfl, hserves, hmemory⟩
  exact stable_and Known.stable (stable_and (fun _ _ _ h => h) (lasting_outfits _).stable)

theorem makeShared_spec (h : Known θ d n l s) :
    (CudaDevice.makeShared o).wp (system Θ) θ (fun _ t => Restored θ d n l t)
      (fun _ t => Restored θ d n l t) s := by
  apply wp_bind
  refine wp_mono (hostMemory_spec Known.stable h) ?_ fun _ _ h => h.restored
  intro _ t hknown
  apply wp_bind
  refine wp_mono (construct_spec hknown) ?_ fun _ _ h => h
  rintro device u ⟨hknown, -, houtfits⟩
  refine wp_ask (stable_and Known.stable (lasting_outfits device).stable)
    (fun _ => Restored.stable) ?_ ⟨hknown, houtfits⟩
  rintro v - ⟨hknown, houtfits⟩
  refine ⟨houtfits, ?_⟩
  intro _ w hdoes
  cases hdoes
  exact ⟨.inl hknown.current, hknown.loose⟩

theorem createCommandQueue_spec {device : DeviceHandle} (h : Known θ d n l s)
    (hserves : s.Serves device.events device.ordinal) :
    (CudaDevice.createCommandQueue device).wp (system Θ) θ (fun _ t => Restored θ d n l t)
      (fun _ t => Restored θ d n l t) s := by
  have hboth : (system Θ).Stable θ fun t =>
      Known θ d n l t ∧ t.Serves device.events device.ordinal :=
    stable_and Known.stable (lasting_serves _ _).stable
  apply wp_bind
  refine wp_mono (hostMemory_spec hboth ⟨h, hserves⟩) ?_ fun _ _ h => h.1.restored
  intro _ t ht
  apply wp_bind
  apply wp_bind
  refine wp_mono (hostMemory_spec hboth ht) ?_ fun _ _ h => h.1.restored
  rintro _ u ⟨hknown, hserves⟩
  apply wp_bind
  refine wp_mono ((lasting_serves _ _).frame (makeOn_spec check_checks hknown) hserves) ?_
    fun _ _ h => h.1
  rintro stream v ⟨⟨hrestored, hmade⟩, hserves⟩
  refine wp_ret (wp_stable _) ?_
  refine wp_ask (stable_and Restored.stable (stable_and (lasting_made _ _).stable
    (lasting_serves _ _).stable)) (fun _ => Restored.stable) ?_ ⟨hrestored, hmade, hserves⟩
  rintro w - ⟨hrestored, hmade, hserves⟩
  refine ⟨⟨hmade, hserves⟩, ?_⟩
  intro _ x hdoes
  cases hdoes
  exact ⟨hrestored.current, by simp [owned, hrestored.loose]⟩

/-! ## Any number of threads -/

/-- **How an operation ends**: the thread has selected what it had, unless the
operation was to select a device or failed to; and what it has had made is owned
by an object, but for what is returned. -/
structure Ended (θ : Θ) (task : Task) (a : Option Handle) (t : Devices Θ) : Prop where
  current : task.operation.selects = true ∨ t.current θ = task.current ∨
    task.failures < t.failures θ
  loose : t.loose θ = a.toList ++ task.loose
  home : ∀ handle ∈ a, t.made handle = some task.operation.home

theorem Ended.stable {task : Task} (a : Option Handle) :
    (system Θ).Stable θ (Ended θ task a) := by
  intro s t hst h
  refine ⟨?_, hst.2.loose.trans h.loose, fun handle hh => hst.1.made _ _ (h.home handle hh)⟩
  rw [hst.2.current, hst.2.failures]
  exact h.current

theorem quietly_spec {task : Task} {x : Backend α}
    (h : x.wp (system Θ) θ (fun _ t => Restored θ task.current task.failures task.loose t)
      (fun _ t => Restored θ task.current task.failures task.loose t) s) :
    (quietly x).wp (system Θ) θ (Ended θ task) (fun _ => Ended θ task none) s := by
  have hend : ∀ t, Restored θ task.current task.failures task.loose t → Ended θ task none t :=
    fun t ht => ⟨.inr ht.current, ht.loose, nofun⟩
  apply wp_bind
  refine wp_mono h ?_ fun _ t ht => hend t ht
  exact fun _ t ht => wp_ret (Ended.stable none) (hend t ht)

/-- **Every operation ends so.** -/
theorem program_spec {task : Task} {x : Backend (Option Handle)} (hs : s.Coherent)
    (h : Begins θ s task x) :
    x.wp (system Θ) θ (Ended θ task) (fun _ => Ended θ task none) s := by
  obtain ⟨rfl, hallowed, hcurrent, hfailures, hloose⟩ := h
  have hknown : Known θ task.current task.failures task.loose s :=
    ⟨hcurrent.symm, hfailures.symm, hloose.symm⟩
  have hrestored := hknown.restored
  obtain ⟨operation, d, n, l⟩ := task
  cases operation with
  | createDevice ordinal => exact quietly_spec (makeShared_spec hknown)
  | createCommandQueue device =>
      -- it has the recorder its constructor made
      exact quietly_spec (createCommandQueue_spec hknown (hs.devices device hallowed).1)
  | destroyQueue queue => exact quietly_spec (driverNoThrow_spec hrestored fun _ => trivial)
  | synchronize queue => exact quietly_spec (driverCheck_plain hrestored fun _ => trivial)
  | record queue ordinal =>
      obtain ⟨hqueue, hserves⟩ := hallowed
      obtain ⟨hstream, pool', hpool', hordinal'⟩ := hs.queues queue hqueue
      -- the recorder is the one the queue was made with
      have hordinal : queue.ordinal = ordinal := by
        obtain ⟨pool, hpool, hordinal⟩ := hserves
        rw [hpool] at hpool'
        cases hpool'
        exact hordinal'.symm.trans hordinal
      exact quietly_spec (PooledEventRecorder.recordOn_spec hknown hserves (hordinal ▸ hstream))
  | isComplete recorder ticket =>
      exact quietly_spec (PooledEventRecorder.isComplete_spec hrestored hallowed)
  | wait recorder ticket =>
      refine quietly_spec (PooledEventRecorder.ofTicket_spec hrestored hallowed ?_)
      exact fun event t ht => driverCheck_plain ht fun _ => trivial
  | release recorder ticket =>
      exact quietly_spec (PooledEventRecorder.releaseTo_spec hrestored hallowed)
  | enqueueWait queue recorder ticket =>
      refine quietly_spec (PooledEventRecorder.ofTicket_spec hrestored hallowed ?_)
      exact fun event t ht => driverCheck_plain ht fun _ => trivial
  | destroyEvent event => exact quietly_spec (driverNoThrow_spec hrestored fun _ => trivial)
  | allocate ordinal size =>
      apply wp_bind
      refine wp_mono (makeOn_spec checkAllocation_checks hknown) ?_ ?_
      · rintro data t ⟨hrestored, hmade⟩
        refine wp_ret (Ended.stable _) ⟨.inr hrestored.current, hrestored.loose, ?_⟩
        rintro _ ⟨⟩
        exact hmade
      · exact fun _ t ht => ⟨.inr ht.current, ht.loose, nofun⟩
  | deallocate data => exact quietly_spec (driverNoThrow_spec hrestored fun _ => trivial)
  | allocatePinned mapped size =>
      apply wp_bind
      refine wp_mono (makeChecked_spec checkAllocation_checks hknown) ?_ ?_
      · rintro data t ⟨hknown, hmade⟩
        refine wp_ret (Ended.stable _) ⟨.inr (.inl hknown.current), hknown.loose, ?_⟩
        rintro _ ⟨⟩
        exact hmade
      · exact fun _ t ht => ⟨.inr (.inl ht.current), ht.loose, nofun⟩
  | deallocatePinned data => exact quietly_spec (driverNoThrow_spec hrestored fun _ => trivial)
  | select ordinal =>
      refine wp_ask_bind Known.stable (fun t _ hknown => ⟨trivial, ?_⟩) hknown
      intro code u hdoes
      refine wp_ret (Ended.stable none) ⟨.inl rfl, ?_, nofun⟩
      cases hdoes with
      | selected exist => exact hknown.loose
      | notSelected failed left_ => exact hknown.loose

variable {current : Θ → Int} {pinnedKind : MemoryResourceKind} {m : Machine Θ}

theorem reached (hcurrent : ∀ θ, 0 ≤ current θ) (hrun : Runs (start current pinnedKind) m) :
    m.Sound (system Θ) (fun _ _ => True) Ended fun θ task _ => Ended θ task none := by
  have hstart : (start current pinnedKind).Sound (system Θ) (fun _ _ => True) Ended
      fun θ task _ => Ended θ task none := by
    refine ⟨⟨hcurrent, nofun, nofun, nofun, nofun, nofun⟩, fun _ _ => trivial, ?_⟩
    intro θ task x hx
    cases hx
  refine hstart.run ⟨fun _ _ _ _ _ => trivial, ?_, fun _ => trivial, fun _ => trivial⟩ hrun
  exact fun hs _ h => program_spec hs h

/-- One thread makes a handle to device 1 and a queue on it, and records an
event. Another selects device 2 meanwhile. -/
theorem event_recorded : ∃ m, Runs (start (fun _ : Bool => 0) .hostStaging) m ∧
    m.running true = some (⟨.record ⟨1, 0, 0⟩ 1, 0, 0, []⟩, .ret none) ∧
      m.shared.failures true = 0 ∧ m.shared.devices = [⟨1, 0, some 1⟩] ∧
      m.shared.queues = [⟨1, 0, 0⟩] ∧ m.shared.recorded = [(1, 0)] := by
  refine Runs.exists_head (Step.begin _ true (.createDevice 1) rfl trivial) ?_
  refine Runs.exists_head (.called (θ := true) (a := true) rfl .hostAllocated) ?_
  refine Runs.exists_head (.called (θ := true) (a := true) rfl .hostAllocated) ?_
  refine Runs.exists_head (.called (θ := true) rfl .recorderAdded) ?_
  refine Runs.exists_head (.called (θ := true) rfl .gotKind) ?_
  refine Runs.exists_head (.called (θ := true) (a := true) rfl .hostAllocated) ?_
  refine Runs.exists_head (.called (θ := true) rfl .deviceAdded) ?_
  refine Runs.exists_head (.returned (θ := true) rfl) ?_
  -- the queue
  refine Runs.exists_head (Step.begin _ true (.createCommandQueue ⟨1, 0, some 1⟩) rfl (.head _)) ?_
  refine Runs.exists_head (.called (θ := true) (a := true) rfl .hostAllocated) ?_
  refine Runs.exists_head (.called (θ := true) (a := true) rfl .hostAllocated) ?_
  refine Runs.exists_head (.called (θ := true) (a := (.success, 0)) rfl
    (by exact .gotDevice fun _ => rfl)) ?_
  refine Runs.exists_head (.called (θ := true) rfl (.selected (by simp))) ?_
  refine Runs.exists_head (.called (θ := true) (a := (.success, 0)) rfl (by exact .made rfl)) ?_
  refine Runs.exists_head (.called (θ := true) rfl (.selected (by simp))) ?_
  refine Runs.exists_head (.called (θ := true) rfl .queueAdded) ?_
  refine Runs.exists_head (.returned (θ := true) rfl) ?_
  -- the event
  refine Runs.exists_head (Step.begin _ true (.record ⟨1, 0, 0⟩ 1) rfl ⟨.head _, _, rfl, rfl⟩) ?_
  refine Runs.exists_head (.called (θ := true) rfl (by exact .taken rfl)) ?_
  refine Runs.exists_head (.called (θ := true) (a := true) rfl .hostAllocated) ?_
  refine Runs.exists_head (.called (θ := true) (a := true) rfl .hostAllocated) ?_
  refine Runs.exists_head (.called (θ := true) (a := (.success, 0)) rfl
    (by exact .gotDevice fun _ => rfl)) ?_
  refine Runs.exists_head (.called (θ := true) rfl (.selected (by simp))) ?_
  refine Runs.exists_head (Step.begin _ false (.select 2) rfl trivial) ?_
  refine Runs.exists_head (.called (θ := false) rfl (.selected (by simp))) ?_
  refine Runs.exists_head (.called (θ := true) (a := (.success, 1)) rfl (by exact .made rfl)) ?_
  refine Runs.exists_head (.called (θ := true) rfl (.selected (by simp))) ?_
  refine Runs.exists_head (.called (θ := true) rfl (by exact .eventAdded rfl)) ?_
  refine Runs.exists_head (.called (θ := true) rfl (by exact .gotEvent rfl rfl)) ?_
  refine Runs.exists_head (.called (θ := true) (a := .success) rfl .called) ?_
  exact ⟨_, .refl, rfl, rfl, rfl, rfl, rfl⟩

/-- **Every object is of the device it was made for**, and no event is ever
recorded on a stream of another device: whatever the threads select, and
however their calls of the driver interleave and fail. -/
theorem objects_on_their_devices (hcurrent : ∀ θ, 0 ≤ current θ)
    (hrun : Runs (start current pinnedKind) m) :
    (∀ device ∈ m.shared.devices,
      (∃ pool, m.shared.recorders[device.events]? = some pool ∧ pool.ordinal = device.ordinal) ∧
        ∀ ordinal ∈ device.memory, ordinal = device.ordinal) ∧
    (∀ queue ∈ m.shared.queues, m.shared.made queue.stream = some (.device queue.ordinal) ∧
      ∃ pool, m.shared.recorders[queue.recorder]? = some pool ∧ pool.ordinal = queue.ordinal ∧
        ∀ event ∈ pool.events, m.shared.made event.handle = some (.device queue.ordinal)) ∧
    ∀ event stream, (event, stream) ∈ m.shared.recorded → ∃ ordinal,
      m.shared.made event = some (.device ordinal) ∧
        m.shared.made stream = some (.device ordinal) := by
  have hs := (reached hcurrent hrun).inv
  refine ⟨hs.devices, ?_, fun event stream hx => hs.recorded (event, stream) hx⟩
  intro queue hqueue
  obtain ⟨hstream, pool, hpool, hordinal⟩ := hs.queues queue hqueue
  refine ⟨hstream, pool, hpool, hordinal, ?_⟩
  intro event hevent
  obtain ⟨hof, hmade⟩ := hs.events pool (List.mem_of_getElem? hpool) event hevent
  rw [hmade, hof, hordinal]

theorem objects_on_their_devices_one : ∃ m, Runs (start (fun _ : Bool => 0) .hostStaging) m ∧
    m.shared.devices = [⟨1, 0, some 1⟩] ∧
    (∃ pool, m.shared.recorders[0]? = some pool ∧ pool.ordinal = 1) ∧
    m.shared.recorded = [(1, 0)] ∧ m.shared.made 0 = some (.device 1) ∧
      m.shared.made 1 = some (.device 1) := by
  obtain ⟨m, hrun, -, -, hdevices, hqueues, hrecorded⟩ := event_recorded
  obtain ⟨houtfits, hmade, hevents⟩ := objects_on_their_devices (fun _ => Int.le_refl 0) hrun
  obtain ⟨hserves, -⟩ := houtfits ⟨1, 0, some 1⟩ (by simp [hdevices])
  obtain ⟨hstream, -⟩ := hmade ⟨1, 0, 0⟩ (by simp [hqueues])
  obtain ⟨ordinal, hevent, hsame⟩ := hevents 1 0 (by simp [hrecorded])
  rw [hsame] at hstream
  exact ⟨m, hrun, hdevices, hserves, hrecorded, hsame.trans hstream, hevent.trans hstream⟩

/-- **An operation leaves the selection of its thread as it was**, whether it
returns or throws, unless a call of `cudaSetDevice` failed in it. It leaks
nothing: what the driver made for it is owned by an object, or is the memory it
returns, which is where it was asked for. -/
theorem selection_restored (hcurrent : ∀ θ, 0 ≤ current θ)
    (hrun : Runs (start current pinnedKind) m) {θ : Θ} {task : Task}
    (hselects : task.operation.selects = false) :
    (∀ a, m.running θ = some (task, .ret a) →
      (m.shared.current θ = task.current ∨ task.failures < m.shared.failures θ) ∧
        m.shared.loose θ = a.toList ++ task.loose ∧
        ∀ data ∈ a, m.shared.made data = some task.operation.home) ∧
    ∀ e, m.running θ = some (task, .throw e) →
      (m.shared.current θ = task.current ∨ task.failures < m.shared.failures θ) ∧
        m.shared.loose θ = task.loose := by
  have hsound := reached hcurrent hrun
  constructor
  · intro a hx
    have hended := hsound.at_ret hx
    exact ⟨hended.current.resolve_left (by simp [hselects]), hended.loose, hended.home⟩
  · intro e hx
    have hended := hsound.at_throw hx
    exact ⟨hended.current.resolve_left (by simp [hselects]), hended.loose⟩

theorem selection_restored_one : ∃ m, Runs (start (fun _ : Bool => 0) .hostStaging) m ∧
    m.shared.recorded = [(1, 0)] ∧ m.shared.current true = 0 ∧ m.shared.loose true = [] := by
  obtain ⟨m, hrun, hrunning, hfailures, -, -, hrecorded⟩ := event_recorded
  have hselects : (⟨.record ⟨1, 0, 0⟩ 1, 0, 0, []⟩ : Task).operation.selects = false := rfl
  obtain ⟨hreturned, -⟩ :=
    selection_restored (θ := true) (fun _ => Int.le_refl 0) hrun hselects
  obtain ⟨hcurrent, hloose, -⟩ := hreturned none hrunning
  exact ⟨m, hrun, hrecorded, hcurrent.resolve_right (by simp [hfailures]), hloose⟩

end Devices

end RexlibCuda
