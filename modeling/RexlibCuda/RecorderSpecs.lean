import RexlibCuda.TimelineCoherence

/-! What the recorder does for a thread that uses it while others do, and what
a thread knows that they leave as it is. -/

namespace RexlibCuda

open Calls Streams

namespace HostState

variable {Θ σ ω α : Type} {streamOf : Timeline → σ} {θ : Θ} {s u v before : HostState Θ σ ω}
  {t : Timeline} {x : Ticket} {m : Mutex} {p : Point σ} {P R : HostState Θ σ ω → Prop}

/-! ## What a thread knows -/

/-- The thread has the mutex of a timeline, and knows what that is like. -/
structure Under (θ : Θ) (t : Timeline) (halfway : Halfway) (timeline : StreamTimeline)
    (given : List (Point σ)) (s : HostState Θ σ ω) : Prop where
  holder : s.holder (.timeline t) = some θ
  timeline : s.base.timeline t = timeline
  halfway : s.halfway t = halfway
  given : s.base.given t = given

/-- The thread has the mutex, and may let go of it. -/
structure Closed (θ : Θ) (m : Mutex) (s : HostState Θ σ ω) : Prop where
  holder : s.holder m = some θ
  stays : ∀ t, m = .timeline t → s.halfway t = .nothing

theorem closed_recorder (h : s.holder .recorder = some θ) : Closed θ .recorder s := by
  refine ⟨h, fun t heq => ?_⟩
  cases heq

/-- The thread has no ticket. -/
def Free (θ : Θ) (s : HostState Θ σ ω) : Prop := ∀ x, s.owner x ≠ .hand θ

/-- It has the ticket, and no other. -/
def Has (θ : Θ) (x : Ticket) (s : HostState Θ σ ω) : Prop := ∀ y, s.owner y = .hand θ ↔ y = x

theorem Has.owner (h : Has θ x s) : s.owner x = .hand θ := (h x).mpr rfl

theorem Free.setOwner_self (h : Free θ s) (x : Ticket) : Has θ x (s.setOwner x (.hand θ)) := by
  intro y
  by_cases hy : y = x
  · simp [setOwner, hy]
  · simp [setOwner, hy, h y]

theorem Has.setOwner (h : Has θ x s) {o : Owner Θ} (ho : o ≠ .hand θ) :
    Free θ (s.setOwner x o) := by
  intro y
  by_cases hy : y = x
  · simp [HostState.setOwner, hy, ho]
  · simp [HostState.setOwner, hy, h y]

theorem Free.setOwner (h : Free θ s) {o : Owner Θ} (ho : o ≠ .hand θ) :
    Free θ (s.setOwner x o) := by
  intro y
  by_cases hy : y = x
  · simp [HostState.setOwner, hy, ho]
  · simp [HostState.setOwner, hy, h y]

/-- Room has been reserved for the ticket of the next event. -/
def Roomy (s : HostState Θ σ ω) : Prop := s.base.recorder.events < s.base.recorder.reserved

theorem reserve_roomy (s : HostState Θ σ ω) : Roomy s.reserve :=
  Nat.lt_of_lt_of_le (Nat.lt_succ_self _) (Nat.le_max_right ..)

/-- The ticket is in the hand of a thread and stands for a point of the stream
behind all that had been issued on it. -/
structure Recorded (θ : Θ) (before : HostState Θ σ ω) (stream : σ) (x : Ticket)
    (s : HostState Θ σ ω) : Prop where
  has : Has θ x s
  captured : ∃ p, s.base.recorder.captured x = some p ∧ p.stream = stream ∧
    (before.base.device.line stream).ops.length ≤ p.position

/-- An answer about a point that was right some time after `before`. -/
structure Tells (before : HostState Θ σ ω) (p : Point σ) (complete : Bool) (s : HostState Θ σ ω) :
    Prop where
  reached : complete = true → s.base.device.Reached p
  ahead : complete = false → ¬ before.base.device.Reached p

/-- The point has been reached, or a stream was told to wait for it after `before`. -/
def Scheduled (before : HostState Θ σ ω) (waiter : σ) (p : Point σ) (s : HostState Θ σ ω) : Prop :=
  s.base.device.Reached p ∨ ∃ i stamp, (before.base.device.line waiter).ops.length ≤ i ∧
    s.base.device.At waiter i (.wait p) stamp

/-! ## What it does not lose -/

variable [DecidableEq Θ]

/-- What neither the other threads undo, nor taking or letting go of the mutex. -/
structure Settled (θ : Θ) (m : Mutex) (P : HostState Θ σ ω → Prop) : Prop where
  stable : ∀ s u, s.Evolves u → s.SameOwn θ u → P s → P u
  holder : ∀ s o, P s → P (s.setHolder m o)

theorem Settled.and (hP : Settled θ m P) (hR : Settled θ m R) : Settled θ m fun s => P s ∧ R s where
  stable s u hev hown h := ⟨hP.stable s u hev hown h.1, hR.stable s u hev hown h.2⟩
  holder s o h := ⟨hP.holder s o h.1, hR.holder s o h.2⟩

theorem evolves_settled (before : HostState Θ σ ω) (m : Mutex) :
    Settled θ m fun s => before.Evolves s where
  stable _ _ hev _ h := h.trans hev
  holder _ _ h := h.trans (.same rfl rfl rfl)

theorem free_settled : Settled θ m fun s : HostState Θ σ ω => Free θ s where
  stable _ _ _ hown h x := fun hx => h x ((hown.hand x).mp hx)
  holder _ _ h := h

theorem has_settled : Settled θ m fun s : HostState Θ σ ω => Has θ x s where
  stable _ _ _ hown h y := (hown.hand y).trans (h y)
  holder _ _ h := h

theorem reached_settled : Settled θ m fun s : HostState Θ σ ω => s.base.device.Reached p where
  stable _ _ hev _ h := hev.reached p h
  holder _ _ h := h

theorem issued_settled : Settled θ .recorder fun s : HostState Θ σ ω =>
    p.position ≤ (s.base.device.line p.stream).ops.length where
  stable _ _ hev _ h := Nat.le_trans h (hev.ops p.stream).length_le
  holder _ _ h := h

theorem given_settled {id : Nat} :
    Settled θ m fun s : HostState Θ σ ω => (s.base.given t)[id]? = some p where
  stable s u hev _ h := by
    obtain ⟨later, hlater⟩ := hev.given t
    rw [← hlater, List.getElem?_append_left (List.getElem?_eq_some_iff.mp h).1]
    exact h
  holder _ _ h := h

theorem const_settled {c : Prop} : Settled θ m fun _ : HostState Θ σ ω => c where
  stable _ _ _ _ h := h
  holder _ _ h := h

theorem recorded_settled {stream : σ} :
    Settled θ m fun s : HostState Θ σ ω => Recorded θ before stream x s where
  stable s u hev hown h := by
    obtain ⟨p, hcaptured, hp⟩ := h.captured
    exact ⟨(has_settled (m := m)).stable s u hev hown h.has, p,
      (hown.captured x h.has.owner).trans hcaptured, hp⟩
  holder _ _ h := ⟨h.has, h.captured⟩

theorem tells_settled {complete : Bool} :
    Settled θ m fun s : HostState Θ σ ω => Tells before p complete s where
  stable _ _ hev _ h := ⟨fun hcomplete => hev.reached p (h.reached hcomplete), h.ahead⟩
  holder _ _ h := ⟨h.reached, h.ahead⟩

theorem scheduled_settled {waiter : σ} :
    Settled θ m fun s : HostState Θ σ ω => Scheduled before waiter p s where
  stable s u hev _ h := by
    rcases h with h | ⟨i, stamp, hle, hat⟩
    · exact .inl (hev.reached p h)
    · obtain ⟨later, hlater⟩ := hev.ops waiter
      refine .inr ⟨i, stamp, hle, ?_⟩
      unfold Device.At
      rw [← hlater, List.getElem?_append_left hat.lt]
      exact hat
  holder _ _ h := h

variable [DecidableEq σ]

/-- What a thread does not undo by what it does to the recorder. -/
structure Steady (θ : Θ) (P : HostState Θ σ ω → Prop) : Prop extends
    Settled θ .recorder P where
  take : ∀ s, P s → P (s.take θ)
  reserve : ∀ s, P s → P s.reserve
  addEvent : ∀ s, P s → P (s.addEvent θ)
  giveBack : ∀ s x, s.owner x = .hand θ → P s → P (s.giveBack x none)
  capture : ∀ s x stream, s.owner x = .hand θ → P s → P { s with base := s.base.capture stream x }

theorem Steady.and (hP : Steady θ P) (hR : Steady θ R) : Steady θ fun s => P s ∧ R s where
  toSettled := hP.toSettled.and hR.toSettled
  take s h := ⟨hP.take s h.1, hR.take s h.2⟩
  reserve s h := ⟨hP.reserve s h.1, hR.reserve s h.2⟩
  addEvent s h := ⟨hP.addEvent s h.1, hR.addEvent s h.2⟩
  giveBack s x hx h := ⟨hP.giveBack s x hx h.1, hR.giveBack s x hx h.2⟩
  capture s x stream hx h := ⟨hP.capture s x stream hx h.1, hR.capture s x stream hx h.2⟩

theorem evolves_steady (before : HostState Θ σ ω) : Steady θ fun s => before.Evolves s where
  toSettled := evolves_settled before _
  take _ h := h.trans (Does.taken (θ := θ)).evolves
  reserve _ h := h.trans (Does.roomReserved (θ := θ)).evolves
  addEvent _ h := h.trans (Does.eventAdded (θ := θ)).evolves
  giveBack _ _ _ h := h.trans (Does.gaveBack (θ := θ)).evolves
  capture _ _ _ _ h := h.trans (Does.recorded (θ := θ)).evolves

theorem under_steady {halfway : Halfway} {timeline : StreamTimeline} {given : List (Point σ)} :
    Steady θ fun s : HostState Θ σ ω => Under θ t halfway timeline given s where
  stable s u _ hown h := by
    obtain ⟨htimeline, hhalfway, hgiven, -⟩ := hown.fields t h.holder
    exact ⟨hown.holder _ h.holder, htimeline.trans h.timeline, hhalfway.trans h.halfway,
      hgiven.trans h.given⟩
  holder s o h := ⟨by simpa [setHolder] using h.holder, h.timeline, h.halfway, h.given⟩
  take s h := by
    unfold HostState.take
    split <;> exact ⟨h.holder, h.timeline, h.halfway, h.given⟩
  reserve s h := ⟨h.holder, h.timeline, h.halfway, h.given⟩
  addEvent s h := ⟨h.holder, h.timeline, h.halfway, h.given⟩
  giveBack s x _ h := by
    obtain ⟨hgiven, -⟩ := base_release x s.base
    refine ⟨h.holder, ?_, ?_, ?_⟩
    · simpa [HostState.giveBack, setOwner] using h.timeline
    · simpa [HostState.giveBack, setOwner] using h.halfway
    · exact (congrFun hgiven t).trans h.given
  capture s x stream _ h := ⟨h.holder, h.timeline, h.halfway, h.given⟩

theorem Settled.system (hP : Settled θ m P) :
    (system (ω := ω) Θ streamOf).Stable θ P :=
  fun s u h => hP.stable s u h.1 h.2

theorem closed_stable : (system (ω := ω) Θ streamOf).Stable θ (Closed θ m) := by
  intro s u h hclosed
  refine ⟨h.2.holder m hclosed.holder, fun t heq => ?_⟩
  have hholder := hclosed.holder
  rw [heq] at hholder
  exact (h.2.fields t hholder).2.1.trans (hclosed.stays t heq)

/-- Run by the thread among others, `x` makes no call that it may not make, and
returns in `Q` or throws in `E`. -/
abbrev Ends (streamOf : Timeline → σ) (θ : Θ) (x : Host σ ω α) (Q : α → HostState Θ σ ω → Prop)
    (E : Exn → HostState Θ σ ω → Prop) (s : HostState Θ σ ω) : Prop :=
  x.wp (HostState.system Θ streamOf) θ Q E s

section Specs

variable {body : Host σ ω α} {Q : α → HostState Θ σ ω → Prop} {E : Exn → HostState Θ σ ω → Prop}

/-- **The scope of a `std::lock_guard`**: the mutex is free for its body, and
let go of whichever way that is left. -/
theorem underMutex_spec (hP : Settled θ m P) (hQ : ∀ a, Settled θ m (Q a))
    (hE : ∀ e, Settled θ m (E e)) (h : P s)
    (hbody : ∀ u, u.Coherent streamOf → P u → Closed θ m u →
      Ends streamOf θ body (fun a v => Q a v ∧ Closed θ m v) (fun e v => E e v ∧ Closed θ m v) u) :
    Ends streamOf θ (Host.underMutex m body) Q E s := by
  have hunlock : ∀ {R : HostState Θ σ ω → Prop}, Settled θ m R → ∀ v, R v ∧ Closed θ m v →
      Ends streamOf θ (.call (.unlock m) fun _ => .ret ()) (fun _ w => R w) E v := by
    intro R hR v hv w hvw _
    have hopen : Closed θ m w := closed_stable v w hvw hv.2
    refine ⟨⟨hopen.holder, hopen.stays⟩, ?_⟩
    rintro ⟨⟩ w' ⟨⟩ w'' hw _
    exact hR.stable _ _ hw.1 hw.2 (hR.holder _ _ (hR.system v w hvw hv.1))
  intro u hsu hu
  refine ⟨trivial, ?_⟩
  rintro ⟨⟩ v ⟨free⟩
  apply wp_andFinally
  have hclosed : Closed θ m (u.setHolder m (some θ)) := by
    refine ⟨by simp [setHolder], fun t heq => ?_⟩
    by_contra hleaves
    exact hu.locked t (by simpa [setHolder] using hleaves) (heq ▸ free)
  have hcoherent : (u.setHolder m (some θ)).Coherent streamOf := hu.setHolder fun _ _ _ => by simp
  refine wp_mono (hbody _ hcoherent (hP.holder _ _ (hP.system s u hsu h)) hclosed) ?_ ?_
  · exact fun a v hv => hunlock (hQ a) v hv
  · exact fun e v hv => hunlock (hE e) v hv

theorem granted_spec {success : Bool} (hP : (system (ω := ω) Θ streamOf).Stable θ P)
    (hR : (system (ω := ω) Θ streamOf).Stable θ R) (hsuccess : success = true → P s)
    (hfailure : success = false → R s) :
    Ends streamOf θ (Host.granted success) (fun _ u => P u) (fun _ u => R u) s := by
  cases success with
  | true => exact wp_ret hP (hsuccess rfl)
  | false => exact wp_throw hR (hfailure rfl)

theorem hostMemory_spec (hP : (system (ω := ω) Θ streamOf).Stable θ P) (h : P s) :
    Ends streamOf θ Host.hostMemory (fun _ u => P u) (fun _ u => P u) s := by
  refine wp_ask_bind hP (fun u _ hu => ⟨trivial, ?_⟩) h
  rintro _ v ⟨⟩
  exact granted_spec hP hP (fun _ => hu) fun _ => hu

theorem checked_spec {success : Bool} (hP : (system (ω := ω) Θ streamOf).Stable θ P)
    (hR : (system (ω := ω) Θ streamOf).Stable θ R) (hsuccess : success = true → P s)
    (hfailure : success = false → R s) :
    Ends streamOf θ (Host.checked success) (fun _ u => P u) (fun e u => R u ∧ e = .error) s := by
  cases success with
  | true => exact wp_ret hP (hsuccess rfl)
  | false => exact wp_throw (fun s u h hR' => ⟨hR s u h hR'.1, rfl⟩) ⟨hfailure rfl, rfl⟩

/-! ## The recorder -/

theorem create_spec (hP : Steady θ P) (h : (P s ∧ Free θ s) ∧ Closed θ .recorder s) :
    Ends streamOf θ Host.create
      (fun x u => (P u ∧ Has θ x u) ∧ Closed θ .recorder u)
      (fun _ u => (P u ∧ Free θ u) ∧ Closed θ .recorder u) s := by
  have hstable : (system (ω := ω) Θ streamOf).Stable θ fun u =>
      (P u ∧ Free θ u) ∧ Closed θ .recorder u :=
    stable_and (hP.toSettled.and free_settled).system closed_stable
  have hroom : (system (ω := ω) Θ streamOf).Stable θ fun u =>
      ((P u ∧ Free θ u) ∧ Closed θ .recorder u) ∧ Roomy u := by
    rintro v w hvw ⟨hv, hroomy⟩
    obtain ⟨hevents, hreserved⟩ := hvw.2.room hv.2.holder
    exact ⟨hstable v w hvw hv, by rw [Roomy, hevents, hreserved]; exact hroomy⟩
  refine wp_ask_bind hstable (fun u _ hu => ⟨hu.2.holder, ?_⟩) h
  intro reserved v hdoes
  apply wp_bind
  refine wp_mono (granted_spec hroom hstable ?_ ?_) ?_ fun _ _ h => h
  · rintro rfl
    cases hdoes
    exact ⟨⟨⟨hP.reserve u hu.1.1, hu.1.2⟩, closed_recorder hu.2.holder⟩, reserve_roomy u⟩
  · rintro rfl
    cases hdoes
    exact hu
  intro _ u hu
  apply wp_bind
  refine wp_mono (hostMemory_spec hroom hu) ?_ fun _ _ h => h.1
  intro _ u hu
  refine wp_ask_bind hroom (fun v _ hv => ⟨trivial, ?_⟩) hu
  rintro made w ⟨⟩
  apply wp_bind
  refine wp_mono (checked_spec hroom hroom (fun _ => hv) fun _ => hv) ?_ fun _ _ h => h.1.1
  intro _ w hw
  refine wp_ask hroom (fun x => stable_and (hP.toSettled.and has_settled).system closed_stable)
    (fun v _ hv => ⟨⟨hv.1.2.holder, hv.2⟩, ?_⟩) hw
  rintro x w ⟨⟩
  exact ⟨⟨hP.addEvent v hv.1.1.1, Free.setOwner_self hv.1.1.2 _⟩, closed_recorder hv.1.2.holder⟩

theorem acquire_spec (hP : Steady θ P) (h : P s ∧ Free θ s) :
    Ends streamOf θ Host.acquire (fun x u => P u ∧ Has θ x u) (fun _ u => P u ∧ Free θ u) s := by
  have hfree : Settled θ .recorder fun u => P u ∧ Free θ u := hP.toSettled.and free_settled
  apply underMutex_spec hfree (fun _ => hP.toSettled.and has_settled) (fun _ => hfree) h
  intro u _ hu hclosed
  refine wp_ask_bind (stable_and hfree.system closed_stable) (fun v _ hv => ⟨hv.2.holder, ?_⟩)
    ⟨hu, hclosed⟩
  rintro answer w ⟨⟩
  have hkeeps : Closed θ .recorder (v.take θ) := by
    apply closed_recorder
    unfold HostState.take
    split <;> exact hv.2.holder
  have htake := hP.take v hv.1.1
  cases havailable : v.base.recorder.available with
  | nil =>
      refine create_spec hP ⟨⟨htake, ?_⟩, hkeeps⟩
      simpa [HostState.take, havailable] using hv.1.2
  | cons x available =>
      refine wp_ret (stable_and (hP.toSettled.and has_settled).system closed_stable)
        ⟨⟨htake, ?_⟩, hkeeps⟩
      simp only [HostState.take, havailable]
      exact Free.setOwner_self hv.1.2 x

theorem getEvent_spec (hP : Settled θ .recorder P) (hmade : ∀ u, u.Coherent streamOf → P u →
      0 < x ∧ x ≤ u.base.recorder.events) (h : P s) :
    Ends streamOf θ (Host.getEvent x) (fun _ u => P u) (fun _ _ => False) s := by
  apply underMutex_spec hP (fun _ => hP) (fun _ => const_settled) h
  intro u _ hu hclosed
  have hstable : (system (ω := ω) Θ streamOf).Stable θ fun u => P u ∧ Closed θ .recorder u :=
    stable_and hP.system closed_stable
  refine wp_ask hstable (fun _ => hstable) (fun v hv hPv => ?_) ⟨hu, hclosed⟩
  refine ⟨⟨hPv.2.holder, hmade v hv hPv.1⟩, ?_⟩
  rintro _ w ⟨⟩
  exact hPv

/-- A ticket in the hand of a thread goes back. -/
theorem release_spec (hP : Steady θ P) (h : P s ∧ Has θ x s) :
    Ends streamOf θ (Host.release x none) (fun _ u => P u ∧ Free θ u) (fun _ _ => False) s := by
  have hhas : Settled θ .recorder fun u => P u ∧ Has θ x u := hP.toSettled.and has_settled
  have hfree : Settled θ .recorder fun u => P u ∧ Free θ u := hP.toSettled.and free_settled
  apply wp_of_rely
  intro u hsu hu
  have h := hhas.system s u hsu h
  have hpos := (hu.placed.hand h.2.owner).2.2.1
  have hne : x ≠ noTicket := Nat.pos_iff_ne_zero.mp hpos
  rw [Host.release, if_neg hne]
  apply underMutex_spec hhas (fun _ => hfree) (fun _ => const_settled) h
  intro u _ hu hclosed
  refine wp_ask (stable_and hhas.system closed_stable)
    (fun _ => stable_and hfree.system closed_stable) (fun v hv hPv => ?_) ⟨hu, hclosed⟩
  refine ⟨⟨hPv.2.holder, hPv.1.2.owner⟩, ?_⟩
  rintro _ w ⟨⟩
  refine ⟨⟨hP.giveBack v x hPv.1.2.owner hPv.1.1, ?_⟩, closed_recorder hPv.2.holder⟩
  exact Has.setOwner (s := v) hPv.1.2 (by simp)

theorem recorderRecord_spec {stream : σ} (hP : Steady θ P)
    (hbefore : ∀ u, P u → before.Evolves u) (h : P s ∧ Free θ s) :
    Ends streamOf θ (Host.recorderRecord stream) (fun x u => P u ∧ Recorded θ before stream x u)
      (fun _ u => P u ∧ Free θ u) s := by
  apply wp_bind
  refine wp_mono (acquire_spec hP h) ?_ fun _ _ h => h
  intro x u hu
  have hhas : Settled θ .recorder fun u => P u ∧ Has θ x u := hP.toSettled.and has_settled
  have hrecorded : Settled θ .recorder fun u => P u ∧ Recorded θ before stream x u :=
    hP.toSettled.and recorded_settled
  apply wp_bind
  apply wp_tryCatch
  have hbody : Ends streamOf θ
      (do
        Host.getEvent x
        let recorded ← Host.request (.eventRecord x stream)
        Host.checked recorded)
      (fun _ u => P u ∧ Recorded θ before stream x u) (fun _ u => P u ∧ Has θ x u) u := by
    apply wp_bind
    have hmade : ∀ v, v.Coherent streamOf → P v ∧ Has θ x v →
        0 < x ∧ x ≤ v.base.recorder.events := fun v hv hPv => (hv.placed.hand hPv.2.owner).2.2
    refine wp_mono (getEvent_spec hhas hmade hu) ?_ fun _ _ h => h.elim
    intro _ v hv
    refine wp_ask_bind hhas.system (fun w hw hPw => ⟨hPw.2.owner, ?_⟩) hv
    intro recorded w' hdoes
    refine wp_mono (checked_spec hrecorded.system hhas.system ?_ ?_) (fun _ _ h => h)
      fun _ _ h => h.1
    · rintro rfl
      cases hdoes
      refine ⟨hP.capture w x stream hPw.2.owner hPw.1, hPw.2, _, Function.update_self .., rfl, ?_⟩
      exact (hbefore w hPw.1).ops stream |>.length_le
    · rintro rfl
      cases hdoes
      exact hPw
  refine wp_mono hbody ?_ ?_
  · intro _ v hv
    exact wp_ret hrecorded.system hv
  · intro e v hv
    apply wp_bind
    refine wp_mono (release_spec hP hv) ?_ fun _ _ h => h.elim
    exact fun _ w hw => wp_throw (hP.toSettled.and free_settled).system hw

/-- What a thread knows says which point the event of a ticket has captured. -/
def Stands (streamOf : Timeline → σ) (P : HostState Θ σ ω → Prop) (x : Ticket) (p : Point σ) :
    Prop :=
  ∀ u, u.Coherent streamOf → P u →
    0 < x ∧ x ≤ u.base.recorder.events ∧ u.base.recorder.captured x = some p

theorem recorderIsComplete_spec (hP : Settled θ .recorder P) (hbefore : ∀ u, P u → before.Evolves u)
    (hx : Stands streamOf P x p) (h : P s) :
    Ends streamOf θ (Host.recorderIsComplete x) (fun complete u => P u ∧ Tells before p complete u)
      (fun e u => P u ∧ e = .error) s := by
  apply wp_bind
  refine wp_mono (getEvent_spec hP (fun u hu hPu => ⟨(hx u hu hPu).1, (hx u hu hPu).2.1⟩) h) ?_
    fun _ _ h => h.elim
  intro _ u hu
  refine wp_ask_bind hP.system (fun v hv hPv => ?_) hu
  obtain ⟨hpos, hle, hcaptured⟩ := hx v hv hPv
  refine ⟨⟨hpos, hle⟩, ?_⟩
  intro answer w hdoes
  cases hdoes with
  | queried =>
      refine wp_ret (hP.and tells_settled).system ⟨hPv, ?_, ?_⟩
      · simp [Timelines.signaled, hcaptured]
      · intro hnot hreached
        have hlater := (hbefore v hPv).reached p hreached
        simp [Timelines.signaled, hcaptured, hlater] at hnot
  | notQueried => exact wp_throw (hP.and const_settled).system ⟨hPv, rfl⟩

theorem recorderWait_spec (hP : Settled θ .recorder P) (hx : Stands streamOf P x p) (h : P s) :
    Ends streamOf θ (Host.recorderWait x) (fun _ u => P u ∧ u.base.device.Reached p)
      (fun e u => P u ∧ e = .error) s := by
  apply wp_bind
  refine wp_mono (getEvent_spec hP (fun u hu hPu => ⟨(hx u hu hPu).1, (hx u hu hPu).2.1⟩) h) ?_
    fun _ _ h => h.elim
  intro _ u hu
  refine wp_ask_bind hP.system (fun v hv hPv => ?_) hu
  obtain ⟨hpos, hle, hcaptured⟩ := hx v hv hPv
  refine ⟨⟨hpos, hle⟩, ?_⟩
  rintro _ w ⟨⟩
  rw [hcaptured]
  have hreached : Settled θ .recorder fun u => P u ∧ u.base.device.Reached p :=
    hP.and reached_settled
  obtain ⟨earlier, -, hat⟩ := hv.captured x p hcaptured
  refine wp_ask_bind (stable_and hP.system issued_settled.system) (fun w _ hw => ⟨?_, ?_⟩)
    ⟨hPv, Nat.le_of_lt hat.lt⟩
  · rintro q ⟨⟩
    exact hw.2
  intro returned w' hdoes
  refine checked_spec hreached.system hP.system ?_ ?_
  · rintro rfl
    cases hdoes with
    | synchronized reached => exact ⟨hw.1, reached p rfl⟩
  · rintro rfl
    cases hdoes
    exact hw.1

theorem recorderEnqueueWait_spec {waiter : σ} (hP : Settled θ .recorder P)
    (hbefore : ∀ u, P u → before.Evolves u)
    (hwait : ∀ u, P u → P (u.setDevice (u.base.device.issue waiter (.wait p))))
    (hx : Stands streamOf P x p) (h : P s) :
    Ends streamOf θ (Host.recorderEnqueueWait waiter x)
      (fun _ u => P u ∧ Scheduled before waiter p u) (fun e u => P u ∧ e = .error) s := by
  apply wp_bind
  refine wp_mono (getEvent_spec hP (fun u hu hPu => ⟨(hx u hu hPu).1, (hx u hu hPu).2.1⟩) h) ?_
    fun _ _ h => h.elim
  intro _ u hu
  refine wp_ask_bind hP.system (fun v hv hPv => ?_) hu
  obtain ⟨hpos, hle, hcaptured⟩ := hx v hv hPv
  refine ⟨⟨hpos, hle⟩, ?_⟩
  intro scheduled w hdoes
  refine checked_spec (hP.and scheduled_settled).system hP.system ?_ ?_
  · rintro rfl
    cases hdoes
    have hissued : ({ v with base := v.base.scheduleWait waiter x } : HostState Θ σ ω)
        = v.setDevice (v.base.device.issue waiter (.wait p)) := by
      simp [Timelines.scheduleWait, hcaptured, setDevice]
    rw [hissued]
    refine ⟨hwait v hPv, .inr ⟨_, v.base.device.issued, ((hbefore v hPv).ops waiter).length_le, ?_⟩⟩
    simp [setDevice, Device.At, Device.ops_issue]
  · rintro rfl
    cases hdoes
    exact hPv

end Specs

end HostState

end RexlibCuda
