import RexlibCuda.RecorderSpecs

/-! What `stream_timeline` does for a thread that uses it while others do. -/

namespace RexlibCuda

open Calls Streams

namespace HostState

variable {Θ σ ω α : Type} {streamOf : Timeline → σ} {θ : Θ} {s u v before : HostState Θ σ ω}
  {t : Timeline} {x : Ticket} {p : Point σ} {id : Nat} {timeline : StreamTimeline}
  {given : List (Point σ)} {P : HostState Θ σ ω → Prop}

/-! ## What a thread knows of a timeline -/

theorem Under.closed (h : Under θ t .nothing timeline given s) : Closed θ (.timeline t) s := by
  refine ⟨h.holder, ?_⟩
  rintro _ ⟨⟩
  exact h.halfway

theorem Closed.under (h : Closed θ (.timeline t) s) :
    Under θ t .nothing (s.base.timeline t) (s.base.given t) s :=
  ⟨h.holder, rfl, h.stays t rfl, rfl⟩

theorem Under.orderly (hs : s.Coherent streamOf) (h : Under θ t .nothing timeline given s) :
    Numbered s.base.device s.base.recorder.captured (streamOf t) timeline given ∧
      (∀ x ∈ timeline.points, 0 < x ∧ x ≤ s.base.recorder.events) ∧
      timeline.waiterCount = (s.waiters t).length := by
  have horderly := hs.timelines t
  have hkept := kept_of_stays h.halfway
  have hnumbered := horderly.numbered
  have hcounted := horderly.counted
  rw [hkept, h.timeline] at hcounted
  rw [hkept, h.timeline, h.given] at hnumbered
  refine ⟨hnumbered, fun x hx => ?_, hcounted⟩
  obtain ⟨-, -, hmade⟩ := hs.placed.point (t := t) (by rwa [hkept, h.timeline])
  exact hmade

/-- The timeline gave the id, and `R` holds of the point it stands for. -/
def Of (t : Timeline) (id : Nat) (R : Point σ → HostState Θ σ ω → Prop) (s : HostState Θ σ ω) :
    Prop :=
  ∃ p, (s.base.given t)[id]? = some p ∧ R p s

/-- An id is only refused where the timeline had not given it. -/
def Refused (before : HostState Θ σ ω) (t : Timeline) (id : Nat) (e : Exn) : Prop :=
  e = Timelines.neverGave → (before.base.given t).length ≤ id

theorem refused_error : Refused before t id .error := by
  intro h
  cases h

/-- What `record` gives: an id that no command had been given before, of a point
of the stream behind all that had been issued on it. The thread is noted as the
one that was told. -/
structure Gave (streamOf : Timeline → σ) (θ : Θ) (before : HostState Θ σ ω) (t : Timeline) (id : Nat)
    (s : HostState Θ σ ω) : Prop where
  fresh : (before.base.given t).length ≤ id
  told : (θ, id) ∈ s.told t
  point : Of t id (fun p _ => p.stream = streamOf t ∧
    (before.base.device.line (streamOf t)).ops.length ≤ p.position) s

section Settled

variable [DecidableEq Θ]

theorem of_settled {m : Mutex} {R : Point σ → HostState Θ σ ω → Prop}
    (hR : ∀ p, Settled θ m (R p)) : Settled θ m (Of t id R) where
  stable s u hev hown h := by
    obtain ⟨p, hp, hRp⟩ := h
    exact ⟨p, (given_settled (m := m)).stable s u hev hown hp, (hR p).stable s u hev hown hRp⟩
  holder s o h := by
    obtain ⟨p, hp, hRp⟩ := h
    exact ⟨p, hp, (hR p).holder s o hRp⟩

theorem gave_settled {m : Mutex} : Settled θ m fun s => Gave streamOf θ before t id s where
  stable s u hev hown h :=
    ⟨h.fresh, (hev.told t).subset h.told,
      (of_settled (m := m) fun _ => const_settled).stable s u hev hown h.point⟩
  holder _ _ h := ⟨h.fresh, h.told, h.point⟩

/-- All that the thread waits for is the id, with a ticket that stands for `p`. -/
structure Waiting (θ : Θ) (before : HostState Θ σ ω) (t : Timeline) (id : Nat) (x : Ticket)
    (p : Point σ) (s : HostState Θ σ ω) : Prop where
  evolves : before.Evolves s
  free : Free θ s
  waits : s.waits θ t = [(θ, id, x)]
  away : ∀ t' ≠ t, s.waits θ t' = []
  given : (s.base.given t)[id]? = some p

theorem waiting_settled {m : Mutex} :
    Settled θ m fun s : HostState Θ σ ω => Waiting θ before t id x p s where
  stable s u hev hown h :=
    ⟨h.evolves.trans hev, (free_settled (m := m)).stable s u hev hown h.free,
      (hown.waits t).trans h.waits, fun t' hne => (hown.waits t').trans (h.away t' hne),
      (given_settled (m := m)).stable s u hev hown h.given⟩
  holder _ _ h := ⟨h.evolves.trans (.same rfl rfl rfl), h.free, h.waits, h.away, h.given⟩

theorem Waiting.mem (h : Waiting θ before t id x p s) : (θ, id, x) ∈ s.waiters t := by
  have hmem : (θ, id, x) ∈ s.waits θ t := by simp [h.waits]
  exact (List.mem_filter.mp hmem).1

/-- What is waited for is not dropped, so its ticket stands for it. -/
theorem waiting_stands :
    Stands streamOf (fun s : HostState Θ σ ω => Waiting θ before t id x p s) x p := by
  intro u hu hwaiting
  have horderly := hu.timelines t
  obtain ⟨hle, hat⟩ := horderly.waiting _ hwaiting.mem
  have hle : (u.kept t).firstId ≤ id := hle
  obtain ⟨-, -, hmade⟩ := hu.placed.point (List.mem_of_getElem? hat)
  have hnumbered := horderly.numbered
  obtain ⟨q, hq, hcaptured⟩ := hnumbered.stands _ x hat
  rw [Nat.add_sub_cancel' hle, hwaiting.given] at hq
  cases hq
  exact ⟨hmade.1, hmade.2, hcaptured⟩

end Settled

variable [DecidableEq Θ] [DecidableEq σ]

/-! ## A thread between its operations -/

/-- The thread waits for nothing, some time after `before`. -/
structure Since (θ : Θ) (before s : HostState Θ σ ω) : Prop where
  evolves : before.Evolves s
  away : ∀ t, s.waits θ t = []

/-- It has no ticket either. -/
abbrev Resting (θ : Θ) (before s : HostState Θ σ ω) : Prop := Since θ before s ∧ Free θ s

theorem away_steady : Steady θ fun s : HostState Θ σ ω => ∀ t, s.waits θ t = [] where
  stable _ _ _ hown h t := (hown.waits t).trans (h t)
  holder _ _ h := h
  take s h := by
    unfold HostState.take
    split <;> exact h
  reserve _ h := h
  addEvent _ h := h
  giveBack _ _ _ h := h
  capture _ _ _ _ h := h

theorem since_steady : Steady θ fun s => Since θ before s where
  stable s u hev hown h := ⟨h.evolves.trans hev, away_steady.stable s u hev hown h.away⟩
  holder _ _ h := ⟨h.evolves.trans (.same rfl rfl rfl), h.away⟩
  take s h := ⟨(evolves_steady before).take s h.evolves, away_steady.take s h.away⟩
  reserve s h := ⟨(evolves_steady (θ := θ) before).reserve s h.evolves, h.away⟩
  addEvent s h := ⟨(evolves_steady (θ := θ) before).addEvent s h.evolves, h.away⟩
  giveBack s x hx h := ⟨(evolves_steady before).giveBack s x hx h.evolves, h.away⟩
  capture s x stream hx h := ⟨(evolves_steady before).capture s x stream hx h.evolves, h.away⟩

theorem resting_settled {m : Mutex} : Settled θ m fun s => Resting θ before s where
  stable s u hev hown h := ⟨since_steady.stable s u hev hown h.1,
    (free_settled (m := m)).stable s u hev hown h.2⟩
  holder _ _ h := ⟨⟨h.1.evolves.trans (.same rfl rfl rfl), h.1.away⟩, h.2⟩

/-! ## Inside the mutex -/

/-- The thread has the mutex and knows what the timeline is like. -/
abbrev Inside (θ : Θ) (before : HostState Θ σ ω) (t : Timeline) (timeline : StreamTimeline)
    (given : List (Point σ)) (s : HostState Θ σ ω) : Prop :=
  Resting θ before s ∧ Under θ t .nothing timeline given s

theorem inside_settled : Settled θ .recorder fun s => Inside θ before t timeline given s :=
  resting_settled.and under_steady.toSettled

omit [DecidableEq σ] in
theorem inside_stands {i : Nat} (hx : timeline.points[i]? = some x)
    (hp : given[timeline.firstId + i]? = some p) :
    Stands streamOf (Inside θ before t timeline given) x p := by
  intro u hu h
  obtain ⟨hnumbered, hmade, -⟩ := h.2.orderly hu
  obtain ⟨q, hq, hcaptured⟩ := hnumbered.stands i x hx
  obtain ⟨hpos, hle⟩ := hmade x (List.mem_of_getElem? hx)
  rw [hp] at hq
  cases hq
  exact ⟨hpos, hle, hcaptured⟩

theorem fields_spec {f : StreamTimeline → Host σ ω α} {Q : α → HostState Θ σ ω → Prop}
    {E : Exn → HostState Θ σ ω → Prop} (hP : (system (ω := ω) Θ streamOf).Stable θ P)
    (hf : ∀ u, u.Coherent streamOf → P u → Closed θ (.timeline t) u →
      Ends streamOf θ (f (u.base.timeline t)) Q E u)
    (h : P s ∧ Closed θ (.timeline t) s) :
    Ends streamOf θ (Host.request (.fields t) >>= f) Q E s := by
  refine wp_ask_bind (stable_and hP closed_stable) (fun u hu hPu => ⟨hPu.2.holder, ?_⟩) h
  rintro _ _ ⟨⟩
  exact hf u hu hPu.1 hPu.2

theorem getPoint_spec (hP : (system (ω := ω) Θ streamOf).Stable θ P)
    (hle : timeline.firstId ≤ id) (h : P s) :
    Ends streamOf θ (Host.getPoint timeline id)
      (fun x u => P u ∧ timeline.points[id - timeline.firstId]? = some x)
      (fun e u => P u ∧ e = Timelines.neverGave ∧
        timeline.firstId + timeline.points.length ≤ id) s := by
  unfold Host.getPoint
  rw [if_neg (Nat.not_lt.mpr hle)]
  cases hx : timeline.points[id - timeline.firstId]? with
  | some x => exact wp_ret (stable_and hP fun _ _ _ h => h) ⟨h, rfl⟩
  | none =>
      have hge := List.getElem?_eq_none_iff.mp hx
      have hpast : timeline.firstId + timeline.points.length ≤ id := by omega
      exact wp_throw (stable_and hP fun _ _ _ h => h) ⟨h, rfl, hpast⟩

/-! ## What is asked of an id -/

section OfId

variable {f : Ticket → Host σ ω α} {known : α} {Q : α → HostState Θ σ ω → Prop}

/-- **What `is_complete`, `wait` and `enqueue_wait` have in common.** Of an id
that is known to be complete the point has been reached; for another there is a
ticket that stands for its point. -/
theorem ofId_spec (hQ : ∀ a, Settled θ (.timeline t) (Q a))
    (hknown : ∀ u p, Resting θ before u → (u.base.given t)[id]? = some p →
      u.base.device.Reached p → Q known u)
    (hpoint : ∀ timeline given x p u, timeline.firstId ≤ id →
      timeline.points[id - timeline.firstId]? = some x → given[id]? = some p →
      Inside θ before t timeline given u →
      Ends streamOf θ (f x) (fun a v => Q a v ∧ Closed θ (.timeline t) v)
        (fun e v => (Resting θ before v ∧ Closed θ (.timeline t) v) ∧ e = .error) u)
    (h : Resting θ before s) :
    Ends streamOf θ
      (Host.underMutex (.timeline t) do
        let timeline ← Host.request (.fields t)
        if Timelines.isKnownComplete timeline id then pure known
        else do
          let point ← Host.getPoint timeline id
          f point)
      Q (fun e u => Resting θ before u ∧ Refused before t id e) s := by
  have hrests : Settled θ (.timeline t) fun u => Resting θ before u := resting_settled
  apply underMutex_spec hrests hQ (fun e => hrests.and const_settled) h
  intro u _ hu hclosed
  refine fields_spec hrests.system ?_ ⟨hu, hclosed⟩
  intro v hv hrest hclosed
  have hunder := hclosed.under
  have hbefore := (hrest.1.evolves.given t).length_le
  generalize v.base.timeline t = timeline at hunder ⊢
  generalize v.base.given t = given at hunder hbefore
  obtain ⟨hnumbered, -, -⟩ := hunder.orderly hv
  have hlength := hnumbered.length
  by_cases hlt : id < timeline.firstId
  · -- all that has left has been reached
    rw [if_pos (by simpa [Timelines.isKnownComplete] using hlt)]
    obtain ⟨p, hp⟩ : ∃ p, given[id]? = some p := ⟨_, List.getElem?_eq_getElem (by omega)⟩
    refine wp_ret (stable_and (hQ known).system closed_stable) ⟨hknown v p hrest ?_ ?_, hclosed⟩
    · rwa [hunder.given]
    · exact hnumbered.dropped id p hp hlt
  · rw [if_neg (by simpa [Timelines.isKnownComplete] using hlt)]
    apply wp_bind
    refine wp_mono (getPoint_spec inside_settled.system (Nat.not_lt.mp hlt) ⟨hrest, hunder⟩) ?_ ?_
    · rintro x w ⟨hw, hx⟩
      have hbound := (List.getElem?_eq_some_iff.mp hx).1
      obtain ⟨p, hp⟩ : ∃ p, given[id]? = some p := ⟨_, List.getElem?_eq_getElem (by omega)⟩
      refine wp_mono (hpoint timeline given x p w (Nat.not_lt.mp hlt) hx hp hw) (fun _ _ h => h) ?_
      rintro e w' ⟨⟨hrest, hclosed⟩, rfl⟩
      exact ⟨⟨hrest, refused_error⟩, hclosed⟩
    · rintro e w ⟨⟨hrest, hunder⟩, rfl, hge⟩
      exact ⟨⟨hrest, fun _ => by omega⟩, hunder.closed⟩

end OfId

theorem isComplete_spec (h : Resting θ before s) :
    Ends streamOf θ (Host.isComplete t id)
      (fun complete u => Resting θ before u ∧ Of t id (fun p => Tells before p complete) u)
      (fun e u => Resting θ before u ∧ Refused before t id e) s := by
  refine ofId_spec (fun _ => resting_settled.and (of_settled fun _ => tells_settled)) ?_ ?_ h
  · exact fun u p hu hp hreached => ⟨hu, p, hp, fun _ => hreached, fun h => by cases h⟩
  · intro timeline given x p u hle hx hp hu
    have hat : given[timeline.firstId + (id - timeline.firstId)]? = some p := by
      rwa [Nat.add_sub_cancel' hle]
    refine wp_mono (recorderIsComplete_spec inside_settled (fun _ h => h.1.1.evolves)
      (inside_stands hx hat) hu) ?_ ?_
    · rintro complete v ⟨hv, htells⟩
      exact ⟨⟨hv.1, p, by rwa [hv.2.given], htells⟩, hv.2.closed⟩
    · exact fun e v hv => ⟨⟨hv.1.1, hv.1.2.closed⟩, hv.2⟩

theorem enqueueWait_spec {waiter : σ} (h : Resting θ before s) :
    Ends streamOf θ (Host.enqueueWait waiter t id)
      (fun _ u => Resting θ before u ∧ Of t id (Scheduled before waiter) u)
      (fun e u => Resting θ before u ∧ Refused before t id e) s := by
  refine ofId_spec (fun _ => resting_settled.and (of_settled fun _ => scheduled_settled)) ?_ ?_ h
  · exact fun u p hu hp hreached => ⟨hu, p, hp, .inl hreached⟩
  · intro timeline given x p u hle hx hp hu
    have hat : given[timeline.firstId + (id - timeline.firstId)]? = some p := by
      rwa [Nat.add_sub_cancel' hle]
    refine wp_mono (recorderEnqueueWait_spec inside_settled (fun _ h => h.1.1.evolves) ?_
      (inside_stands hx hat) hu) ?_ ?_
    · intro v hv
      exact ⟨⟨⟨hv.1.1.evolves.trans (.issue waiter (.wait p) rfl rfl rfl), hv.1.1.away⟩, hv.1.2⟩,
        hv.2.holder, hv.2.timeline, hv.2.halfway, hv.2.given⟩
    · rintro _ v ⟨hv, hscheduled⟩
      exact ⟨⟨hv.1, p, by rwa [hv.2.given], hscheduled⟩, hv.2.closed⟩
    · exact fun e v hv => ⟨⟨hv.1.1, hv.1.2.closed⟩, hv.2⟩

/-! ## `wait` -/

/-- What `wait` goes on with once it lets go of the lock. -/
def Began (θ : Θ) (before : HostState Θ σ ω) (t : Timeline) (id : Nat) (began : Option Ticket)
    (s : HostState Θ σ ω) : Prop :=
  match began with
  | none => Resting θ before s ∧ Of t id (fun p s => s.base.device.Reached p) s
  | some x => ∃ p, Waiting θ before t id x p s

theorem began_settled {m : Mutex} {began : Option Ticket} :
    Settled θ m fun s : HostState Θ σ ω => Began θ before t id began s := by
  cases began with
  | none => exact resting_settled.and (of_settled fun _ => reached_settled)
  | some x =>
      refine ⟨?_, ?_⟩
      · rintro s u hev hown ⟨p, h⟩
        exact ⟨p, (waiting_settled (m := m)).stable s u hev hown h⟩
      · rintro s o ⟨p, h⟩
        exact ⟨p, waiting_settled.holder s o h⟩

theorem beginWait_spec (h : Resting θ before s) :
    Ends streamOf θ (Host.beginWait t id) (fun began u => Began θ before t id began u)
      (fun e u => Resting θ before u ∧ Refused before t id e) s := by
  refine ofId_spec (fun _ => began_settled) (fun u p hu hp hreached => ⟨hu, p, hp, hreached⟩) ?_ h
  intro timeline given x p u hle hx hp hu
  refine wp_ask_bind inside_settled.system (fun v hv hPv => ?_) hu
  obtain ⟨hrest, hunder⟩ := hPv
  have haway := hrest.1.away t
  rw [HostState.waits, List.filter_eq_nil_iff] at haway
  refine ⟨⟨hunder.holder, hunder.halfway, fun w hw heq => haway w hw (by simp [heq]),
    by rwa [hunder.timeline], by rwa [hunder.timeline]⟩, ?_⟩
  rintro _ w ⟨⟩
  have hkeeps : Closed θ (.timeline t) (v.addWaiter t (θ, id, x)) :=
    ⟨hunder.holder, hunder.closed.stays⟩
  have hadded : Waiting θ before t id x p (v.addWaiter t (θ, id, x)) := by
    refine ⟨hrest.1.evolves.trans (Does.waiterAdded (θ := θ)).evolves, hrest.2, ?_, ?_, ?_⟩
    · have haway := hrest.1.away t
      rw [HostState.waits] at haway
      simp [HostState.waits, HostState.addWaiter, haway]
    · intro t' hne
      have haway := hrest.1.away t'
      rw [HostState.waits] at haway
      simp [HostState.waits, HostState.addWaiter, hne, haway]
    · exact (congrArg (fun given => given[id]?) hunder.given).trans hp
  exact wp_ret (stable_and (began_settled (m := .recorder)).system closed_stable)
    ⟨⟨p, hadded⟩, hkeeps⟩

theorem endWait_spec (hP : Settled θ (.timeline t) P)
    (hremove : ∀ u, Waiting θ before t id x p u → P u → P (u.removeWaiter t (θ, id, x)))
    (h : P s ∧ Waiting θ before t id x p s) :
    Ends streamOf θ (Host.endWait t id x) (fun _ u => P u ∧ Resting θ before u)
      (fun _ _ => False) s := by
  have hwaits : Settled θ (.timeline t) fun u => P u ∧ Waiting θ before t id x p u :=
    hP.and waiting_settled
  have hafter : Settled θ (.timeline t) fun u => P u ∧ Resting θ before u :=
    hP.and resting_settled
  apply underMutex_spec hwaits (fun _ => hafter) (fun _ => const_settled) h
  intro u _ hu hclosed
  refine wp_ask (stable_and hwaits.system closed_stable)
    (fun _ => stable_and hafter.system closed_stable) (fun v hv hPv => ?_) ⟨hu, hclosed⟩
  obtain ⟨⟨hPv, hwaiting⟩, hopen⟩ := hPv
  have hcounted := (hv.timelines t).counted
  rw [kept_waiterCount] at hcounted
  have hpos : 0 < (v.base.timeline t).waiterCount := by
    rw [hcounted]
    exact List.length_pos_of_mem hwaiting.mem
  refine ⟨⟨hopen.holder, hopen.stays t rfl, hwaiting.mem, hpos⟩, ?_⟩
  rintro _ w ⟨⟩
  refine ⟨⟨hremove v hwaiting hPv, ⟨?_, ?_⟩, hwaiting.free⟩, hopen.holder, hopen.stays⟩
  · exact hwaiting.evolves.trans (Does.waiterRemoved (θ := θ)).evolves
  · intro t'
    by_cases heq : t' = t
    · subst heq
      have honly := hwaiting.waits
      rw [HostState.waits] at honly
      simp [HostState.waits, HostState.removeWaiter, ← List.erase_filter, honly]
    · have haway := hwaiting.away t' heq
      rw [HostState.waits] at haway
      simp [HostState.waits, HostState.removeWaiter, heq, haway]

theorem wait_spec (h : Resting θ before s) :
    Ends streamOf θ (Host.wait t id)
      (fun _ u => Resting θ before u ∧ Of t id (fun p u => u.base.device.Reached p) u)
      (fun e u => Resting θ before u ∧ Refused before t id e) s := by
  apply wp_bind
  refine wp_mono (beginWait_spec h) ?_ fun _ _ h => h
  intro began u hbegan
  cases began with
  | none =>
      exact wp_ret (resting_settled.and (of_settled (m := .recorder) fun _ =>
        reached_settled)).system hbegan
  | some x =>
      obtain ⟨p, hwaiting⟩ := hbegan
      apply wp_bind
      apply wp_tryCatch
      refine wp_mono (recorderWait_spec waiting_settled waiting_stands hwaiting) ?_ ?_
      · rintro _ v ⟨hwaiting, hv⟩
        have hreached : Settled θ (.timeline t) fun u : HostState Θ σ ω =>
            Of t id (fun p u => u.base.device.Reached p) u := of_settled fun _ => reached_settled
        refine wp_mono (endWait_spec hreached (fun _ _ h => h)
          ⟨⟨p, hwaiting.given, hv⟩, hwaiting⟩) ?_ fun _ _ h => h.elim
        exact fun _ w hw => ⟨hw.2, hw.1⟩
      · rintro e v ⟨hwaiting, rfl⟩
        apply wp_bind
        refine wp_mono (endWait_spec (P := fun _ => True) const_settled (fun _ _ h => h)
          ⟨trivial, hwaiting⟩) ?_ fun _ _ h => h.elim
        intro _ w hw
        exact wp_throw (resting_settled.and (const_settled (m := .recorder))).system
          ⟨hw.2, refused_error⟩

/-! ## `record` -/

/-- The oldest point goes back to the pool, where it has been reached and nobody waits. -/
theorem releaseFront_spec {points : List Ticket} (hpoints : timeline.points = x :: points)
    (hwaiters : timeline.waiterCount = 0)
    (h : Inside θ before t timeline given s ∧ ∀ p, given[timeline.firstId]? = some p →
      s.base.device.Reached p) :
    Ends streamOf θ (Host.release x (some t))
      (fun _ u => Resting θ before u ∧ Under θ t .leaving timeline given u) (fun _ _ => False) s := by
  have hreached : Settled θ .recorder fun u : HostState Θ σ ω =>
      Inside θ before t timeline given u ∧ ∀ p, given[timeline.firstId]? = some p →
        u.base.device.Reached p := by
    refine inside_settled.and ⟨fun u v hev _ hu p hp => hev.reached p (hu p hp), ?_⟩
    exact fun _ _ hu => hu
  have hafter : Settled θ .recorder fun u : HostState Θ σ ω =>
      Resting θ before u ∧ Under θ t .leaving timeline given u :=
    resting_settled.and under_steady.toSettled
  have hfirst : timeline.points[0]? = some x := by simp [hpoints]
  apply wp_of_rely
  intro u hsu hu
  have h := hreached.system s u hsu h
  obtain ⟨-, hmade, -⟩ := h.1.2.orderly hu
  have hpos := (hmade x (List.mem_of_getElem? hfirst)).1
  have hne : x ≠ noTicket := Nat.pos_iff_ne_zero.mp hpos
  rw [Host.release, if_neg hne]
  apply underMutex_spec hreached (fun _ => hafter) (fun _ => const_settled) h
  intro v _ hv hclosed
  refine wp_ask (stable_and hreached.system closed_stable)
    (fun _ => stable_and hafter.system closed_stable) (fun w hw hPw => ?_) ⟨hv, hclosed⟩
  obtain ⟨⟨⟨hrest, hunder⟩, hbehind⟩, hclosed⟩ := hPw
  obtain ⟨hnumbered, -, hcounted⟩ := hunder.orderly hw
  have hnobody : w.waiters t = [] := List.length_eq_zero_iff.mp (by omega)
  refine ⟨⟨hclosed.holder, hunder.holder, hunder.halfway, hnobody, ?_, ?_⟩, ?_⟩
  · simp [hunder.timeline, hpoints]
  · intro q hq
    obtain ⟨p, hp, hcaptured⟩ := hnumbered.stands 0 x hfirst
    rw [hcaptured] at hq
    cases hq
    exact hbehind _ hp
  · rintro _ _ ⟨⟩
    obtain ⟨hgiven, -⟩ := base_release x w.base
    have hgave : Does θ w (.giveBack x (some t)) () (w.giveBack x (some t)) := .gaveBack
    have hevolves := hrest.1.evolves.trans hgave.evolves
    have hfree : Free θ (w.giveBack x (some t)) := Free.setOwner (s := w) hrest.2 (by simp)
    refine ⟨⟨⟨⟨hevolves, hrest.1.away⟩, hfree⟩, hunder.holder, ?_, ?_, ?_⟩,
      closed_recorder hclosed.holder⟩
    · simpa [HostState.giveBack, setOwner] using hunder.timeline
    · simp [HostState.giveBack, setOwner]
    · exact (congrFun hgiven t).trans hunder.given

/-- The front of a timeline leaves. -/
theorem popPoint_spec (h : Resting θ before s ∧ Under θ t .leaving timeline given s) :
    Ends streamOf θ (Host.request (.popPoint t))
      (fun _ u => Inside θ before t { timeline with
        points := timeline.points.tail
        firstId := timeline.firstId + 1 } given u) (fun _ _ => False) s := by
  have hbefore : Settled θ .recorder fun u : HostState Θ σ ω =>
      Resting θ before u ∧ Under θ t .leaving timeline given u :=
    resting_settled.and under_steady.toSettled
  refine wp_ask hbefore.system (fun _ => inside_settled.system) (fun u _ hu => ?_) h
  refine ⟨⟨hu.2.holder, hu.2.halfway⟩, ?_⟩
  rintro _ _ ⟨⟩
  have hevolves := hu.1.1.evolves.trans (Does.popped (θ := θ) (s := u) (t := t)).evolves
  refine ⟨⟨⟨hevolves, hu.1.1.away⟩, hu.1.2⟩, hu.2.holder, ?_, ?_, hu.2.given⟩
  · simp [HostState.pop, Timelines.setTimeline, hu.2.timeline]
  · simp [HostState.pop]

/-- The thread has the mutex, and the timeline gave no id. -/
def Dropping (θ : Θ) (before : HostState Θ σ ω) (t : Timeline) (given : List (Point σ))
    (s : HostState Θ σ ω) : Prop :=
  ∃ timeline, Inside θ before t timeline given s

theorem dropping_stable :
    (system (ω := ω) Θ streamOf).Stable θ fun s => Dropping θ before t given s := by
  rintro s u hsu ⟨timeline, h⟩
  exact ⟨timeline, inside_settled.system s u hsu h⟩

theorem dropLoop_spec {points : List Ticket} (hpoints : timeline.points = points)
    (hwaiters : timeline.waiterCount = 0) (h : Inside θ before t timeline given s) :
    Ends streamOf θ (Host.dropLoop t points) (fun _ u => Dropping θ before t given u)
      (fun _ u => Dropping θ before t given u) s := by
  induction points generalizing timeline s with
  | nil => exact wp_ret dropping_stable ⟨timeline, h⟩
  | cons x points ih =>
      have hfirst : timeline.points[0]? = some x := by simp [hpoints]
      apply wp_of_rely
      intro u hsu hu
      have h := inside_settled.system s u hsu h
      obtain ⟨hnumbered, -, -⟩ := h.2.orderly hu
      obtain ⟨p, hp, -⟩ := hnumbered.stands 0 x hfirst
      apply wp_bind
      refine wp_mono (recorderIsComplete_spec inside_settled (fun _ h => h.1.1.evolves)
        (inside_stands hfirst hp) h) ?_ fun e v hv => ⟨timeline, hv.1⟩
      rintro complete v ⟨hv, htells⟩
      cases complete with
      | false => exact wp_ret dropping_stable ⟨timeline, hv⟩
      | true =>
          apply wp_bind
          refine wp_mono (releaseFront_spec hpoints hwaiters ⟨hv, ?_⟩) ?_ fun _ _ h => h.elim
          · intro q hq
            rw [Nat.add_zero, hq] at hp
            cases hp
            exact htells.reached rfl
          · intro _ w hw
            apply wp_bind
            refine wp_mono (popPoint_spec hw) ?_ fun _ _ h => h.elim
            intro _ w hw
            refine ih ?_ ?_ hw
            · simp [hpoints]
            · exact hwaiters

theorem dropReachedPoints_spec (h : Resting θ before s ∧ Closed θ (.timeline t) s) :
    Ends streamOf θ (Host.dropReachedPoints t)
      (fun _ u => Resting θ before u ∧ Closed θ (.timeline t) u)
      (fun _ u => Resting θ before u ∧ Closed θ (.timeline t) u) s := by
  have hrests : Settled θ (.timeline t) fun u => Resting θ before u := resting_settled
  refine fields_spec hrests.system ?_ h
  intro u _ hrest hclosed
  split
  · rename_i hwaiters
    have hleft : ∀ v, Dropping θ before t (u.base.given t) v →
        Resting θ before v ∧ Closed θ (.timeline t) v := by
      rintro v ⟨timeline, hrest, hunder⟩
      exact ⟨hrest, hunder.closed⟩
    exact wp_mono (dropLoop_spec rfl hwaiters ⟨hrest, hclosed.under⟩) (fun _ => hleft) fun _ => hleft
  · exact wp_ret (stable_and hrests.system closed_stable) ⟨hrest, hclosed⟩

/-- A point has just joined, and stands for the id that comes after those of
`given`. -/
def Pushed (streamOf : Timeline → σ) (θ : Θ) (before : HostState Θ σ ω) (t : Timeline)
    (given : List (Point σ)) (s : HostState Θ σ ω) : Prop :=
  ∃ timeline p, (Resting θ before s ∧ Under θ t .telling timeline (given ++ [p]) s) ∧
    p.stream = streamOf t ∧ (before.base.device.line (streamOf t)).ops.length ≤ p.position

theorem pushed_stable : (system (ω := ω) Θ streamOf).Stable θ
    fun s => Pushed streamOf θ before t given s := by
  have hunder : ∀ timeline given, Settled θ .recorder fun u =>
      Resting θ before u ∧ Under θ t .telling timeline given u :=
    fun _ _ => resting_settled.and under_steady.toSettled
  rintro s u hsu ⟨timeline, p, h, hp⟩
  exact ⟨timeline, p, (hunder _ _).system s u hsu h, hp⟩

/-- The thread has the mutex, and may have a ticket. -/
abbrev Holding (θ : Θ) (before : HostState Θ σ ω) (t : Timeline) (timeline : StreamTimeline)
    (given : List (Point σ)) (s : HostState Θ σ ω) : Prop :=
  Since θ before s ∧ Under θ t .nothing timeline given s

theorem holding_steady : Steady θ fun s => Holding θ before t timeline given s :=
  since_steady.and under_steady

theorem pushPoint_spec
    (h : Holding θ before t timeline given s ∧ Recorded θ before (streamOf t) x s) :
    Ends streamOf θ (Host.pushPoint t x) (fun _ u => Pushed streamOf θ before t given u)
      (fun _ u => Holding θ before t timeline given u ∧ Has θ x u) s := by
  have hstable : Settled θ .recorder fun u => Holding θ before t timeline given u ∧
      Recorded θ before (streamOf t) x u := holding_steady.toSettled.and recorded_settled
  apply wp_bind
  refine wp_mono (hostMemory_spec hstable.system h) ?_ fun _ _ h => ⟨h.1, h.2.has⟩
  intro _ u hu
  refine wp_ask hstable.system (fun _ => pushed_stable) (fun v _ hv => ?_) hu
  obtain ⟨⟨hsince, hunder⟩, hrecorded⟩ := hv
  obtain ⟨p, hcaptured, hstream, hposition⟩ := hrecorded.captured
  refine ⟨⟨hunder.holder, hunder.halfway, hrecorded.has.owner, p, hcaptured, hstream⟩, ?_⟩
  rintro _ _ ⟨⟩
  have hevolves := hsince.evolves.trans (Does.pushed (θ := θ) (s := v) (t := t) (x := x)).evolves
  have hfree : Free θ (v.push t x) := Has.setOwner (s := v) hrecorded.has (by simp)
  refine ⟨_, p, ⟨⟨⟨hevolves, hsince.away⟩, hfree⟩, hunder.holder, rfl, ?_, ?_⟩,
    hstream, hposition⟩
  · simp [HostState.push, setOwner]
  · simp [HostState.push, setOwner, hcaptured, hunder.given]

/-- The id is told. -/
theorem lastId_spec (hlength : (before.base.given t).length ≤ given.length)
    (h : Pushed streamOf θ before t given s) :
    Ends streamOf θ (Host.request (.lastId t))
      (fun id u => (Resting θ before u ∧ Gave streamOf θ before t id u) ∧ Closed θ (.timeline t) u)
      (fun _ _ => False) s := by
  have hafter : ∀ id, Settled θ (.timeline t) fun u =>
      Resting θ before u ∧ Gave streamOf θ before t id u :=
    fun _ => resting_settled.and gave_settled
  refine wp_ask pushed_stable (fun id => stable_and (hafter id).system closed_stable)
    (fun v hv hPv => ?_) h
  obtain ⟨timeline, p, ⟨hrest, hunder⟩, hp⟩ := hPv
  refine ⟨⟨hunder.holder, hunder.halfway⟩, ?_⟩
  rintro _ _ ⟨⟩
  -- all ids but that of the last point have been told
  have hid : v.lastId t = given.length := by
    have hgiven := (hv.tallied t).given
    rw [hunder.given, due, if_pos hunder.halfway, List.length_append, List.length_singleton] at hgiven
    rw [hv.lastId_eq hunder.halfway]
    omega
  have hevolves := hrest.1.evolves.trans (Does.toldId (θ := θ) (s := v) (t := t)).evolves
  have hgave : Gave streamOf θ before t (v.lastId t) (v.tell θ t) := by
    refine ⟨by rw [hid]; exact hlength, by simp [HostState.tell], p, ?_, hp⟩
    have hat : (v.base.given t)[v.lastId t]? = some p := by simp [hunder.given, hid]
    exact hat
  refine ⟨⟨⟨⟨hevolves, hrest.1.away⟩, hrest.2⟩, hgave⟩, hunder.holder, ?_⟩
  rintro _ ⟨⟩
  simp [HostState.tell]

theorem record_spec (h : Resting θ before s) :
    Ends streamOf θ (Host.record t (streamOf t))
      (fun id u => Resting θ before u ∧ Gave streamOf θ before t id u)
      (fun _ u => Resting θ before u) s := by
  have hrests : Settled θ (.timeline t) fun u => Resting θ before u := resting_settled
  apply underMutex_spec hrests (fun _ => hrests.and gave_settled) (fun _ => hrests) h
  intro u _ hu hclosed
  apply wp_bind
  refine wp_mono (dropReachedPoints_spec ⟨hu, hclosed⟩) ?_ fun _ _ h => h
  rintro _ u ⟨hrest, hclosed⟩
  have hlength := (hrest.1.evolves.given t).length_le
  have hunder := hclosed.under
  generalize u.base.given t = given at hunder hlength
  generalize u.base.timeline t = timeline at hunder
  have hleft : ∀ v, Holding θ before t timeline given v ∧ Free θ v →
      Resting θ before v ∧ Closed θ (.timeline t) v :=
    fun v hv => ⟨⟨hv.1.1, hv.2⟩, hv.1.2.closed⟩
  apply wp_bind
  refine wp_mono (recorderRecord_spec holding_steady (fun _ h => h.1.evolves)
    ⟨⟨hrest.1, hunder⟩, hrest.2⟩) ?_ fun _ => hleft
  intro x v hv
  apply wp_bind
  apply wp_tryCatch
  refine wp_mono (pushPoint_spec hv) ?_ ?_
  · exact fun _ w hw => wp_mono (lastId_spec hlength hw) (fun _ _ h => h) fun _ _ h => h.elim
  · intro e w hw
    apply wp_bind
    refine wp_mono (release_spec holding_steady hw) ?_ fun _ _ h => h.elim
    intro _ w hw
    exact wp_throw (stable_and hrests.system closed_stable) (hleft w hw)

end HostState

end RexlibCuda
