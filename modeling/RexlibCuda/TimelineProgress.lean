import RexlibCuda.TimelineThreadsSafety

/-! Threads that use timelines come to an end: they never wait for each other's
locks in a circle, and no wait for a point lasts longer than the streams take. -/

namespace RexlibCuda

open Calls Streams

open Relation (ReflTransGen)

/-- The driver gives up a wait. -/
def HostCall.GivesUp {σ ω : Type} : (c : HostCall σ ω) → c.Answer → Prop
  | await _, returned => returned = false
  | _, _ => False

namespace HostState

variable {Θ σ ω : Type} [DecidableEq Θ] [DecidableEq σ] {streamOf : Timeline → σ} {θ : Θ}
  {s : HostState Θ σ ω} {m : HostThreads Θ σ ω}

/-- The same threads and streams, where the driver gives up no wait. -/
def patient (Θ : Type) [DecidableEq Θ] (streamOf : Timeline → σ) :
    System Θ (HostCall σ ω) HostCall.Answer (HostState Θ σ ω) where
  __ := system Θ streamOf
  does θ s c a u := Does θ s c a u ∧ ¬ c.GivesUp a
  keeps hs hdemands h := (system Θ streamOf).keeps hs hdemands h.1
  others hne hs hdemands h := (system Θ streamOf).others hne hs hdemands h.1

omit [DecidableEq Θ] in
theorem moves_ends (hs : s.Coherent streamOf) : Acc (fun u s : HostState Θ σ ω => Moves s u) s := by
  obtain ⟨streams, hwithin⟩ := hs.within
  have hends := InvImage.accessible (fun s : HostState Θ σ ω => s.base.device) hwithin.ends
  refine Subrelation.accessible ?_ hends
  rintro u s ⟨d, hexecutes, rfl⟩
  exact hexecutes

/-- Every call but that of a mutex that somebody has is answered. -/
theorem exists_does (hdrained : s.base.device.Drained) {c : HostCall σ ω}
    (hdemands : s.Demands streamOf θ c) (hfree : ∀ l, c.use = .takes l → s.holder l = none) :
    ∃ a u, Does θ s c a u ∧ ¬ c.GivesUp a := by
  cases c with
  | lock l => exact ⟨(), _, .locked (hfree l rfl), id⟩
  | unlock l => exact ⟨(), _, .unlocked, id⟩
  | hostAllocate => exact ⟨true, s, .hostAllocated, id⟩
  | takeAvailable => exact ⟨_, _, .taken, id⟩
  | reserveAvailable => exact ⟨true, _, .roomReserved, id⟩
  | makeEvent => exact ⟨true, s, .eventMade, id⟩
  | addEvent => exact ⟨_, _, .eventAdded, id⟩
  | eventAt x => exact ⟨(), s, .gotEvent, id⟩
  | giveBack x dropped => exact ⟨(), _, .gaveBack, id⟩
  | eventRecord x stream => exact ⟨true, _, .recorded, id⟩
  | eventQuery x => exact ⟨_, s, .queried, id⟩
  | eventSynchronize x => exact ⟨_, s, .synchronizing, id⟩
  | await p =>
      refine ⟨true, s, .synchronized fun q hq => ?_, by simp [HostCall.GivesUp]⟩
      -- it is on a stream that has executed all there was
      have hle := hdemands q hq
      rw [← hdrained q.stream] at hle
      exact hle
  | streamWaitEvent waiter x => exact ⟨true, _, .scheduled, id⟩
  | issue stream w => exact ⟨(), _, .issued, id⟩
  | fields t => exact ⟨_, s, .gotFields, id⟩
  | pushPoint t x => exact ⟨(), _, .pushed, id⟩
  | popPoint t => exact ⟨(), _, .popped, id⟩
  | lastId t => exact ⟨_, _, .toldId, fun h => h⟩
  | addWaiter t id x => exact ⟨(), _, .waiterAdded, fun h => h⟩
  | removeWaiter t id x => exact ⟨(), _, .waiterRemoved, fun h => h⟩
  | recordUse b => exact ⟨true, s, .useRecorded, id⟩

theorem inOrder (hrun : Runs streamOf start m) :
    m.InOrder HostCall.use Mutex.rank fun s : HostState Θ σ ω => s.holder := by
  refine Runs.invariant (fun m m' hm hstep => ?_) hrun ?_
  · refine hm.step (locking streamOf) ?_ hstep
    rintro θ s task x ⟨-, rfl⟩
    exact Host.programUnder_inOrder streamOf task.client task.allocator
  · intro θ
    refine ⟨[], fun l => ?_, List.Pairwise.nil, fun _ => rfl, nofun⟩
    simp [start, empty]

theorem few (hrun : Runs streamOf start m) : m.Few :=
  Runs.invariant (fun _ _ hm hstep => hm.step hstep) hrun ⟨∅, fun _ h => absurd rfl h⟩

/-- Where no thread and no stream can go on, all is done. -/
theorem done_of_stuck (hrun : Runs streamOf start m)
    (hstuck : ∀ m', ¬ Threads.Goes (patient Θ streamOf) m m') :
    (∀ θ, m.running θ = none) ∧ m.shared.base.device.Drained := by
  have hsound := reached hrun
  have hdrained : m.shared.base.device.Drained :=
    hsound.inv.device.drained fun d hexecutes => hstuck _ (.moved ⟨d, hexecutes, rfl⟩)
  refine ⟨fun θ => ?_, hdrained⟩
  by_contra hruns
  obtain ⟨⟨task, x⟩, hx⟩ := Option.ne_none_iff_exists'.mp hruns
  have hrank : ∀ l : Mutex, l.rank < 3 := fun l => by cases l <;> simp [Mutex.rank]
  obtain ⟨θ, task, x, hx, hwaits⟩ := (inOrder hrun).exists_not_waits hrank hx
  cases x with
  | ret transcript => exact hstuck _ (.returned hx)
  | throw e => exact hstuck _ (.threw hx)
  | call c k =>
      have hdemands := (hsound.running θ task _ hx m.shared ((system Θ streamOf).refl θ _)
        hsound.inv).1
      obtain ⟨a, u, hdoes⟩ := exists_does hdrained hdemands fun l huse => by
        by_contra hheld
        exact hwaits ⟨c, k, l, rfl, huse, hheld⟩
      exact hstuck _ (.called hx hdoes)

theorem goes_of_patient {m' : HostThreads Θ σ ω} (h : Threads.Goes (patient Θ streamOf) m m') :
    Threads.Goes (system Θ streamOf) m m' := by
  cases h with
  | began idle may => exact may.elim
  | called here does => exact .called here does.1
  | returned here => exact .returned here
  | threw here => exact .threw here
  | moved moves => exact .moved moves

theorem step_of_goes {m' : HostThreads Θ σ ω} (h : Threads.Goes (system Θ streamOf) m m') :
    Threads.Step (system Θ streamOf) (Begins streamOf) m m' := by
  cases h with
  | began idle may => exact may.elim
  | called here does => exact .called here does
  | returned here => exact .returned here
  | threw here => exact .threw here
  | moved moves => exact .moved moves

/-- **Nobody is stuck.** Threads that begin nothing more come to an end, however
they and the streams are scheduled; where no thread and no stream can go on, but
for waits the driver gives up, every client is done and every stream has
executed all it was issued; and there is always a way there. -/
theorem clients_end (hrun : Runs streamOf start m) :
    Acc (fun m' m => Threads.Goes (system Θ streamOf) m m') m ∧
    ((∀ m', ¬ Threads.Goes (patient Θ streamOf) m m') →
      (∀ θ, m.running θ = none) ∧ m.shared.base.device.Drained) ∧
    ∃ m', ReflTransGen (Threads.Goes (patient Θ streamOf)) m m' ∧
      (∀ θ, m'.running θ = none) ∧ m'.shared.base.device.Drained := by
  obtain ⟨F, hF⟩ := few hrun
  have hends := (reached hrun).ends verified (fun s hs => moves_ends hs) hF
  refine ⟨hends, done_of_stuck hrun, ?_⟩
  clear hF
  induction hends with
  | intro m _ ih =>
      by_cases hstuck : ∀ m', ¬ Threads.Goes (patient Θ streamOf) m m'
      · exact ⟨m, .refl, done_of_stuck hrun hstuck⟩
      · obtain ⟨m', hgoes⟩ := not_forall_not.mp hstuck
        have hnext := goes_of_patient hgoes
        obtain ⟨m'', hmore, hdone⟩ := ih m' hnext (hrun.tail (step_of_goes hnext))
        exact ⟨m'', .head hgoes hmore, hdone⟩

theorem clients_end_one : ∃ m : HostThreads Bool Nat Unit, Runs (fun _ => 3) start m ∧
    (∃ task k, m.running true = some (task, .call (.eventRecord 1 3) k)) ∧
      Acc (fun m' m => Threads.Goes (system Bool fun _ => 3) m m') m ∧
      (∃ m', Threads.Goes (patient Bool fun _ => 3) m m') ∧
      ∃ m', ReflTransGen (Threads.Goes (patient Bool fun _ => 3)) m m' ∧
        (∀ θ, m'.running θ = none) ∧ m'.shared.base.device.Drained := by
  obtain ⟨-, m, hrun, ⟨task, k, hx⟩, -⟩ := recorded_and_asked
  obtain ⟨hends, hstuck, hway⟩ := clients_end hrun
  refine ⟨m, hrun, ⟨task, k, hx⟩, hends, ?_, hway⟩
  -- somebody can go on, as not all are done
  by_contra hnone
  have hdone := (hstuck (not_exists.mp hnone)).1 true
  simp [hx] at hdone

/-! ## Nothing is lost -/

/-- Threads that are done hold no mutex. -/
theorem holder_of_rest (hrun : Runs streamOf start m) (hrest : ∀ θ, m.running θ = none)
    (mutex : Mutex) : m.shared.holder mutex = none := by
  by_contra hheld
  obtain ⟨θ, hholder⟩ := Option.ne_none_iff_exists'.mp hheld
  obtain ⟨locks, hh⟩ := inOrder hrun θ
  have hmem := (hh.exactly mutex).mp hholder
  rw [hh.idle (hrest θ)] at hmem
  cases hmem

theorem waiters_of_rest (hrun : Runs streamOf start m) (hrest : ∀ θ, m.running θ = none)
    (t : Timeline) : m.shared.waiters t = [] := by
  rw [List.eq_nil_iff_forall_not_mem]
  rintro ⟨θ, w⟩ hw
  have haway := ((reached hrun).idle θ (hrest θ)).2 t
  rw [waits, List.filter_eq_nil_iff] at haway
  exact haway _ hw (by simp)

theorem halfway_of_rest (hrun : Runs streamOf start m) (hrest : ∀ θ, m.running θ = none)
    (t : Timeline) : m.shared.halfway t = .nothing := by
  by_contra hhalfway
  exact (reached hrun).inv.locked t hhalfway (holder_of_rest hrun hrest _)

theorem kept_of_rest (hrun : Runs streamOf start m) (hrest : ∀ θ, m.running θ = none)
    (t : Timeline) : m.shared.kept t = m.shared.base.timeline t :=
  kept_of_stays (halfway_of_rest hrun hrest t)

/-- The recorder, the timelines and the streams are as whole operations, one
after another, leave them. -/
theorem base_sound (hrun : Runs streamOf start m) (hrest : ∀ θ, m.running θ = none) :
    m.shared.base.Sound streamOf := by
  have hs := (reached hrun).inv
  have hkept := kept_of_rest hrun hrest
  have hpoints : ∀ t, (m.shared.kept t).points = m.shared.base.points t := by
    intro t
    rw [hkept]
    rfl
  have howned : Owned m.shared.base.recorder m.shared.base.points := by
    refine ⟨hs.once, fun x hx => ?_, fun t => (hs.timelines t).distinct, fun t x hx => ?_, ?_,
      hs.room⟩
    · exact (hs.placed.made x).mpr (by simp [(hs.placed.pool x).mp hx])
    · rw [← hpoints] at hx
      obtain ⟨-, hpool, hpos, hle⟩ := hs.placed.point hx
      exact ⟨hpos, hle, hpool⟩
    · intro t t' x hx hx'
      rw [← hpoints] at hx hx'
      have howner := (hs.placed.points t x).mp hx
      rw [(hs.placed.points t' x).mp hx'] at howner
      exact (Owner.timeline.inj howner).symm
  have hwaits := hs.waits
  refine ⟨hs.device, howned, fun t => ?_, fun t => ?_, fun w hw => ?_, fun t => ?_⟩
  · have hnumbered := (hs.timelines t).numbered
    rwa [hkept] at hnumbered
  · have hgiven := (hs.tallied t).given
    rw [due, if_neg (by simp [halfway_of_rest hrun hrest]), Nat.add_zero] at hgiven
    rw [hgiven]
    exact (hs.tallied t).inOrder
  · simp [hwaits] at hw
  · have hcounted := (hs.timelines t).counted
    rw [hkept, waiters_of_rest hrun hrest] at hcounted
    rw [hwaits, hcounted]
    rfl

/-- **No ticket is lost and no wait is left counted**, whatever fails. An event
is always in the pool, in a timeline, or in the hand of a thread that is inside
an operation. Once every thread is done no mutex is held, `m_waiter_count` is
zero everywhere, every event is in the pool or in a timeline, and the objects
satisfy the invariant of whole operations, one after another: among others,
there is room for every ticket in the pool, and the calls of `record` have
returned one id after another. -/
theorem nothing_lost (hrun : Runs streamOf start m) :
    (∀ x, 0 < x → x ≤ m.shared.base.recorder.events →
      x ∈ m.shared.base.recorder.available ∨ (∃ t, x ∈ (m.shared.kept t).points) ∨
        ∃ θ, m.running θ ≠ none ∧ m.shared.owner x = .hand θ) ∧
    ((∀ θ, m.running θ = none) →
      (∀ mutex, m.shared.holder mutex = none) ∧
      (∀ t, (m.shared.base.timeline t).waiterCount = 0) ∧
      (∀ x, 0 < x → x ≤ m.shared.base.recorder.events →
        x ∈ m.shared.base.recorder.available ∨ ∃ t, x ∈ (m.shared.base.timeline t).points) ∧
      m.shared.base.Sound streamOf) := by
  have hs := (reached hrun).inv
  have hplaced : ∀ x, 0 < x → x ≤ m.shared.base.recorder.events →
      x ∈ m.shared.base.recorder.available ∨ (∃ t, x ∈ (m.shared.kept t).points) ∨
        ∃ θ, m.running θ ≠ none ∧ m.shared.owner x = .hand θ := by
    intro x hpos hle
    have hsome := (hs.placed.made x).mp ⟨hpos, hle⟩
    cases howner : m.shared.owner x with
    | nobody => exact absurd howner hsome
    | pool => exact .inl ((hs.placed.pool x).mpr howner)
    | timeline t => exact .inr (.inl ⟨t, (hs.placed.points t x).mpr howner⟩)
    | hand θ =>
        refine .inr (.inr ⟨θ, fun hidle => ?_, rfl⟩)
        exact ((reached hrun).idle θ hidle).1 x howner
  refine ⟨hplaced, fun hrest => ?_⟩
  have hkept := kept_of_rest hrun hrest
  have hcounted : ∀ t, (m.shared.base.timeline t).waiterCount = 0 := by
    intro t
    have hcounted := (hs.timelines t).counted
    rwa [hkept, waiters_of_rest hrun hrest, List.length_nil] at hcounted
  refine ⟨holder_of_rest hrun hrest, hcounted, fun x hpos hle => ?_, base_sound hrun hrest⟩
  rcases hplaced x hpos hle with hpool | ⟨t, ht⟩ | ⟨θ, hruns, -⟩
  · exact .inl hpool
  · exact .inr ⟨t, by rwa [hkept] at ht⟩
  · exact absurd (hrest θ) hruns

theorem nothing_lost_one : ∃ m : HostThreads Bool Nat Unit, Runs (fun _ => 3) start m ∧
    (∀ θ, m.running θ = none) ∧ m.shared.base.recorder.events = 1 ∧
      (1 ∈ m.shared.base.recorder.available ∨ ∃ t, 1 ∈ (m.shared.base.timeline t).points) ∧
      m.shared.base.Sound fun _ => 3 := by
  obtain ⟨-, _, h₁, -, _, h₂, -, -, _, h₃, -, -, -, -, m, h₄, hrest, hevents, -⟩ :=
    recorded_and_asked
  have hrun := ((h₁.trans h₂).trans h₃).trans h₄
  obtain ⟨-, hdone⟩ := nothing_lost hrun
  obtain ⟨-, -, hplaced, hsound⟩ := hdone hrest
  exact ⟨m, hrun, hrest, hevents, hplaced 1 Nat.one_pos (by simp [hevents]), hsound⟩

end HostState

end RexlibCuda
