import RexlibCuda.TimelineInvariant

/-! What the timelines tell about the commands recorded on them, at any moment
of any interleaving. -/

namespace RexlibCuda

open Prog Streams

namespace Timelines

variable {σ ω : Type}

/-- A question that must not be answered is refused. -/
theorem refused {α : Type} {s : Timelines σ ω} {x : Action σ ω α} {Q : α → Timelines σ ω → Prop}
    {E : Exn → Prop} (h : wp x Q (fun e a => a = s ∧ E e) s) (hQ : ∀ b a, ¬ Q b a)
    (hE : ∀ e, E e → e = neverGave) : x s = (.error neverGave, s) := by
  rcases hx : x s with ⟨e | b, a⟩
  · obtain ⟨rfl, he⟩ := wp_thrown h hx
    rw [hE e he]
  · exact absurd (wp_returned h hx) (hQ b a)

/-- An id that was never given is refused in one way. -/
theorem Refused.neverGave {s : Timelines σ ω} {t : Timeline} {id : Nat} {e : Exn}
    (h : Refused s t id e) (hle : (s.given t).length ≤ id) : e = neverGave := by
  rcases h with ⟨he, -⟩ | ⟨-, hlt⟩
  · exact he
  · omega

/-! ## Calls in which nothing fails -/

section Returns

variable {s : Timelines σ ω} {streamOf : Timeline → σ} {answers : Answers} {t : Timeline} {id : Nat}

theorem recorderIsComplete_returns {x : Ticket} (hquery : answers.queries x = true)
    (s : Timelines σ ω) : Prog.Returns (recorderIsComplete answers x) s := by
  simp only [recorderIsComplete, Prog.Returns, wp_bind, wp_get, hquery]
  exact trivial

theorem dropLoop_returns (t : Timeline) (points : List Ticket)
    (hqueries : ∀ x ∈ points, answers.queries x = true) (s : Timelines σ ω) :
    Prog.Returns (dropLoop answers t points) s := by
  induction points generalizing s with
  | nil => exact .pure
  | cons point points ih =>
      have hpoint := hqueries point List.mem_cons_self
      refine (recorderIsComplete_returns hpoint s).bind fun complete a => ?_
      cases complete with
      | true =>
          exact Prog.Returns.modify.bind fun _ b =>
            ih (fun x hx => hqueries x (List.mem_cons_of_mem point hx)) b
      | false => exact .pure

theorem Sound.getPoint_returns (h : s.Sound streamOf) (hlt : id < (s.given t).length)
    (hid : ¬ id < (s.timeline t).firstId) : Prog.Returns (Timelines.getPoint (s.timeline t) id) s :=
  wp_mono (h.getPoint hid) (fun _ _ _ => trivial) fun _ _ ⟨_, _, hle⟩ => by omega

/-- Whoever asks about an id that was given is answered, where the recorder
answers for what stands for it. -/
theorem Sound.isComplete_returns (h : s.Sound streamOf) {p : Point σ}
    (hp : (s.given t)[id]? = some p)
    (hqueries : ∀ x, s.recorder.captured x = some p → answers.queries x = true) :
    Prog.Returns (Timelines.isComplete answers t id) s := by
  unfold Timelines.isComplete
  rw [Prog.Returns, wp_bind, wp_get]
  by_cases hid : id < (s.timeline t).firstId
  · rw [isKnownComplete, if_pos (decide_eq_true hid)]
    exact trivial
  · rw [isKnownComplete, if_neg (by rwa [decide_eq_true_iff]), wp_bind]
    have hlt := (List.getElem?_eq_some_iff.mp hp).1
    refine wp_mono ((h.getPoint_returns hlt hid).and (h.getPoint hid)) ?_ fun _ _ h => h
    rintro x a ⟨rfl, -, q, hq, hcap⟩
    rw [hp] at hq
    cases hq
    exact recorderIsComplete_returns (hqueries x hcap) a

theorem Sound.beginWait_returns (h : s.Sound streamOf) (hlt : id < (s.given t).length) :
    Prog.Returns (Timelines.beginWait t id) s := by
  unfold Timelines.beginWait
  rw [Prog.Returns, wp_bind, wp_get]
  by_cases hid : id < (s.timeline t).firstId
  · rw [isKnownComplete, if_pos (decide_eq_true hid)]
    exact trivial
  · rw [isKnownComplete, if_neg (by rwa [decide_eq_true_iff])]
    exact (h.getPoint_returns hlt hid).bind fun x a => trivial

/-- A wait begins with the ticket of its id. -/
theorem Sound.begins (h : s.Sound streamOf) {p : Point σ} (hp : (s.given t)[id]? = some p) :
    ∃ ticket a, Timelines.beginWait t id s = (.ok ticket, a)
      ∧ ∀ x, ticket = some x → s.recorder.captured x = some p := by
  obtain ⟨ticket, a, hrun⟩ := (h.beginWait_returns (List.getElem?_eq_some_iff.mp hp).1).exists_ok
  refine ⟨ticket, a, hrun, ?_⟩
  rintro x rfl
  obtain ⟨hwaiting, -⟩ := wp_returned (h.beginWait t id) hrun
  obtain ⟨q, hq, hcap, -⟩ := h.waitingFor hwaiting
  rw [hp] at hq
  cases hq
  exact hcap

variable [DecidableEq σ]

theorem record_returns (t : Timeline) (stream : σ) (s : Timelines σ ω)
    (hreserves : answers.reserves = true) (hcreates : answers.creates = true)
    (hcaptures : answers.captures = true) (hroom : answers.room = true)
    (hqueries : ∀ x ∈ (s.timeline t).points, answers.queries x = true) :
    Prog.Returns (record answers t stream) s := by
  have hdrop : Prog.Returns (dropReachedPoints answers t) s := by
    simp only [dropReachedPoints, Prog.Returns, wp_bind, wp_get, wp_ite]
    split
    · exact dropLoop_returns t _ hqueries s
    · exact trivial
  have hacquire : ∀ a : Timelines σ ω, Prog.Returns (acquire answers) a := by
    intro a
    simp only [acquire, Prog.Returns, wp_bind, wp_get]
    cases a.recorder.available with
    | nil =>
        simp only [create, hreserves, hcreates]
        exact trivial
    | cons => exact trivial
  refine hdrop.bind fun _ a => Prog.Returns.bind ?_ fun point b => ?_
  · refine (hacquire a).bind fun x b => ?_
    simp only [Prog.Returns, eventRecord, hcaptures, wp_bind, wp_tryCatch]
    exact trivial
  · simp only [Prog.Returns, pushPoint, hroom, wp_bind, wp_tryCatch, wp_get, wp_pure]
    exact trivial

theorem Sound.enqueueWait_returns (h : s.Sound streamOf) (waiter : σ)
    (hlt : id < (s.given t).length) (hschedules : answers.schedules = true) :
    Prog.Returns (Timelines.enqueueWait answers waiter t id) s := by
  unfold Timelines.enqueueWait
  rw [Prog.Returns, wp_bind, wp_get]
  by_cases hid : id < (s.timeline t).firstId
  · rw [isKnownComplete, if_pos (decide_eq_true hid)]
    exact trivial
  · rw [isKnownComplete, if_neg (by rwa [decide_eq_true_iff])]
    refine (h.getPoint_returns hlt hid).bind fun x a => ?_
    simp only [recorderEnqueueWait, hschedules]
    exact trivial

end Returns

/-! ## What is answered -/

variable [DecidableEq σ]

/-- What a timeline tells whoever asks, in one state. The point an id stands
for is where the stream ended when the id was given, so it is reached exactly
when the work issued before has finished. -/
structure Truthful (streamOf : Timeline → σ) (s : Timelines σ ω) : Prop where
  /-- The records that returned have returned 0, 1, 2, and so on. -/
  returned : ∀ t, s.returned t = List.range (s.given t).length
  /-- Whenever it is asked later on, the id stands for what was issued before. -/
  recorded : ∀ answers t id a, record answers t (streamOf t) s = (.ok id, a) →
    id = (s.given t).length
      ∧ ∀ b, Relation.ReflTransGen (Step streamOf) (a.give t (s.device.last (streamOf t)) id) b →
        ∀ answers complete c, isComplete answers t id b = (.ok complete, c) →
          (complete = true ↔ b.device.Reached (s.device.last (streamOf t)))
  /-- A record that throws uses up no id. -/
  notRecorded : ∀ answers t e a, record answers t (streamOf t) s = (.error e, a) →
    a.given = s.given ∧ a.returned = s.returned
  /-- It throws only where something it needs is refused. -/
  records : ∀ answers t, answers.reserves = true → answers.creates = true →
    answers.captures = true → answers.room = true →
    (∀ x ∈ (s.timeline t).points, answers.queries x = true) →
    ∃ id a, record answers t (streamOf t) s = (.ok id, a)
  isComplete : ∀ answers t id p, (s.given t)[id]? = some p →
    (∀ b a, isComplete answers t id s = (.ok b, a) → (b = true ↔ s.device.Reached p))
      ∧ ∀ e a, isComplete answers t id s = (.error e, a) → e = .error
  /-- Where the recorder answers for what stands for the id, so does the timeline. -/
  answered : ∀ answers t id p, (s.given t)[id]? = some p →
    (∀ x, s.recorder.captured x = some p → answers.queries x = true) →
    ∃ b, Timelines.isComplete answers t id s = (.ok b, s)
  /-- A wait for an id that was given begins, with a ticket that stands for it
  unless it is known to be reached. -/
  begins : ∀ t id p, (s.given t)[id]? = some p →
    ∃ ticket a, beginWait t id s = (.ok ticket, a)
      ∧ ∀ x, ticket = some x → s.recorder.captured x = some p
  /-- A thread that waits has a ticket that stands for the point of its id. -/
  waiting : ∀ w ∈ s.waits, ∃ p, (s.given w.timeline)[w.id]? = some p
    ∧ s.recorder.captured w.ticket = some p ∧ ∀ q, w.phase = .blocked q → q = p
  /-- It leaves normally once that has been reached. -/
  waited : ∀ w ∈ s.waits, w.phase = .finished true →
    ∃ p, (s.given w.timeline)[w.id]? = some p ∧ s.device.Reached p
  waitedAtOnce : ∀ t id a, beginWait t id s = (.ok none, a) →
    ∃ p, (s.given t)[id]? = some p ∧ s.device.Reached p
  enqueued : ∀ answers waiter t id a, enqueueWait answers waiter t id s = (.ok (), a) →
    ∃ p, (s.given t)[id]? = some p ∧ (s.device.Reached p ∧ a = s
      ∨ a = { s with device := s.device.issue waiter (.wait p) })
  notEnqueued : ∀ answers waiter t id e a, enqueueWait answers waiter t id s = (.error e, a) →
    a = s
  /-- The driver alone can keep a wait for an id that was given from being scheduled. -/
  enqueues : ∀ answers waiter t id p, (s.given t)[id]? = some p → answers.schedules = true →
    ∃ a, enqueueWait answers waiter t id s = (.ok (), a)
  /-- An id that was never given is refused. -/
  unknown : ∀ answers waiter t id, (s.given t).length ≤ id →
    Timelines.isComplete answers t id s = (.error neverGave, s)
      ∧ beginWait t id s = (.error neverGave, s)
      ∧ enqueueWait answers waiter t id s = (.error neverGave, s)

variable {streamOf : Timeline → σ} {s a : Timelines σ ω} {t : Timeline} {id : Nat}

theorem Sound.run (h : s.Sound streamOf) (hrun : Relation.ReflTransGen (Step streamOf) s a) :
    a.Sound streamOf :=
  Runs.invariant (fun _ _ hs hstep => hs.step hstep) hrun h

/-- Ids keep what they stand for all along. -/
theorem Sound.run_given (h : s.Sound streamOf) (hrun : Relation.ReflTransGen (Step streamOf) s a)
    {p : Point σ} (hp : (s.given t)[id]? = some p) : (a.given t)[id]? = some p := by
  induction hrun with
  | refl => exact hp
  | tail hfirst hlast ih =>
      obtain ⟨more, hmore⟩ := (h.run hfirst).step_given hlast t
      rw [← hmore, List.getElem?_append_left (List.getElem?_eq_some_iff.mp ih).1]
      exact ih

/-- What an id that has just been given stands for is all it will ever stand
for. -/
theorem Sound.recordedAnswers (h : s.Sound streamOf) {answers : Answers}
    (hrun : Timelines.record answers t (streamOf t) s = (.ok id, a)) :
    id = (s.given t).length ∧
      ∀ b, Relation.ReflTransGen (Step streamOf) (a.give t (s.device.last (streamOf t)) id) b →
        ∀ answers complete c, Timelines.isComplete answers t id b = (.ok complete, c) →
          (complete = true ↔ b.device.Reached (s.device.last (streamOf t))) := by
  obtain ⟨hid, hsound, hkept, -⟩ := wp_returned (h.record answers t) hrun
  refine ⟨hid, fun b hlater answers complete c hasked => ?_⟩
  obtain ⟨-, q, hq, hcomplete⟩ := wp_returned ((hsound.run hlater).isComplete answers t id) hasked
  have hgiven : ((a.give t (s.device.last (streamOf t)) id).given t)[id]?
      = some (s.device.last (streamOf t)) := by
    rw [give, hkept.given, hid]
    simp
  rw [hsound.run_given hlater hgiven] at hq
  cases hq
  exact hcomplete

/-- Whoever asks about an id that was never given is refused. -/
theorem Sound.refusesUnknown (h : s.Sound streamOf) {answers : Answers} {waiter : σ}
    (hle : (s.given t).length ≤ id) :
    Timelines.isComplete answers t id s = (.error neverGave, s)
      ∧ Timelines.beginWait t id s = (.error neverGave, s)
      ∧ Timelines.enqueueWait answers waiter t id s = (.error neverGave, s) := by
  -- each of the three would have had a point to speak of
  have hnone : ∀ p, (s.given t)[id]? ≠ some p := by
    intro p hp
    rw [List.getElem?_eq_none hle] at hp
    cases hp
  refine ⟨refused (h.isComplete answers t id) ?_ ?_, refused (h.beginWait t id) ?_ ?_,
    refused (h.enqueueWait answers waiter t id) ?_ ?_⟩
  · intro b a hanswer
    obtain ⟨-, p, hp, -⟩ := hanswer
    exact hnone p hp
  · exact fun e he => he.neverGave hle
  · intro ticket a hticket
    cases ticket with
    | none =>
        obtain ⟨-, p, hp, -⟩ := hticket
        exact hnone p hp
    | some x =>
        obtain ⟨⟨p, hp, -⟩, -⟩ := hticket
        exact hnone p hp
  · exact fun e he => he.1
  · intro _ a henqueued
    obtain ⟨p, hp, -⟩ := henqueued
    exact hnone p hp
  · exact fun e he => he.neverGave hle

theorem Sound.truthful (h : s.Sound streamOf) : s.Truthful streamOf where
  returned := h.returned
  recorded _ _ _ _ hrun := h.recordedAnswers hrun
  notRecorded := by
    intro answers t e a hrun
    obtain ⟨-, hkept, -⟩ := wp_thrown (h.record answers t) hrun
    exact ⟨hkept.given, hkept.returned⟩
  records answers t hreserves hcreates hcaptures hroom hqueries :=
    (record_returns t _ s hreserves hcreates hcaptures hroom hqueries).exists_ok
  isComplete := by
    intro answers t id p hp
    constructor
    · intro b a hrun
      obtain ⟨-, q, hq, hb⟩ := wp_returned (h.isComplete answers t id) hrun
      rw [hp] at hq
      cases hq
      exact hb
    · intro e a hrun
      obtain ⟨-, ⟨-, hle⟩ | ⟨he, -⟩⟩ := wp_thrown (h.isComplete answers t id) hrun
      · rw [List.getElem?_eq_none hle] at hp
        cases hp
      · exact he
  answered := by
    intro answers t id p hp hqueries
    obtain ⟨b, a, hrun⟩ := (h.isComplete_returns hp hqueries).exists_ok
    obtain ⟨rfl, -⟩ := wp_returned (h.isComplete answers t id) hrun
    exact ⟨b, hrun⟩
  begins _ _ _ hp := h.begins hp
  waiting := by
    intro w hw
    obtain ⟨p, hp, hcap, hblocked, -⟩ := h.waitingFor (h.waiting w hw)
    exact ⟨p, hp, hcap, hblocked⟩
  waited := by
    intro w hw hphase
    obtain ⟨p, hp, -, -, hfinished⟩ := h.waitingFor (h.waiting w hw)
    exact ⟨p, hp, hfinished hphase⟩
  waitedAtOnce := by
    intro t id a hrun
    exact (wp_returned (h.beginWait t id) hrun).2
  enqueued := by
    intro answers waiter t id a hrun
    exact wp_returned (h.enqueueWait answers waiter t id) hrun
  notEnqueued := by
    intro answers waiter t id e a hrun
    exact (wp_thrown (h.enqueueWait answers waiter t id) hrun).1
  enqueues := by
    intro answers waiter t id p hp hschedules
    have hlt := (List.getElem?_eq_some_iff.mp hp).1
    obtain ⟨_, a, hrun⟩ := (h.enqueueWait_returns waiter hlt hschedules).exists_ok
    exact ⟨a, hrun⟩
  unknown _ _ _ _ hle := h.refusesUnknown hle

/-- **Timelines tell the truth** in every state that any interleaving reaches,
however tickets are handed out again. -/
theorem timelines_truthful (h : Relation.ReflTransGen (Life streamOf) empty s) : s.Truthful streamOf :=
  (Sound.reachable h).truthful

/-- A thread waits for work that is issued, recorded and then executed. -/
theorem timelines_truthful_waited : ∃ s : Timelines Nat Unit,
    s.Truthful (fun _ => 0) ∧ s.waits = [⟨⟨1, by decide⟩, 0, 1, .finished true⟩] := by
  have issued : Relation.ReflTransGen (Life fun _ => 0) (empty : Timelines Nat Unit) _ :=
    .single (.step (.issued 0 ()))
  have recorded := issued.tail (.step (.recorded
    (show record .good ⟨1, by decide⟩ 0 _ = (.ok 0, _) from rfl)))
  have began := recorded.tail (.step (.waitBegan
    (show beginWait ⟨1, by decide⟩ 0 _ = (.ok (some 1), _) from rfl)))
  have called := began.tail (.step (.waitCalled
    (show _ = [] ++ _ :: [] from rfl) rfl))
  have executed := called.tail (.step (.executed
    (show Device.At _ 0 0 (.work ()) 0 from rfl) fun p hp => by cases hp))
  have returned := executed.tail (.step (.waitReturned
    (show _ = [] ++ _ :: [] from rfl) (by decide)))
  exact ⟨_, timelines_truthful returned, rfl⟩

end Timelines

end RexlibCuda
