import RexlibCuda.Lib.History
import RexlibCuda.Plugin
import RexlibCuda.QueueSafety
import RexlibCuda.TimelineAnswers

/-! Which commands have finished, as the world of the queues stands, and what
the allocator may conclude from the answers it gets while the queues go on. -/

namespace RexlibCuda

open Completion Prog Streams

open Relation (ReflTransGen)

/-! ## Ids in order -/

namespace Timelines

variable {σ ω : Type}

/-- A timeline gives its ids to points of its stream in order. -/
def Ascending (s : Timelines σ ω) : Prop :=
  ∀ t, (s.given t).Pairwise fun p q => p.position ≤ q.position

theorem Ascending.empty : (empty : Timelines σ ω).Ascending := fun _ => .nil

section Ascending

variable {s a : Timelines σ ω} {streamOf : Timeline → σ} {t : Timeline} {i j : Nat} {p q : Point σ}

/-- Once the point of an id is reached, so are those of the ids before it. -/
theorem Ascending.reached (ha : s.Ascending) (h : s.Sound streamOf) (hp : (s.given t)[i]? = some p)
    (hq : (s.given t)[j]? = some q) (hij : i ≤ j) (hreached : s.device.Reached q) :
    s.device.Reached p := by
  have hle : p.position ≤ q.position := by
    rcases Nat.lt_or_eq_of_le hij with hlt | rfl
    · obtain ⟨hi, rfl⟩ := List.getElem?_eq_some_iff.mp hp
      obtain ⟨hj, rfl⟩ := List.getElem?_eq_some_iff.mp hq
      exact List.pairwise_iff_getElem.mp (ha t) i j hi hj hlt
    · rw [hp] at hq
      cases hq
      exact Nat.le_refl _
  have hstream : p.stream = q.stream := by
    have hpt := (h.numbered t).given p (List.mem_of_getElem? hp)
    have hqt := (h.numbered t).given q (List.mem_of_getElem? hq)
    rw [hpt.1, hqt.1]
  unfold Device.Reached at hreached ⊢
  rw [hstream]
  exact Nat.le_trans hle hreached

variable [DecidableEq σ]

/-- A step gives no id, or one, to the end of the stream of its timeline. -/
theorem Sound.step_gives (h : s.Sound streamOf) (hstep : Step streamOf s a) :
    a.given = s.given ∨
      ∃ t, a.given = Function.update s.given t (s.given t ++ [s.device.last (streamOf t)]) := by
  cases hstep with
  | @recorded b answers t id returned =>
      obtain ⟨-, -, hkept, -⟩ := wp_returned (h.record _ _) returned
      exact .inr ⟨t, by rw [give, hkept.given]⟩
  | recordThrew thrown =>
      obtain ⟨-, hkept, -⟩ := wp_thrown (h.record _ _) thrown
      exact .inl hkept.given
  | waitBegan began =>
      obtain ⟨-, rfl⟩ := wp_returned (h.beginWait _ _) began
      exact .inl rfl
  | enqueued asked =>
      rcases h.enqueueWait_final _ asked with rfl | ⟨p, -, rfl⟩
      · exact .inl rfl
      · exact .inl rfl
  | _ => exact .inl rfl

theorem Ascending.step (ha : s.Ascending) (h : s.Sound streamOf) (hstep : Step streamOf s a) :
    a.Ascending := by
  intro t
  rcases h.step_gives hstep with hgiven | ⟨t', hgiven⟩
  · rw [hgiven]
    exact ha t
  · rw [hgiven]
    by_cases ht : t = t'
    · -- the points before lie in front of the end of the stream
      subst ht
      rw [Function.update_self]
      refine List.pairwise_append.mpr ⟨ha t, List.pairwise_singleton _ _, ?_⟩
      intro p hp q hq
      rw [List.mem_singleton.mp hq]
      obtain ⟨hstream, earlier, -, hat⟩ := (h.numbered t).given p hp
      rw [hstream] at hat
      exact Nat.le_of_lt hat.lt
    · rw [Function.update_of_ne ht]
      exact ha t

theorem Ascending.reflGen (ha : s.Ascending) (h : s.Sound streamOf)
    (hstep : Relation.ReflGen (Step streamOf) s a) : a.Ascending := by
  cases hstep with
  | refl => exact ha
  | single hstep => exact ha.step h hstep

/-- What an id stands for, and what was reached of it, stays. -/
theorem Sound.reached_reflGen (h : s.Sound streamOf)
    (hstep : Relation.ReflGen (Step streamOf) s a) (hp : (s.given t)[i]? = some p)
    (hreached : s.device.Reached p) : (a.given t)[i]? = some p ∧ a.device.Reached p := by
  cases hstep with
  | refl => exact ⟨hp, hreached⟩
  | single hstep =>
      obtain ⟨more, hmore⟩ := h.step_given hstep t
      refine ⟨?_, Nat.le_trans hreached (Device.le_reflGen (h.step_device hstep)).1⟩
      rw [← hmore, List.getElem?_append_left (List.getElem?_eq_some_iff.mp hp).1]
      exact hp

end Ascending

end Timelines

/-! ## What has finished -/

namespace World

variable {σ : Type}

/-- The command has finished, as the world stands: the point of its id was
reached, or its own backend says so. -/
def Done (backend : Timeline → Bool) (w : World σ) (c : Command) : Prop :=
  if backend c.timeline then
    ∃ p, (w.timelines.given c.timeline)[c.id]? = some p ∧ w.timelines.device.Reached p
  else w.finished c = true

section Answers

variable {backend : Timeline → Bool} {streamOf : Timeline → σ} {w w' : World σ} {c : Command}

/-- Who is told that a command has finished is told the truth. -/
theorem Tells.done (h : w.Tells backend c true) (hs : w.timelines.Sound streamOf) :
    w.Done backend c := by
  unfold Tells at h
  unfold Done
  split
  · rename_i hbackend
    rw [if_pos hbackend] at h
    obtain ⟨answers, hanswer⟩ := h
    have hasked : Timelines.isComplete answers c.timeline c.id w.timelines = (.ok true, _) :=
      Prod.ext hanswer rfl
    obtain ⟨-, p, hp, hreached⟩ := wp_returned (hs.isComplete answers _ _) hasked
    exact ⟨p, hp, hreached.mp rfl⟩
  · rename_i hforeign
    rw [if_neg hforeign] at h
    exact h.symm

/-- Who waited for a command goes on once it has finished. -/
theorem Waited.done (h : w.Waited backend w' c) (hs : w.timelines.Sound streamOf)
    (hs' : w'.timelines.Sound streamOf) (hgrows : w.Done backend c → w'.Done backend c) :
    w'.Done backend c := by
  unfold Waited at h
  by_cases hbackend : backend c.timeline = true
  · rw [if_pos hbackend] at h
    rcases h with hatonce | ⟨ticket, hwaits⟩
    · have hbegan : Timelines.beginWait c.timeline c.id w.timelines = (.ok none, _) :=
        Prod.ext hatonce rfl
      obtain ⟨-, p, hp, hreached⟩ := wp_returned (hs.beginWait _ _) hbegan
      apply hgrows
      unfold Done
      rw [if_pos hbackend]
      exact ⟨p, hp, hreached⟩
    · obtain ⟨p, hp, -, -, hreached⟩ := hs'.waitingFor (hs'.waiting _ hwaits)
      unfold Done
      rw [if_pos hbackend]
      exact ⟨p, hp, hreached rfl⟩
  · rw [if_neg hbackend] at h
    unfold Done
    rw [if_neg hbackend]
    exact h

end Answers

end World

/-! ## The queues go on -/

section Queues

variable {σ : Type} [DecidableEq σ] {backend : Timeline → Bool} {streamOf : Timeline → σ}
  {q q' : Queues σ}

theorem Queues.Step.timelines (h : Queues.Step backend streamOf q q') :
    Relation.ReflGen (Timelines.Step streamOf) q.world.timelines q'.world.timelines := by
  cases h with
  | submitted queue cmd stream => exact .refl
  | advanced has advance => exact advance.timelines
  | other step unclaimed => exact .single step
  | used used => exact .refl
  | finished k => exact .refl

/-- What finished elsewhere stays finished. -/
theorem Queues.Step.finished_mono (h : Queues.Step backend streamOf q q') {k : Command}
    (hk : q.world.finished k = true) : q'.world.finished k = true := by
  cases h with
  | submitted queue cmd stream => exact hk
  | advanced has advance => cases advance <;> exact hk
  | other step unclaimed => exact hk
  | used used => exact hk
  | finished k' => exact (Grows.finish (c := 0) (w := q.world) k').finished k hk

/-- **What has finished stays finished.** -/
theorem Queues.Step.done (h : Queues.Step backend streamOf q q')
    (hs : q.world.timelines.Sound streamOf) {k : Command} (hk : q.world.Done backend k) :
    q'.world.Done backend k := by
  unfold World.Done at hk ⊢
  split
  · rename_i hbackend
    rw [if_pos hbackend] at hk
    obtain ⟨p, hp, hreached⟩ := hk
    exact ⟨p, hs.reached_reflGen h.timelines hp hreached⟩
  · rename_i hforeign
    rw [if_neg hforeign] at hk
    exact h.finished_mono hk

/-- What holds of the queues all along. -/
structure Queues.Lasting (streamOf : Timeline → σ) (backend : Timeline → Bool) (q : Queues σ) :
    Prop where
  sound : q.Sound streamOf backend
  ascending : q.world.timelines.Ascending
  /-- Work stands behind all that its queue was given before the call. -/
  behind : ∀ c call, q.calls[c]? = some call → ∀ s i, q.world.WorkAt c s i →
    ∀ id < call.begun, ∀ p, (q.world.timelines.given call.queue)[id]? = some p → p.position ≤ i

omit [DecidableEq σ] in
/-- What was given before a call stays what it was. -/
theorem SubmitCall.Sound.given_begun {c : Nat} {w w' : World σ} {call : SubmitCall}
    (h : call.Sound streamOf backend w c)
    (hgiven : ∀ (t : Timeline) (id : Nat) (p : Point σ), (w.timelines.given t)[id]? = some p →
      (w'.timelines.given t)[id]? = some p) {id : Nat} (hid : id < call.begun) {p : Point σ}
    (hp : (w'.timelines.given call.queue)[id]? = some p) :
    (w.timelines.given call.queue)[id]? = some p := by
  obtain ⟨p', hp'⟩ := h.begun id hid
  rw [hgiven _ _ _ hp'] at hp
  cases hp
  exact hp'

/-- A call that goes on issues its work at the end of the stream. -/
theorem Queues.Lasting.advanced (h : q.Lasting streamOf backend) {c : Nat} {call call' : SubmitCall}
    {w : World σ} (has : q.calls[c]? = some call)
    (advance : Advance backend streamOf c q.world call w call') {s : σ} {i : Nat}
    (hwork : w.WorkAt c s i) {id : Nat} (hid : id < call.begun) {p : Point σ}
    (hp : (w.timelines.given call.queue)[id]? = some p) : p.position ≤ i := by
  have hcall := h.sound.calls c call has
  have hg : Grows (c + 1) q.world w := advance.grows h.sound.timelines (.inl (Nat.succ_ne_self c))
  have hold := hcall.given_begun hg.given hid hp
  by_cases hlaunching : call.phase = .launching
  · cases advance with
    | workIssued here =>
        obtain ⟨stamp, hat⟩ := hwork
        rcases Device.At.of_issue hat with hat | ⟨-, rfl, -, -⟩
        · exact h.behind c call has s i ⟨stamp, hat⟩ id hid p hold
        · -- the point lies on the stream, which ends behind it
          obtain ⟨hstream, earlier, -, hcaptured⟩ :=
            (h.sound.timelines.numbered call.queue).given p (List.mem_of_getElem? hold)
          rw [hstream] at hcaptured
          exact Nat.le_of_lt hcaptured.lt
    | launched here => exact h.behind c call has s i hwork id hid p hold
    | launchThrew e here => exact h.behind c call has s i hwork id hid p hold
    | _ => simp_all
  · have hg : Grows c q.world w := advance.grows h.sound.timelines (.inr hlaunching)
    exact h.behind c call has s i (hg.work s i hwork) id hid p hold

/-- What a call was called with never changes. -/
theorem Advance.call_eq {c : Nat} {w w' : World σ} {call call' : SubmitCall}
    (h : Advance backend streamOf c w call w' call') :
    call'.queue = call.queue ∧ call'.command = call.command ∧ call'.begun = call.begun := by
  cases h <;> exact ⟨rfl, rfl, rfl⟩

theorem Queues.Lasting.step (h : q.Lasting streamOf backend)
    (hstep : Queues.Step backend streamOf q q') : q'.Lasting streamOf backend where
  sound := h.sound.step hstep
  ascending := h.ascending.reflGen h.sound.timelines hstep.timelines
  behind := by
    intro c call' hcall' s i hwork id hid p hp
    cases hstep with
    | submitted queue cmd stream =>
        rcases Nat.lt_or_ge c q.calls.length with hlt | hge
        · rw [List.getElem?_append_left hlt] at hcall'
          exact h.behind c call' hcall' s i hwork id hid p hp
        · -- no work of a call that has just begun
          exact absurd (h.sound.claimed c s i hwork) (Nat.not_lt.mpr hge)
    | @advanced d call call'' w has advance =>
        by_cases hcd : c = d
        · subst hcd
          rw [List.getElem?_set_self (List.getElem?_eq_some_iff.mp has).1] at hcall'
          cases hcall'
          obtain ⟨hqueue, -, hbegun⟩ := advance.call_eq
          rw [hbegun] at hid
          rw [hqueue] at hp
          exact h.advanced has advance hwork hid hp
        · rw [List.getElem?_set_ne (Ne.symm hcd)] at hcall'
          have hg : Grows c q.world w := advance.grows h.sound.timelines (.inl hcd)
          exact h.behind c call' hcall' s i (hg.work s i hwork) id hid p
            ((h.sound.calls c call' hcall').given_begun hg.given hid hp)
    | other step unclaimed =>
        have hg : Grows c q.world _ := .step h.sound.timelines step (unclaimed c)
        exact h.behind c call' hcall' s i (hg.work s i hwork) id hid p
          ((h.sound.calls c call' hcall').given_begun hg.given hid hp)
    | used used => exact h.behind c call' hcall' s i hwork id hid p hp
    | finished k => exact h.behind c call' hcall' s i hwork id hid p hp

end Queues

namespace Plugin

variable {σ : Type} [DecidableEq σ] {ours : BufferId → Bool} {backend : Timeline → Bool}
  {streamOf : Timeline → σ} {m m' : Plugin σ}

theorem Goes.queues (h : Goes ours backend streamOf m m') :
    Queues.Step backend streamOf m.queues m'.queues := by
  cases h with
  | submitted queue cmd stream alive => exact .submitted queue cmd stream
  | went step calls dead => exact step

/-- What the queues do leaves the allocator as it is, and the buffers alive. -/
structure Beside (m m' : Plugin σ) : Prop where
  alloc : m'.alloc = m.alloc
  live : m'.live = m.live
  made : m'.made = m.made
  pending : m'.pending = m.pending
  past : m'.past = m.past

omit [DecidableEq σ] in
theorem Beside.refl (m : Plugin σ) : Beside m m := ⟨rfl, rfl, rfl, rfl, rfl⟩

omit [DecidableEq σ] in
theorem Beside.trans {m'' : Plugin σ} (h : Beside m m') (h' : Beside m' m'') : Beside m m'' :=
  ⟨h'.alloc.trans h.alloc, h'.live.trans h.live, h'.made.trans h.made,
    h'.pending.trans h.pending, h'.past.trans h.past⟩

theorem Goes.beside (h : Goes ours backend streamOf m m') : Beside m m' := by
  cases h <;> exact ⟨rfl, rfl, rfl, rfl, rfl⟩

theorem goes_beside (h : ReflTransGen (Goes ours backend streamOf) m m') : Beside m m' :=
  Runs.relation Beside.refl (fun _ _ _ => Beside.trans) (fun _ _ => Goes.beside) h

theorem goes_lasting (h : ReflTransGen (Goes ours backend streamOf) m m')
    (hm : m.queues.Lasting streamOf backend) : m'.queues.Lasting streamOf backend :=
  Runs.invariant (I := fun m : Plugin σ => m.queues.Lasting streamOf backend)
    (fun _ _ hm hstep => hm.step hstep.queues) h hm

theorem goes_done (h : ReflTransGen (Goes ours backend streamOf) m m')
    (hm : m.queues.Lasting streamOf backend) {c : Command} (hc : m.queues.world.Done backend c) :
    m'.queues.world.Done backend c := by
  induction h with
  | refl => exact hc
  | tail hrun hstep ih => exact hstep.queues.done (goes_lasting hrun hm).sound.timelines ih

/-! ## What the allocator is told -/

section Meanwhile

variable {env : Environment} {tape : Nat → Plugin σ} {last n : Nat}

/-- The queues get from where they are entered to any moment of the tape. -/
theorem Meanwhile.reach (h : Meanwhile ours backend streamOf m env tape last)
    (hn : m.alloc.now ≤ n) (hlast : n ≤ last) :
    ReflTransGen (Goes ours backend streamOf) m (tape n) := by
  induction n, hn using Nat.le_induction with
  | base => exact h.entered
  | succ n hn ih => exact (ih (by omega)).trans (h.goes n hn (by omega))

/-- **The answers the allocator gets are true** by any clock that says no less
than the queues did at each moment. -/
theorem Meanwhile.truthful (h : Meanwhile ours backend streamOf m env tape last)
    (hm : m.queues.Lasting streamOf backend) {k : Clock Timeline}
    (hk : ∀ n, m.alloc.now ≤ n → n ≤ last → ∀ c, (tape n).queues.world.Done backend c →
      Complete k n c) : Truthful k env where
  isComplete n c hanswer := by
    obtain ⟨hn, hlast, htells⟩ := h.isComplete n c true hanswer
    have hsound := (goes_lasting (h.reach hn (Nat.le_of_lt hlast)) hm).sound.timelines
    exact hk n hn (Nat.le_of_lt hlast) c (htells.done hsound)
  wait n c hwaited := by
    obtain ⟨hn, hlast, hwaited⟩ := h.wait n c hwaited
    have hlasting := goes_lasting (h.reach hn (Nat.le_of_lt hlast)) hm
    have hgoes := h.goes n hn hlast
    exact hk (n + 1) (by omega) hlast c (hwaited.done hlasting.sound.timelines
      (goes_lasting hgoes hlasting).sound.timelines (goes_done hgoes hlasting))

end Meanwhile

end Plugin

end RexlibCuda
