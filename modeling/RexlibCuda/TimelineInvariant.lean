import RexlibCuda.Tickets
import RexlibCuda.Lib.Runs

/-! What holds of the timelines, whoever does what next: what a ticket stands
for as long as a timeline has it, and that no timeline drops one somebody still
waits for. -/

namespace RexlibCuda

open Prog Streams

variable {σ ω : Type}

/-! ## What a ticket stands for -/

/-- What the ids of a timeline stand for, and what its points have to do with
it. -/
structure Numbered (d : Device σ ω) (captured : Ticket → Option (Point σ)) (stream : σ)
    (timeline : StreamTimeline) (given : List (Point σ)) : Prop where
  /-- The ids that have been given are those below the next one. -/
  length : timeline.firstId + timeline.points.length = given.length
  /-- The tickets a timeline has stand for the last ids it gave. -/
  stands : ∀ i x, timeline.points[i]? = some x →
    ∃ p, given[timeline.firstId + i]? = some p ∧ captured x = some p
  /-- What it has dropped has been reached. -/
  dropped : ∀ id p, given[id]? = some p → id < timeline.firstId → d.Reached p
  given : ∀ p ∈ given, p.stream = stream ∧ d.Captured p d.issued

section Numbered

variable {d e : Device σ ω} {captured : Ticket → Option (Point σ)} {stream : σ}
  {timeline : StreamTimeline} {given : List (Point σ)} {x : Ticket} {p : Point σ}

theorem Numbered.empty : Numbered d captured stream ⟨[], 0, 0⟩ [] where
  length := rfl
  stands i x hx := by simp at hx
  dropped id p hp := by simp at hp
  given p hp := by simp at hp

theorem Numbered.step [DecidableEq σ] (h : Numbered d captured stream timeline given)
    (hstep : Streams.Step d e) : Numbered e captured stream timeline given where
  length := h.length
  stands := h.stands
  dropped id p hp hlt := (h.dropped id p hp hlt).step hstep
  given p hp := ⟨(h.given p hp).1, (h.given p hp).2.step hstep⟩

/-- Only what the events of its own points have captured matters. -/
theorem Numbered.recapture (h : Numbered d captured stream timeline given)
    {captured' : Ticket → Option (Point σ)} (heq : ∀ x ∈ timeline.points, captured' x = captured x) :
    Numbered d captured' stream timeline given where
  length := h.length
  stands := by
    intro i x hx
    obtain ⟨p, hp, hcap⟩ := h.stands i x hx
    exact ⟨p, hp, (heq x (List.mem_of_getElem? hx)).trans hcap⟩
  dropped := h.dropped
  given := h.given

/-- The number of waiters is of no concern to the ids. -/
theorem Numbered.waiters (h : Numbered d captured stream timeline given) (n : Nat) :
    Numbered d captured stream { timeline with waiterCount := n } given :=
  ⟨h.length, h.stands, h.dropped, h.given⟩

/-- The oldest point may be dropped once it is reached. -/
theorem Numbered.drop (h : Numbered d captured stream timeline given) {rest : List Ticket}
    (hx : timeline.points = x :: rest) (hreached : ∀ p, captured x = some p → d.Reached p) :
    Numbered d captured stream
      { timeline with points := rest, firstId := timeline.firstId + 1 } given where
  length := by
    have hlen := h.length
    rw [hx, List.length_cons] at hlen
    show timeline.firstId + 1 + rest.length = given.length
    omega
  stands := by
    intro i y hy
    obtain ⟨p, hp, hcap⟩ := h.stands (i + 1) y (by rw [hx]; exact hy)
    refine ⟨p, ?_, hcap⟩
    show given[timeline.firstId + 1 + i]? = some p
    rw [Nat.add_assoc, Nat.add_comm 1 i]
    exact hp
  dropped := by
    intro id p hp hlt
    by_cases hold : id < timeline.firstId
    · exact h.dropped id p hp hold
    · have hlt : id < timeline.firstId + 1 := hlt
      obtain rfl : id = timeline.firstId + 0 := by omega
      obtain ⟨q, hq, hcap⟩ := h.stands 0 x (by rw [hx]; rfl)
      rw [hp] at hq
      cases hq
      exact hreached p hcap
  given := h.given

/-- The next id stands for what the event of the new point has captured. -/
theorem Numbered.push (h : Numbered d captured stream timeline given)
    (hcap : captured x = some p) (hp : p.stream = stream) (hbefore : d.Captured p d.issued) :
    Numbered d captured stream
      { timeline with points := timeline.points ++ [x] } (given ++ [p]) where
  length := by
    have hlen := h.length
    rw [List.length_append, List.length_append]
    show timeline.firstId + (timeline.points.length + 1) = given.length + 1
    omega
  stands := by
    intro i y hy
    have hlen := h.length
    by_cases hlt : i < timeline.points.length
    · -- the earlier tickets stand for what they did
      rw [List.getElem?_append_left hlt] at hy
      obtain ⟨q, hq, hqcap⟩ := h.stands i y hy
      have hlt : timeline.firstId + i < given.length := by omega
      exact ⟨q, (List.getElem?_append_left hlt).trans hq, hqcap⟩
    · rw [List.getElem?_append_right (Nat.not_lt.mp hlt), List.getElem?_singleton] at hy
      split at hy
      · cases hy
        refine ⟨p, ?_, hcap⟩
        have hid : timeline.firstId + i = given.length := by omega
        show (given ++ [p])[timeline.firstId + i]? = some p
        rw [hid, List.getElem?_concat_length]
      · cases hy
  dropped := by
    intro id q hq hlt
    have hlen := h.length
    have hlt : id < timeline.firstId := hlt
    rw [List.getElem?_append_left (by omega)] at hq
    exact h.dropped id q hq hlt
  given := by
    intro q hq
    rcases List.mem_append.mp hq with hq | hq
    · exact h.given q hq
    · rw [List.mem_singleton.mp hq]
      exact ⟨hp, hbefore⟩

end Numbered

namespace Timelines

/-- The tickets of each timeline. -/
def points (s : Timelines σ ω) (t : Timeline) : List Ticket := (s.timeline t).points

/-- A thread that waits has a ticket its timeline will not drop, and the ticket
stands for the point of the id it waits for. -/
def Waiting (s : Timelines σ ω) (w : HostWait σ) : Prop :=
  ∃ p, (s.given w.timeline)[w.id]? = some p
    ∧ (s.timeline w.timeline).firstId ≤ w.id
    ∧ (s.points w.timeline)[w.id - (s.timeline w.timeline).firstId]? = some w.ticket
    ∧ (∀ q, w.phase = .blocked q → q = p)
    ∧ (w.phase = .finished true → s.device.Reached p)

/-- **What holds in every reachable state.** -/
structure Sound (streamOf : Timeline → σ) (s : Timelines σ ω) : Prop where
  device : s.device.WellIssued
  owned : Owned s.recorder s.points
  numbered : ∀ t, Numbered s.device s.recorder.captured (streamOf t) (s.timeline t) (s.given t)
  returned : ∀ t, s.returned t = List.range (s.given t).length
  waiting : ∀ w ∈ s.waits, s.Waiting w
  waiters : ∀ t, (s.timeline t).waiterCount = s.waits.countP fun w => w.timeline = t

variable {streamOf : Timeline → σ} {s a : Timelines σ ω} {t : Timeline} {x : Ticket}
  {timeline : StreamTimeline}

theorem Sound.empty : (empty : Timelines σ ω).Sound streamOf where
  device := .empty
  owned := .empty
  numbered t := .empty
  returned t := rfl
  waiting w hw := by simp [Timelines.empty] at hw
  waiters t := rfl

/-! ## The recorder -/

/-- The recorder may do what it wants with tickets nobody has. -/
theorem Sound.recorder (h : s.Sound streamOf) {r : PooledEventRecorder σ}
    (howned : Owned r s.points)
    (hcaptured : ∀ t, ∀ x ∈ s.points t, r.captured x = s.recorder.captured x) :
    ({ s with recorder := r }).Sound streamOf where
  device := h.device
  owned := howned
  numbered t := (h.numbered t).recapture (hcaptured t)
  returned := h.returned
  waiting := h.waiting
  waiters := h.waiters

/-- What the recorder and the driver leave alone. -/
structure Kept (s a : Timelines σ ω) : Prop where
  given : a.given = s.given
  returned : a.returned = s.returned
  waits : a.waits = s.waits

theorem Kept.refl (s : Timelines σ ω) : Kept s s := ⟨rfl, rfl, rfl⟩

theorem Kept.trans {s a b : Timelines σ ω} (h : Kept s a) (h' : Kept a b) : Kept s b :=
  ⟨h'.given.trans h.given, h'.returned.trans h.returned, h'.waits.trans h.waits⟩

theorem release_eq (hx : 0 < x) : s.release x
    = { s with recorder := { s.recorder with available := x :: s.recorder.available } } := by
  have hne : x ≠ noTicket := Nat.ne_of_gt hx
  rw [release, if_neg hne]

theorem Sound.release (h : s.Sound streamOf) (hx : Free x s.recorder s.points) :
    (s.release x).Sound streamOf := by
  rw [release_eq hx.made.1]
  exact h.recorder (h.owned.release hx) fun _ _ _ => rfl

theorem Kept.release : Kept s (s.release x) := by
  unfold Timelines.release
  split
  · exact .refl s
  · exact ⟨rfl, rfl, rfl⟩

@[simp] theorem device_release : (s.release x).device = s.device := by
  unfold Timelines.release
  split <;> rfl

@[simp] theorem timeline_release : (s.release x).timeline = s.timeline := by
  unfold Timelines.release
  split <;> rfl

/-- `acquire` hands out a ticket nobody has. -/
theorem Sound.acquire (answers : Answers) (h : s.Sound streamOf) :
    wp (acquire answers) (fun x a => a.Sound streamOf ∧ Free x a.recorder a.points ∧ Kept s a
        ∧ a.device = s.device)
      (fun _ a => a.Sound streamOf ∧ Kept s a ∧ a.device = s.device) s := by
  unfold Timelines.acquire
  rw [wp_bind, wp_get]
  cases hx : s.recorder.available with
  | nil =>
      simp only [Timelines.create]
      cases hr : answers.reserves with
      | false => exact ⟨h, .refl s, rfl⟩
      | true =>
          have howned := h.owned.create (Nat.le_max_right s.recorder.reserved _)
          cases hc : answers.creates with
          | false =>
              -- the room stays reserved, with no event to use it
              refine ⟨h.recorder ?_ fun _ _ _ => rfl, ⟨rfl, rfl, rfl⟩, rfl⟩
              exact { h.owned with
                room := Nat.le_trans h.owned.room (Nat.le_max_left _ _) }
          | true => exact ⟨h.recorder howned.1 fun _ _ _ => rfl, howned.2, ⟨rfl, rfl, rfl⟩, rfl⟩
  | cons x rest =>
      have howned := h.owned.take hx
      exact ⟨h.recorder howned.1 fun _ _ _ => rfl, howned.2, ⟨rfl, rfl, rfl⟩, rfl⟩

/-! ## The points of a timeline -/

/-- One timeline at a time is changed. -/
theorem forall_setTimeline {P : Timeline → StreamTimeline → Prop} (h : P t timeline)
    (hother : ∀ t' ≠ t, P t' (s.timeline t')) (t' : Timeline) :
    P t' ((s.setTimeline t timeline).timeline t') := by
  by_cases ht : t' = t
  · rw [ht]
    show P t (Function.update s.timeline t timeline t)
    rw [Function.update_self]
    exact h
  · show P t' (Function.update s.timeline t timeline t')
    rw [Function.update_of_ne ht]
    exact hother t' ht

@[simp] theorem timeline_setTimeline_self : (s.setTimeline t timeline).timeline t = timeline :=
  Function.update_self ..

@[simp] theorem timeline_setTimeline_of_ne {t' : Timeline} (h : t' ≠ t) :
    (s.setTimeline t timeline).timeline t' = s.timeline t' := Function.update_of_ne h ..

@[simp] theorem device_setTimeline : (s.setTimeline t timeline).device = s.device := rfl

theorem points_setTimeline :
    (s.setTimeline t timeline).points = Function.update s.points t timeline.points := by
  ext1 t'
  by_cases ht : t' = t
  · subst ht
    simp [points]
  · simp [points, ht]

theorem release_setTimeline :
    (s.release x).setTimeline t timeline = (s.setTimeline t timeline).release x := by
  unfold Timelines.release
  split <;> rfl

/-- No thread waits for a point of the timeline. -/
theorem Sound.nobody (h : s.Sound streamOf) (hidle : (s.timeline t).waiterCount = 0) :
    ∀ w ∈ s.waits, w.timeline ≠ t := by
  intro w hw heq
  rw [h.waiters t, List.countP_eq_zero] at hidle
  exact hidle w hw (decide_eq_true heq)

/-- What a timeline does with its points does not concern those who wait for
another one. -/
theorem Waiting.other {w : HostWait σ} (h : s.Waiting w) (hne : w.timeline ≠ t) :
    (s.setTimeline t timeline).Waiting w := by
  obtain ⟨p, hp, hle, hticket, hphase⟩ := h
  unfold points at hticket
  exact ⟨p, hp, by rwa [timeline_setTimeline_of_ne hne],
    by rwa [points, timeline_setTimeline_of_ne hne], hphase⟩

/-- Where nobody waits, the oldest point may be dropped once it is reached. -/
theorem Sound.drop (h : s.Sound streamOf) {rest : List Ticket} (hx : s.points t = x :: rest)
    (hidle : (s.timeline t).waiterCount = 0) (hsignaled : s.signaled x = true) :
    (s.setTimeline t { s.timeline t with
        points := rest, firstId := (s.timeline t).firstId + 1 }).Sound streamOf
      ∧ Free x s.recorder (s.setTimeline t { s.timeline t with
        points := rest, firstId := (s.timeline t).firstId + 1 }).points := by
  obtain ⟨howned, hfree⟩ := h.owned.pop hx
  have hreached : ∀ p, s.recorder.captured x = some p → s.device.Reached p := by
    intro p hcap
    rw [signaled, hcap] at hsignaled
    exact of_decide_eq_true hsignaled
  have hnumbered := (h.numbered t).drop hx hreached
  rw [points_setTimeline]
  exact ⟨{
    device := h.device
    owned := by
      rw [points_setTimeline]
      exact howned
    numbered := forall_setTimeline (P := fun t' timeline =>
      Numbered s.device s.recorder.captured (streamOf t') timeline (s.given t'))
      hnumbered fun t' _ => h.numbered t'
    returned := h.returned
    waiting := fun w hw => (h.waiting w hw).other (h.nobody hidle w hw)
    waiters := forall_setTimeline (P := fun t' timeline =>
      timeline.waiterCount = s.waits.countP fun w => w.timeline = t')
      (h.waiters t) fun t' _ => h.waiters t' }, hfree⟩

/-- However far `drop_reached_points` comes. -/
theorem Sound.dropLoop (answers : Answers) {l : List Ticket} (h : s.Sound streamOf)
    (hidle : (s.timeline t).waiterCount = 0) (hl : s.points t = l) :
    wp (dropLoop answers t l) (fun _ a => a.Sound streamOf ∧ Kept s a ∧ a.device = s.device)
      (fun _ a => a.Sound streamOf ∧ Kept s a ∧ a.device = s.device) s := by
  induction l generalizing s with
  | nil => exact ⟨h, .refl s, rfl⟩
  | cons x rest ih =>
      simp only [Timelines.dropLoop, recorderIsComplete, wp_bind, wp_get]
      cases hq : answers.queries x with
      | false => exact ⟨h, .refl s, rfl⟩
      | true =>
          rw [if_pos rfl, wp_pure]
          cases hsignaled : s.signaled x with
          -- the points that have been reached end here
          | false => exact ⟨h, .refl s, rfl⟩
          | true =>
              rw [if_pos rfl, wp_bind, wp_modify, release_setTimeline]
              obtain ⟨hdrop, hfree⟩ := h.drop hl hidle hsignaled
              have hrest := ih (hdrop.release hfree)
                (by rw [timeline_release, timeline_setTimeline_self]; exact hidle)
                (by rw [points, timeline_release, timeline_setTimeline_self])
              have hkept : Kept s (s.setTimeline t { s.timeline t with
                  points := rest, firstId := (s.timeline t).firstId + 1 }) := ⟨rfl, rfl, rfl⟩
              rw [device_release, device_setTimeline] at hrest
              exact wp_mono hrest
                (fun _ _ h => ⟨h.1, (hkept.trans .release).trans h.2.1, h.2.2⟩)
                fun _ _ h => ⟨h.1, (hkept.trans .release).trans h.2.1, h.2.2⟩

theorem Sound.dropReachedPoints (answers : Answers) (h : s.Sound streamOf) :
    wp (dropReachedPoints answers t)
      (fun _ a => a.Sound streamOf ∧ Kept s a ∧ a.device = s.device)
      (fun _ a => a.Sound streamOf ∧ Kept s a ∧ a.device = s.device) s := by
  unfold Timelines.dropReachedPoints
  rw [wp_bind, wp_get]
  split
  · rename_i hidle
    exact h.dropLoop answers hidle rfl
  · exact ⟨h, .refl s, rfl⟩

/-- Threads keep the tickets they wait for when the timeline gets another one. -/
theorem Waiting.push {w : HostWait σ} (h : s.Waiting w) {p : Point σ} {id : Nat} :
    ((s.setTimeline t { s.timeline t with points := (s.timeline t).points ++ [x] }).give t p id).Waiting w := by
  by_cases ht : w.timeline = t
  · -- the new ticket and its id come after the ones that are waited for
    obtain ⟨q, hq, hle, hticket, hphase⟩ := h
    subst ht
    have hlt := (List.getElem?_eq_some_iff.mp hq).1
    have hlt' := (List.getElem?_eq_some_iff.mp hticket).1
    refine ⟨q, ?_, ?_, ?_, hphase⟩
    · simp only [give, setTimeline, Function.update_self]
      rw [List.getElem?_append_left hlt]
      exact hq
    · simpa [give] using hle
    · simp only [give, setTimeline, points, Function.update_self]
      exact (List.getElem?_append_left hlt').trans hticket
  · obtain ⟨q, hq, hle, hticket, hphase⟩ := h.other ht
    exact ⟨q, by simpa [give, setTimeline, ht] using hq, hle, hticket, hphase⟩

/-- A timeline gives the next id to a ticket nobody else has. -/
theorem Sound.push (h : s.Sound streamOf) (hx : Free x s.recorder s.points) {p : Point σ}
    (hcap : s.recorder.captured x = some p) (hp : p.stream = streamOf t)
    (hbefore : s.device.Captured p s.device.issued) :
    ((s.setTimeline t { s.timeline t with points := (s.timeline t).points ++ [x] }).give t p
      (s.given t).length).Sound streamOf where
  device := h.device
  owned := by
    show Owned s.recorder (s.setTimeline t _).points
    rw [points_setTimeline]
    exact h.owned.push hx t
  numbered := by
    intro t'
    by_cases ht : t' = t
    · subst ht
      simpa [give, setTimeline] using (h.numbered t').push hcap hp hbefore
    · simpa [give, setTimeline, ht] using h.numbered t'
  returned := by
    intro t'
    by_cases ht : t' = t
    · subst ht
      simp [give, setTimeline, h.returned t', List.range_succ]
    · simpa [give, setTimeline, ht] using h.returned t'
  waiting w hw := (h.waiting w hw).push
  waiters := forall_setTimeline (P := fun t' timeline =>
      timeline.waiterCount = s.waits.countP fun w => w.timeline = t')
      (h.waiters t) fun t' _ => h.waiters t'

/-! ## Waiting -/

variable (answers : Answers)

/-- What an id that is known to be complete stands for has been reached. -/
theorem Sound.known (h : s.Sound streamOf) {id : Nat} (hid : id < (s.timeline t).firstId) :
    ∃ p, (s.given t)[id]? = some p ∧ s.device.Reached p := by
  have hlen := (h.numbered t).length
  have hlt : id < (s.given t).length := by omega
  have hp : (s.given t)[id]? = some (s.given t)[id] := List.getElem?_eq_getElem hlt
  exact ⟨_, hp, (h.numbered t).dropped id _ hp hid⟩

/-- The ticket of an id stands for the point of the id. -/
theorem Sound.getPoint (h : s.Sound streamOf) {id : Nat} (hid : ¬ id < (s.timeline t).firstId) :
    wp (getPoint (s.timeline t) id)
      (fun x a => a = s ∧ (s.points t)[id - (s.timeline t).firstId]? = some x
        ∧ ∃ p, (s.given t)[id]? = some p ∧ s.recorder.captured x = some p)
      (fun e a => a = s ∧ e = neverGave ∧ (s.given t).length ≤ id) s := by
  unfold Timelines.getPoint
  rw [if_neg hid]
  cases hx : (s.timeline t).points[id - (s.timeline t).firstId]? with
  | none =>
      have hlen := (h.numbered t).length
      have hle := List.getElem?_eq_none_iff.mp hx
      exact ⟨rfl, rfl, by omega⟩
  | some x =>
      obtain ⟨p, hp, hcap⟩ := (h.numbered t).stands _ x hx
      rw [Nat.add_sub_cancel' (Nat.not_lt.mp hid)] at hp
      exact ⟨rfl, hx, p, hp, hcap⟩

/-- How a question about an id can fail: it was never given, or the driver
fails. -/
def Refused (s : Timelines σ ω) (t : Timeline) (id : Nat) (e : Exn) : Prop :=
  e = neverGave ∧ (s.given t).length ≤ id ∨ e = .error ∧ id < (s.given t).length

/-- **`is_complete` answers whether the point of the id has been reached.** -/
theorem Sound.isComplete (h : s.Sound streamOf) (t : Timeline) (id : Nat) :
    wp (isComplete answers t id)
      (fun b a => a = s ∧ ∃ p, (s.given t)[id]? = some p ∧ (b = true ↔ s.device.Reached p))
      (fun e a => a = s ∧ Refused s t id e) s := by
  unfold Timelines.isComplete
  rw [wp_bind, wp_get]
  by_cases hid : id < (s.timeline t).firstId
  · rw [isKnownComplete, if_pos (decide_eq_true hid)]
    obtain ⟨p, hp, hreached⟩ := h.known hid
    exact ⟨rfl, p, hp, iff_of_true rfl hreached⟩
  · rw [isKnownComplete, if_neg (by rwa [decide_eq_true_iff]), wp_bind]
    refine wp_mono (h.getPoint hid) ?_ fun e a ⟨ha, he, hle⟩ => ⟨ha, .inl ⟨he, hle⟩⟩
    rintro x a ⟨rfl, -, p, hp, hcap⟩
    simp only [recorderIsComplete, wp_bind, wp_get]
    split
    · refine ⟨rfl, p, hp, ?_⟩
      rw [signaled, hcap]
      exact decide_eq_true_iff
    · exact ⟨rfl, .inr ⟨rfl, (List.getElem?_eq_some_iff.mp hp).1⟩⟩

/-- `wait` is done at once where the point is known to be reached, and else has
the ticket of its id. -/
theorem Sound.beginWait (h : s.Sound streamOf) (t : Timeline) (id : Nat) :
    wp (beginWait t id)
      (fun ticket a => match ticket with
        | none => a = s ∧ ∃ p, (s.given t)[id]? = some p ∧ s.device.Reached p
        | some x => s.Waiting ⟨t, id, x, .begun⟩ ∧ a = s.setTimeline t
            { s.timeline t with waiterCount := (s.timeline t).waiterCount + 1 })
      (fun e a => a = s ∧ e = neverGave ∧ (s.given t).length ≤ id) s := by
  unfold Timelines.beginWait
  rw [wp_bind, wp_get]
  by_cases hid : id < (s.timeline t).firstId
  · rw [isKnownComplete, if_pos (decide_eq_true hid)]
    exact ⟨rfl, h.known hid⟩
  · rw [isKnownComplete, if_neg (by rwa [decide_eq_true_iff]), wp_bind]
    refine wp_mono (h.getPoint hid) ?_ fun e a h => h
    rintro x a ⟨rfl, hx, p, hp, -⟩
    refine ⟨⟨p, hp, Nat.not_lt.mp hid, hx, ?_, ?_⟩, rfl⟩
    · intro q hq
      cases hq
    · intro hphase
      cases hphase

theorem firstId_waiters (n : Nat) (t' : Timeline) :
    ((s.setTimeline t { s.timeline t with waiterCount := n }).timeline t').firstId
      = (s.timeline t').firstId := by
  apply forall_setTimeline (P := fun t' timeline => timeline.firstId = (s.timeline t').firstId)
  · rfl
  · intro t' _
    rfl

theorem points_waiters (n : Nat) :
    (s.setTimeline t { s.timeline t with waiterCount := n }).points = s.points := by
  rw [points_setTimeline]
  exact Function.update_eq_self t s.points

/-- The number of waiters of a timeline changes with its waits. -/
theorem Sound.waits (h : s.Sound streamOf) {waits : List (HostWait σ)} {n : Nat}
    (hwaiting : ∀ w ∈ waits, s.Waiting w) (hn : n = waits.countP fun w => w.timeline = t)
    (hother : ∀ t' ≠ t, (waits.countP fun w => w.timeline = t')
      = s.waits.countP fun w => w.timeline = t') :
    ({ s.setTimeline t { s.timeline t with waiterCount := n } with waits }).Sound streamOf where
  device := h.device
  owned := by
    show Owned s.recorder (s.setTimeline t _).points
    rw [points_waiters]
    exact h.owned
  numbered := forall_setTimeline (P := fun t' timeline =>
    Numbered s.device s.recorder.captured (streamOf t') timeline (s.given t'))
    ((h.numbered t).waiters n) fun t' _ => h.numbered t'
  returned := h.returned
  waiting := by
    intro w hw
    obtain ⟨p, hp, hle, hticket, hphase⟩ := hwaiting w hw
    rw [← firstId_waiters (t := t) n] at hle hticket
    rw [← points_waiters (t := t) n] at hticket
    exact ⟨p, hp, hle, hticket, hphase⟩
  waiters := forall_setTimeline (P := fun t' timeline =>
      timeline.waiterCount = waits.countP fun w => w.timeline = t')
      hn fun t' ht => (h.waiters t').trans (hother t' ht).symm

/-- A thread goes on waiting in another phase. -/
theorem Sound.phase (h : s.Sound streamOf) {before after : List (HostWait σ)} {id : Nat}
    {phase phase' : WaitPhase σ} (has : s.waits = before ++ ⟨t, id, x, phase⟩ :: after)
    (hw : s.Waiting ⟨t, id, x, phase⟩ → s.Waiting ⟨t, id, x, phase'⟩) :
    ({ s with waits := before ++ (⟨t, id, x, phase'⟩ : HostWait σ) :: after }).Sound streamOf where
  device := h.device
  owned := h.owned
  numbered := h.numbered
  returned := h.returned
  waiting := by
    intro w hmem
    have hall := h.waiting
    rw [has] at hall
    rcases List.mem_append.mp hmem with hmem | hmem
    · exact hall w (List.mem_append_left _ hmem)
    · rcases List.mem_cons.mp hmem with rfl | hmem
      · exact hw (hall _ (List.mem_append_right _ (List.mem_cons_self ..)))
      · exact hall w (List.mem_append_right _ (List.mem_cons_of_mem _ hmem))
  waiters := by
    intro t'
    rw [h.waiters t', has]
    simp only [List.countP_append, List.countP_cons]

/-! ## The streams go on -/

section Streams

variable [DecidableEq σ]

theorem Sound.device_step (h : s.Sound streamOf) {d : Device σ ω} (hstep : Streams.Step s.device d) :
    ({ s with device := d }).Sound streamOf where
  device := h.device.step hstep
  owned := h.owned
  numbered t := (h.numbered t).step hstep
  returned := h.returned
  waiting := by
    intro w hw
    obtain ⟨p, hp, hle, hticket, hblocked, hfinished⟩ := h.waiting w hw
    exact ⟨p, hp, hle, hticket, hblocked, fun hphase => (hfinished hphase).step hstep⟩
  waiters := h.waiters

/-- The event of a ticket nobody has may capture something else. -/
theorem Sound.capture (h : s.Sound streamOf) (hx : Free x s.recorder s.points) (stream : σ) :
    (s.capture stream x).Sound streamOf := by
  have hstep : Streams.Step s.device (s.device.issue stream .capture) :=
    .issued fun p hp => by cases hp
  apply (h.device_step hstep).recorder
  · exact { h.owned with }
  · intro t y hy
    have hne : y ≠ x := fun heq => hx.timelines t (heq ▸ hy)
    exact Function.update_of_ne hne ..

/-- A record either takes a ticket that nobody has and makes it stand for the
end of the stream, or takes none. -/
theorem Sound.recorderRecord (h : s.Sound streamOf) (stream : σ) :
    wp (recorderRecord answers stream) (fun x a => a.Sound streamOf
        ∧ Free x a.recorder a.points ∧ a.recorder.captured x = some (s.device.last stream)
        ∧ Kept s a ∧ a.device = s.device.issue stream .capture)
      (fun _ a => a.Sound streamOf ∧ Kept s a ∧ a.device = s.device) s := by
  unfold Timelines.recorderRecord
  rw [wp_bind]
  refine wp_mono (h.acquire answers) ?_ fun _ _ h => h
  intro x b ⟨hb, hx, hkept, hdevice⟩
  rw [wp_bind, wp_tryCatch]
  simp only [Timelines.eventRecord]
  cases hc : answers.captures with
  -- whoever failed to capture a point gives the ticket back
  | false => exact ⟨hb.release hx, hkept.trans .release, device_release.trans hdevice⟩
  | true =>
      refine ⟨hb.capture hx stream, ⟨hx.made, hx.pool, hx.timelines⟩, ?_,
        ⟨hkept.given, hkept.returned, hkept.waits⟩, ?_⟩
      · simp [Timelines.capture, hdevice]
      · simp [Timelines.capture, hdevice]

/-- What issuing nothing, or a capture, on a stream leaves. -/
def Recorded (stream : σ) (s a : Timelines σ ω) : Prop :=
  a.device = s.device ∨ a.device = s.device.issue stream .capture

/-- **`record` gives the next id to the end of its stream**, or throws and
gives none. -/
theorem Sound.record (h : s.Sound streamOf) (t : Timeline) :
    wp (record answers t (streamOf t))
      (fun id a => id = (s.given t).length
        ∧ (a.give t (s.device.last (streamOf t)) id).Sound streamOf
        ∧ Kept s a ∧ a.device = s.device.issue (streamOf t) .capture)
      (fun _ a => a.Sound streamOf ∧ Kept s a ∧ Recorded (streamOf t) s a) s := by
  unfold Timelines.record
  rw [wp_bind]
  refine wp_mono (h.dropReachedPoints answers) ?_ fun _ a ⟨ha, hk, hd⟩ => ⟨ha, hk, .inl hd⟩
  intro _ b ⟨hb, hkept, hdevice⟩
  rw [wp_bind]
  refine wp_mono (hb.recorderRecord answers (streamOf t)) ?_
    fun _ a ⟨ha, hk, hd⟩ => ⟨ha, hkept.trans hk, .inl (hd.trans hdevice)⟩
  intro x c ⟨hc, hx, hcap, hkept', hdevice'⟩
  rw [hdevice] at hcap hdevice'
  rw [wp_bind, wp_tryCatch]
  simp only [pushPoint]
  cases hr : answers.room with
  | false =>
      -- the ticket goes back, and the stream has captured a point for nothing
      refine ⟨hc.release hx, (hkept.trans hkept').trans .release, .inr ?_⟩
      rw [device_release, hdevice']
  | true =>
      have hgiven : s.given t = c.given t := by rw [hkept'.given, hkept.given]
      have hlen := (hc.numbered t).length
      have hbefore : c.device.Captured (s.device.last (streamOf t)) c.device.issued := by
        rw [hdevice']
        exact Device.captured_issue
      have hid : (c.setTimeline t { c.timeline t with points := (c.timeline t).points ++ [x] }
          |>.timeline t).firstId + ((c.setTimeline t { c.timeline t with
            points := (c.timeline t).points ++ [x] }).timeline t).points.length - 1
          = (s.given t).length := by
        rw [timeline_setTimeline_self, hgiven, List.length_append, List.length_singleton]
        show (c.timeline t).firstId + ((c.timeline t).points.length + 1) - 1 = _
        omega
      refine ⟨hid, ?_, ⟨(hkept.trans hkept').given, (hkept.trans hkept').returned,
        (hkept.trans hkept').waits⟩, hdevice'⟩
      rw [hid, hgiven]
      exact hc.push hx hcap rfl hbefore

/-- **`enqueue_wait` makes the waiter wait for the point of the id**, unless
that is known to be reached. -/
theorem Sound.enqueueWait (h : s.Sound streamOf) (waiter : σ) (t : Timeline) (id : Nat) :
    wp (enqueueWait answers waiter t id)
      (fun _ a => ∃ p, (s.given t)[id]? = some p ∧ (s.device.Reached p ∧ a = s
        ∨ a = { s with device := s.device.issue waiter (.wait p) }))
      (fun e a => a = s ∧ Refused s t id e) s := by
  unfold Timelines.enqueueWait
  rw [wp_bind, wp_get]
  by_cases hid : id < (s.timeline t).firstId
  · rw [isKnownComplete, if_pos (decide_eq_true hid)]
    obtain ⟨p, hp, hreached⟩ := h.known hid
    exact ⟨p, hp, .inl ⟨hreached, rfl⟩⟩
  · rw [isKnownComplete, if_neg (by rwa [decide_eq_true_iff]), wp_bind]
    refine wp_mono (h.getPoint hid) ?_ fun e a ⟨ha, he, hle⟩ => ⟨ha, .inl ⟨he, hle⟩⟩
    rintro x a ⟨rfl, -, p, hp, hcap⟩
    simp only [recorderEnqueueWait]
    split
    · refine ⟨p, hp, .inr ?_⟩
      rw [scheduleWait, hcap]
    · exact ⟨rfl, .inr ⟨rfl, (List.getElem?_eq_some_iff.mp hp).1⟩⟩

/-- However `enqueue_wait` is left, it has scheduled a wait for a point that was
given, or done nothing. -/
theorem Sound.enqueueWait_final (h : s.Sound streamOf) {waiter : σ} {id : Nat}
    {result : Except Exn Unit}
    (hrun : Timelines.enqueueWait answers waiter t id s = (result, a)) :
    a = s ∨ ∃ p ∈ s.given t, a = { s with device := s.device.issue waiter (.wait p) } := by
  have hspec := h.enqueueWait answers waiter t id
  cases result with
  | error e => exact .inl (wp_thrown hspec hrun).1
  | ok _ =>
      obtain ⟨p, hp, ⟨-, ha⟩ | ha⟩ := wp_returned hspec hrun
      · exact .inl ha
      · exact .inr ⟨p, List.mem_of_getElem? hp, ha⟩

/-- Points that were given may be waited for. -/
theorem Sound.wait_step (h : s.Sound streamOf) {p : Point σ} (hp : p ∈ s.given t) (waiter : σ) :
    Streams.Step s.device (s.device.issue waiter (.wait p)) := by
  apply Streams.Step.issued
  intro q hq
  cases hq
  exact ((h.numbered t).given p hp).2

end Streams

/-! ## Timelines come and go -/

theorem release_all {l : List Ticket} (hl : ∀ x ∈ l, 0 < x) :
    l.foldl (fun s point => s.release point) s
      = { s with recorder := { s.recorder with available := l.reverse ++ s.recorder.available } } := by
  induction l generalizing s with
  | nil => rfl
  | cons x rest ih =>
      rw [List.foldl_cons, ih fun y hy => hl y (List.mem_cons_of_mem _ hy),
        release_eq (hl x (List.mem_cons_self ..))]
      simp

theorem Sound.destroy (h : s.Sound streamOf) (hidle : ∀ w ∈ s.waits, w.timeline ≠ t) :
    (s.destroy t).Sound streamOf := by
  have heq : s.destroy t = { s with
      recorder := { s.recorder with available := (s.points t).reverse ++ s.recorder.available }
      timeline := Function.update s.timeline t ⟨[], 0, 0⟩
      given := Function.update s.given t []
      returned := Function.update s.returned t [] } := by
    have hall : (s.timeline t).points.foldl (fun s point => s.release point) s = _ :=
      release_all fun x hx => (h.owned.held t x hx).1
    rw [Timelines.destroy, hall]
    rfl
  rw [heq]
  exact {
    device := h.device
    owned := by
      show Owned _ (s.setTimeline t ⟨[], 0, 0⟩).points
      rw [points_setTimeline]
      exact h.owned.clear t
    numbered := by
      intro t'
      by_cases ht : t' = t
      · subst ht
        simpa using Numbered.empty
      · simpa [ht] using h.numbered t'
    returned := by
      intro t'
      by_cases ht : t' = t
      · subst ht
        simp
      · simpa [ht] using h.returned t'
    waiting := by
      -- those who wait do so for another timeline
      intro w hw
      have hne := hidle w hw
      obtain ⟨p, hp, hrest⟩ : (s.setTimeline t ⟨[], 0, 0⟩).Waiting w := (h.waiting w hw).other hne
      refine ⟨p, ?_, hrest⟩
      show (Function.update s.given t [] w.timeline)[w.id]? = some p
      rw [Function.update_of_ne hne]
      exact hp
    waiters := by
      intro t'
      by_cases ht : t' = t
      · subst ht
        have hnone : s.waits.countP (fun w => w.timeline = t') = 0 :=
          List.countP_eq_zero.mpr fun w hw => by simpa using hidle w hw
        simpa using hnone.symm
      · simpa [ht] using h.waiters t' }

/-! ## Steps -/

/-- The ticket a thread waits for still stands for the point of its id. -/
theorem Sound.waitingFor (h : s.Sound streamOf) {w : HostWait σ} (hw : s.Waiting w) :
    ∃ p, (s.given w.timeline)[w.id]? = some p ∧ s.recorder.captured w.ticket = some p
      ∧ (∀ q, w.phase = .blocked q → q = p) ∧ (w.phase = .finished true → s.device.Reached p) := by
  obtain ⟨p, hp, hle, hticket, hblocked, hfinished⟩ := hw
  obtain ⟨q, hq, hcap⟩ := (h.numbered w.timeline).stands _ _ hticket
  rw [Nat.add_sub_cancel' hle, hp] at hq
  cases hq
  exact ⟨p, hp, hcap, hblocked, hfinished⟩

/-- A thread begins to wait. -/
theorem Sound.waitBegan (h : s.Sound streamOf) {w : HostWait σ} (hw : s.Waiting w) :
    ({ s.setTimeline w.timeline { s.timeline w.timeline with
        waiterCount := (s.timeline w.timeline).waiterCount + 1 } with
      waits := w :: s.waits }).Sound streamOf := by
  apply h.waits
  · intro w' hmem
    rcases List.mem_cons.mp hmem with rfl | hmem
    · exact hw
    · exact h.waiting w' hmem
  · rw [h.waiters]
    simp
  · intro t' ht
    simp [ht.symm]

/-- It calls the driver, which waits for the point of the id. -/
theorem Sound.waitCalled (h : s.Sound streamOf) {before after : List (HostWait σ)} {id : Nat}
    {p : Point σ} (has : s.waits = before ++ ⟨t, id, x, .begun⟩ :: after)
    (hcaptured : s.recorder.captured x = some p) :
    ({ s with waits := before ++ (⟨t, id, x, .blocked p⟩ : HostWait σ) :: after }).Sound
      streamOf := by
  apply h.phase has
  intro hw
  obtain ⟨q, hq, hcap, -⟩ := h.waitingFor hw
  obtain ⟨-, -, hle, hticket, -⟩ := hw
  -- the ticket still stands for the point of the id
  rw [hcaptured] at hcap
  cases hcap
  refine ⟨p, hq, hle, hticket, ?_, ?_⟩
  · intro q hq
    cases hq
    rfl
  · intro hphase
    cases hphase

/-- A thread has done with waiting. -/
theorem Sound.waitEnded (h : s.Sound streamOf) {before after : List (HostWait σ)} {w : HostWait σ}
    (has : s.waits = before ++ w :: after) :
    ({ s.endWait w.timeline with waits := before ++ after }).Sound streamOf := by
  have hwaiters := h.waiters
  rw [has] at hwaiters
  have hwaiting := h.waiting
  rw [has] at hwaiting
  apply h.waits
  · intro w' hw'
    apply hwaiting
    rcases List.mem_append.mp hw' with hw' | hw'
    · exact List.mem_append_left _ hw'
    · exact List.mem_append_right _ (List.mem_cons_of_mem _ hw')
  · rw [hwaiters]
    simp only [List.countP_append, List.countP_cons, decide_true, if_true]
    omega
  · intro t' ht
    rw [has]
    simp [List.countP_append, ht.symm]

variable [DecidableEq σ]

/-- **Every step of every thread, and of the streams**, keeps what holds. -/
theorem Sound.step (h : s.Sound streamOf) (hstep : Step streamOf s a) : a.Sound streamOf := by
  cases hstep with
  | recorded returned => exact (wp_returned (h.record _ _) returned).2.1
  | recordThrew thrown => exact (wp_thrown (h.record _ _) thrown).1
  | waitBegan began =>
      obtain ⟨hw, rfl⟩ := wp_returned (h.beginWait _ _) began
      exact h.waitBegan hw
  | waitCalled has captured => exact h.waitCalled has captured
  | waitSkipped has nothing =>
      apply h.phase has
      -- no ticket that is waited for has captured nothing
      intro hw
      obtain ⟨q, -, hcap, -⟩ := h.waitingFor hw
      rw [nothing] at hcap
      cases hcap
  | waitReturned has reached =>
      apply h.phase has
      intro ⟨p, hp, hle, hticket, hblocked, _⟩
      obtain rfl := hblocked _ rfl
      refine ⟨_, hp, hle, hticket, ?_, fun _ => reached⟩
      intro q hq
      cases hq
  | waitFailed has inside =>
      apply h.phase has
      intro ⟨p, hp, hle, hticket, _⟩
      refine ⟨p, hp, hle, hticket, ?_, ?_⟩
      · intro q hq
        cases hq
      · intro hphase
        cases hphase
  | waitEnded has => exact h.waitEnded has
  | enqueued asked =>
      rcases h.enqueueWait_final _ asked with rfl | ⟨p, hp, rfl⟩
      · exact h
      · exact h.device_step (h.wait_step hp _)
  | issued stream w => exact h.device_step (.issued fun p hp => by cases hp)
  | executed front ready => exact h.device_step (.executed front ready)

theorem Sound.reflGen (h : s.Sound streamOf) (hstep : Relation.ReflGen (Step streamOf) s a) :
    a.Sound streamOf := by
  cases hstep with
  | refl => exact h
  | single hstep => exact h.step hstep

/-- A step issues at most one operation, or executes one. -/
theorem Sound.step_device (h : s.Sound streamOf) (hstep : Step streamOf s a) :
    Relation.ReflGen Streams.Step s.device a.device := by
  cases hstep with
  | recorded returned =>
      obtain ⟨-, -, -, hdevice⟩ := wp_returned (h.record _ _) returned
      exact hdevice ▸ .single (.issued fun p hp => by cases hp)
  | recordThrew thrown =>
      obtain ⟨-, -, hdevice | hdevice⟩ := wp_thrown (h.record _ _) thrown
      · exact hdevice ▸ .refl
      · exact hdevice ▸ .single (.issued fun p hp => by cases hp)
  | waitBegan began =>
      obtain ⟨-, rfl⟩ := wp_returned (h.beginWait _ _) began
      exact .refl
  | waitCalled has captured => exact .refl
  | waitSkipped has nothing => exact .refl
  | waitReturned has reached => exact .refl
  | waitFailed has inside => exact .refl
  | waitEnded has => exact .refl
  | enqueued asked =>
      rcases h.enqueueWait_final _ asked with rfl | ⟨p, hp, rfl⟩
      · exact .refl
      · exact .single (h.wait_step hp _)
  | issued stream w => exact .single (.issued fun p hp => by cases hp)
  | executed front ready => exact .single (.executed front ready)

/-- Ids keep what they stand for. -/
theorem Sound.step_given (h : s.Sound streamOf) (hstep : Step streamOf s a) (t : Timeline) :
    s.given t <+: a.given t := by
  cases hstep with
  | @recorded b answers t' id returned =>
      obtain ⟨-, -, hkept, -⟩ := wp_returned (h.record _ _) returned
      rw [← hkept.given]
      by_cases ht : t = t'
      · subst ht
        simp [give]
      · simp [give, ht]
  | recordThrew thrown =>
      obtain ⟨-, hkept, -⟩ := wp_thrown (h.record _ _) thrown
      exact hkept.given ▸ List.prefix_rfl
  | waitBegan began =>
      obtain ⟨-, rfl⟩ := wp_returned (h.beginWait _ _) began
      exact List.prefix_rfl
  | waitCalled has captured => exact List.prefix_rfl
  | waitSkipped has nothing => exact List.prefix_rfl
  | waitReturned has reached => exact List.prefix_rfl
  | waitFailed has inside => exact List.prefix_rfl
  | waitEnded has => exact List.prefix_rfl
  | enqueued asked =>
      rcases h.enqueueWait_final _ asked with rfl | ⟨p, -, rfl⟩
      · exact List.prefix_rfl
      · exact List.prefix_rfl
  | issued stream w => exact List.prefix_rfl
  | executed front ready => exact List.prefix_rfl

theorem Sound.life (h : s.Sound streamOf) (hlife : Life streamOf s a) : a.Sound streamOf := by
  cases hlife with
  | step hstep => exact h.step hstep
  | destroyed idle => exact h.destroy idle

theorem Sound.reachable (h : Relation.ReflTransGen (Life streamOf) Timelines.empty s) :
    s.Sound streamOf :=
  Runs.invariant (fun _ _ ha hlife => ha.life hlife) h .empty

end Timelines

end RexlibCuda
