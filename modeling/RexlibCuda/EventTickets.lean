import Mathlib.Algebra.BigOperators.Group.List.Basic
import Mathlib.Algebra.Order.Group.Multiset
import RexlibCuda.TimelineInvariant

/-! The tickets of `pooled_event_recorder` where any number of threads record
points and give them back. A call of `record` holds the lock to get a ticket,
to find its event and, if the event captures nothing, to give the ticket back,
and other threads may come in between. -/

namespace RexlibCuda

open Prog

open Relation (ReflTransGen)

/-- How far a thread has come in `pooled_event_recorder::record`. -/
inductive RecordPhase where
  /-- It has a ticket. -/
  | acquired
  /-- It has the event of the ticket. -/
  | found
  /-- `cudaEventRecord` has failed. -/
  | failed (e : Exn)

/-- A thread inside `pooled_event_recorder::record`, which has a ticket nobody
has seen yet. -/
structure RecordCall (σ : Type) where
  stream : σ
  ticket : Ticket
  phase : RecordPhase

/-- A recorder and its callers. -/
structure Recordings (σ ω : Type) where
  base : Timelines σ ω
  calls : List (RecordCall σ)
  /-- The tickets `record` has returned and nobody has given back since. -/
  outstanding : Multiset Ticket

namespace Recordings

open Timelines (acquire capture create eventRecord recorderRecord release)

variable {σ ω : Type} {r t : Recordings σ ω} {s a : Timelines σ ω} {answers : Answers}

def empty : Recordings σ ω := ⟨.empty, [], 0⟩

/-- Who has a ticket that is not in the pool. -/
def held (r : Recordings σ ω) : Multiset Ticket :=
  (r.calls.map RecordCall.ticket : Multiset Ticket) + r.outstanding

section Steps

variable [DecidableEq σ]

/-- What any thread does next. -/
inductive Step : Recordings σ ω → Recordings σ ω → Prop
  /-- `acquire` returns. -/
  | acquired {r : Recordings σ ω} {a : Timelines σ ω} {answers : Answers} {ticket : Ticket}
      (stream : σ) (returned : acquire answers r.base = (.ok ticket, a)) :
      Step r { r with base := a, calls := ⟨stream, ticket, .acquired⟩ :: r.calls }
  /-- `acquire` throws, and `record` with it. -/
  | acquireThrew {r : Recordings σ ω} {a : Timelines σ ω} {answers : Answers} {e : Exn}
      (stream : σ) (thrown : acquire answers r.base = (.error e, a)) : Step r { r with base := a }
  /-- `get_event` returns. -/
  | found {r : Recordings σ ω} {before after : List (RecordCall σ)} {stream : σ} {ticket : Ticket}
      (has : r.calls = before ++ ⟨stream, ticket, .acquired⟩ :: after) :
      Step r { r with calls := before ++ ⟨stream, ticket, .found⟩ :: after }
  /-- The event captures the stream, and `record` returns. -/
  | captured {r : Recordings σ ω} {a : Timelines σ ω} {before after : List (RecordCall σ)}
      {answers : Answers} {stream : σ} {ticket : Ticket}
      (has : r.calls = before ++ ⟨stream, ticket, .found⟩ :: after)
      (returned : eventRecord answers stream ticket r.base = (.ok (), a)) :
      Step r ⟨a, before ++ after, ticket ::ₘ r.outstanding⟩
  /-- It does not. -/
  | captureThrew {r : Recordings σ ω} {a : Timelines σ ω} {before after : List (RecordCall σ)}
      {answers : Answers} {stream : σ} {ticket : Ticket} {e : Exn}
      (has : r.calls = before ++ ⟨stream, ticket, .found⟩ :: after)
      (thrown : eventRecord answers stream ticket r.base = (.error e, a)) :
      Step r { r with base := a, calls := before ++ ⟨stream, ticket, .failed e⟩ :: after }
  /-- `record` gives the ticket back, and throws. -/
  | gaveBack {r : Recordings σ ω} {before after : List (RecordCall σ)} {stream : σ}
      {ticket : Ticket} {e : Exn}
      (has : r.calls = before ++ ⟨stream, ticket, .failed e⟩ :: after) :
      Step r { r with base := r.base.release ticket, calls := before ++ after }
  /-- Whoever has a ticket gives it back. -/
  | released {r : Recordings σ ω} {ticket : Ticket} {rest : Multiset Ticket}
      (has : r.outstanding = ticket ::ₘ rest) :
      Step r { r with base := r.base.release ticket, outstanding := rest }
  /-- Somebody who has none gives back none. -/
  | releasedNone {r : Recordings σ ω} : Step r { r with base := r.base.release noTicket }
  /-- Whatever happens that the recorder is no part of. -/
  | passed {r : Recordings σ ω} {a : Timelines σ ω} (same : a.recorder = r.base.recorder) :
      Step r { r with base := a }

end Steps

/-! ## What one step keeps -/

/-- **Every ticket is in one place**, in the pool or held by somebody, and the
pool has room for all of them. -/
structure Conserved (r : Recordings σ ω) : Prop where
  tickets : (r.base.recorder.available : Multiset Ticket) + r.held
    = (List.range' 1 r.base.recorder.events : Multiset Ticket)
  room : r.base.recorder.events ≤ r.base.recorder.reserved

theorem Conserved.empty : Conserved (empty : Recordings σ ω) := ⟨rfl, Nat.le_refl 0⟩

/-- The tickets are those of the events, and each is in one place only. -/
theorem Conserved.mem_iff (h : Conserved r) {ticket : Ticket} :
    ticket ∈ r.base.recorder.available ∨ ticket ∈ r.held ↔
      0 < ticket ∧ ticket ≤ r.base.recorder.events := by
  have hmem : ticket ∈ (r.base.recorder.available : Multiset Ticket) + r.held ↔
      ticket ∈ List.range' 1 r.base.recorder.events := by
    rw [h.tickets, Multiset.mem_coe]
  rw [Multiset.mem_add, Multiset.mem_coe, List.mem_range'_1, Nat.lt_one_add_iff] at hmem
  exact hmem

theorem Conserved.nodup (h : Conserved r) :
    ((r.base.recorder.available : Multiset Ticket) + r.held).Nodup := by
  rw [h.tickets, Multiset.coe_nodup]
  exact List.nodup_range'

/-- Giving a ticket back takes no more room than there is. -/
theorem Conserved.push (h : Conserved r) {ticket : Ticket} (hheld : ticket ∈ r.held) :
    r.base.recorder.available.length + 1 ≤ r.base.recorder.reserved := by
  have hcard := congrArg Multiset.card h.tickets
  have hpos := Multiset.card_pos_iff_exists_mem.mpr ⟨ticket, hheld⟩
  have hroom := h.room
  rw [Multiset.card_add, Multiset.coe_card, Multiset.coe_card, List.length_range'] at hcard
  omega

/-! What is held once a call or a ticket comes or goes. -/

theorem held_cons (c : RecordCall σ) (a : Timelines σ ω) :
    ({ r with base := a, calls := c :: r.calls } : Recordings σ ω).held = c.ticket ::ₘ r.held := by
  simp only [held, List.map_cons, ← Multiset.cons_coe, Multiset.cons_add]

theorem held_of_calls {before after : List (RecordCall σ)} {c : RecordCall σ}
    (has : r.calls = before ++ c :: after) :
    r.held = c.ticket ::ₘ ({ r with calls := before ++ after } : Recordings σ ω).held := by
  simp only [held, has, List.map_append, List.map_cons, ← Multiset.coe_add, ← Multiset.cons_coe,
    Multiset.add_cons, Multiset.cons_add]

theorem held_of_outstanding {ticket : Ticket} {rest : Multiset Ticket}
    (has : r.outstanding = ticket ::ₘ rest) :
    r.held = ticket ::ₘ ({ r with outstanding := rest } : Recordings σ ω).held := by
  simp only [held, has, Multiset.add_cons]

/-- Only the tickets count, not who holds them. -/
theorem Conserved.congr (h : Conserved r) (hbase : t.base.recorder.available
      = r.base.recorder.available ∧ t.base.recorder.events = r.base.recorder.events)
    (hroom : r.base.recorder.reserved ≤ t.base.recorder.reserved) (hheld : t.held = r.held) :
    Conserved t where
  tickets := by
    rw [hbase.1, hbase.2, hheld]
    exact h.tickets
  room := by
    rw [hbase.2]
    exact Nat.le_trans h.room hroom

/-- **A ticket that is held goes to the pool**, and is held no more. -/
theorem Conserved.release (h : Conserved r) {ticket : Ticket} (hheld : r.held = ticket ::ₘ t.held)
    (hbase : t.base = r.base.release ticket) : Conserved t := by
  have hpos : ticket ≠ noTicket := by
    have hmem : ticket ∈ r.held := hheld ▸ Multiset.mem_cons_self ticket t.held
    exact Nat.ne_of_gt (h.mem_iff.mp (.inr hmem)).1
  have htickets := h.tickets
  rw [hheld, Multiset.add_cons, ← Multiset.cons_add, Multiset.cons_coe] at htickets
  rw [Timelines.release, if_neg hpos] at hbase
  constructor
  · rw [hbase]
    exact htickets
  · rw [hbase]
    exact h.room

/-- **`acquire` takes a ticket out of the pool**, or makes room for one more and
then its event. -/
theorem Conserved.acquire (h : Conserved r) (answers : Answers) (stream : σ) :
    wp (Timelines.acquire answers)
      (fun ticket a =>
        Conserved { r with base := a, calls := ⟨stream, ticket, .acquired⟩ :: r.calls })
      (fun _ a => Conserved { r with base := a }) r.base := by
  have htickets := h.tickets
  unfold Timelines.acquire
  rw [wp_bind, wp_get]
  cases havailable : r.base.recorder.available with
  | nil =>
      rw [havailable] at htickets
      simp only [Timelines.create]
      cases answers.reserves with
      | false => exact h
      | true =>
          cases answers.creates with
          | false =>
              -- the room stays reserved, with no event to use it
              exact h.congr ⟨rfl, rfl⟩ (Nat.le_max_left _ _) rfl
          | true =>
              constructor
              · show (r.base.recorder.available : Multiset Ticket) + _
                  = (List.range' 1 (r.base.recorder.events + 1) : Multiset Ticket)
                rw [held_cons, havailable, Multiset.add_cons, htickets, List.range'_1_concat,
                  Nat.add_comm 1, Multiset.cons_coe]
                exact Multiset.coe_eq_coe.mpr (List.perm_append_singleton ..).symm
              · exact Nat.le_max_right _ _
  | cons ticket available =>
      rw [havailable, ← Multiset.cons_coe, Multiset.cons_add, ← Multiset.add_cons] at htickets
      constructor
      · show (available : Multiset Ticket) + _ = _
        rw [held_cons]
        exact htickets
      · exact h.room

/-- What an event captures changes no ticket. -/
theorem eventRecord_keeps [DecidableEq σ] (answers : Answers) (stream : σ) (ticket : Ticket)
    (s : Timelines σ ω) :
    wp (eventRecord answers stream ticket)
      (fun _ a => a.recorder.available = s.recorder.available ∧
        a.recorder.events = s.recorder.events ∧ a.recorder.reserved = s.recorder.reserved)
      (fun _ a => a = s) s := by
  unfold eventRecord
  split
  · exact ⟨rfl, rfl, rfl⟩
  · rfl

/-- **Every step keeps the tickets.** -/
theorem Conserved.step [DecidableEq σ] (h : Conserved r) (hstep : Step r t) : Conserved t := by
  cases hstep with
  | acquired stream returned => exact wp_returned (h.acquire _ stream) returned
  | acquireThrew stream thrown => exact wp_thrown (h.acquire _ stream) thrown
  | @found before after stream ticket has =>
      refine h.congr ⟨rfl, rfl⟩ (Nat.le_refl _) ?_
      simp [held, has]
  | @captured a before after answers stream ticket has returned =>
      obtain ⟨havailable, hevents, hreserved⟩ :=
        wp_returned (eventRecord_keeps answers stream ticket _) returned
      apply h.congr ⟨havailable, hevents⟩ (Nat.le_of_eq hreserved.symm)
      -- the ticket goes from the call to whoever made it
      rw [held_of_calls has]
      exact held_of_outstanding rfl
  | @captureThrew a before after answers stream ticket e has thrown =>
      obtain rfl := wp_thrown (eventRecord_keeps answers stream ticket _) thrown
      refine h.congr ⟨rfl, rfl⟩ (Nat.le_refl _) ?_
      simp [held, has]
  | gaveBack has => exact h.release (held_of_calls has) rfl
  | released has => exact h.release (held_of_outstanding has) rfl
  | releasedNone => exact h
  | passed same => exact h.congr ⟨congrArg _ same, congrArg _ same⟩ (Nat.le_of_eq (same ▸ rfl)) rfl

theorem Conserved.run [DecidableEq σ] (hrun : ReflTransGen Step (Recordings.empty : Recordings σ ω) r) :
    Conserved r :=
  Runs.invariant (I := Conserved) (fun _ _ h hstep => h.step hstep) hrun .empty

/-! ## `record` without interruption -/

variable [DecidableEq σ]

/-- **`pooled_event_recorder::record` takes these steps**, whether it returns or
throws, and what it returns is handed out then. -/
theorem recorderRecord_run (answers : Answers) (stream : σ) (r : Recordings σ ω) :
    wp (recorderRecord answers stream)
      (fun ticket a => ReflTransGen Step r ⟨a, r.calls, ticket ::ₘ r.outstanding⟩)
      (fun _ a => ReflTransGen Step r ⟨a, r.calls, r.outstanding⟩) r.base := by
  simp only [recorderRecord, wp_bind, wp_tryCatch, wp_modify, wp_throw, wp_pure]
  refine wp_mono (wp_run _ r.base) ?_ ?_
  · intro ticket a hacquired
    have hfound := @Step.found σ ω _ ⟨a, ⟨stream, ticket, .acquired⟩ :: r.calls, r.outstanding⟩ []
      r.calls stream ticket rfl
    have hbegan : ReflTransGen Step r _ := .tail (.single (.acquired stream hacquired)) hfound
    refine wp_mono (wp_run _ a) ?_ ?_
    · intro _ u hcaptured
      exact hbegan.tail (@Step.captured σ ω _ _ u [] r.calls answers stream ticket rfl hcaptured)
    · intro e u hfailed
      have hcaught := hbegan.tail
        (@Step.captureThrew σ ω _ _ u [] r.calls answers stream ticket e rfl hfailed)
      exact hcaught.tail (@Step.gaveBack σ ω _ _ [] r.calls stream ticket e rfl)
  · intro e a hthrown
    exact .single (.acquireThrew stream hthrown)

/-! ## `stream_timeline` -/

section Timeline

variable (t : Timeline) (calls : List (RecordCall σ)) (others : Multiset Ticket)

/-- The recorder where the outstanding tickets are the points of a timeline, and
others. -/
def sharing (s : Timelines σ ω) : Recordings σ ω := ⟨s, calls, (s.points t : Multiset Ticket) + others⟩

/-- Steps of the recorder lead from the one to the other, and no other timeline
has other points than before. -/
def Reaches (s a : Timelines σ ω) : Prop :=
  ReflTransGen Step (sharing t calls others s) (sharing t calls others a) ∧
    ∀ t' ≠ t, a.points t' = s.points t'

variable {t calls others}

theorem Reaches.refl (s : Timelines σ ω) : Reaches t calls others s s := ⟨.refl, fun _ _ => rfl⟩

theorem Reaches.trans {b : Timelines σ ω} (h : Reaches t calls others s a)
    (h' : Reaches t calls others a b) : Reaches t calls others s b :=
  ⟨h.1.trans h'.1, fun t' ht => (h'.2 t' ht).trans (h.2 t' ht)⟩

/-- Whatever the recorder is no part of. -/
theorem Reaches.passed (hrecorder : a.recorder = s.recorder) (hpoints : a.points = s.points) :
    Reaches t calls others s a := by
  refine ⟨.single ?_, fun t' _ => congrFun hpoints t'⟩
  have hstep := @Step.passed σ ω _ (sharing t calls others s) a hrecorder
  simpa only [sharing, hpoints] using hstep

omit [DecidableEq σ] in
theorem points_congr (h : a.timeline = s.timeline) : a.points = s.points := by
  ext1 t'
  simp only [Timelines.points, h]

omit [DecidableEq σ] in
theorem points_release (x : Ticket) (s : Timelines σ ω) : (s.release x).points = s.points :=
  points_congr Timelines.timeline_release

/-- A timeline gives its oldest point back. -/
theorem Reaches.released {x : Ticket} {points : List Ticket} {timeline : StreamTimeline}
    (has : s.points t = x :: points) (hleft : timeline.points = points) :
    Reaches t calls others s ((s.release x).setTimeline t timeline) := by
  have hpoints : ((s.release x).setTimeline t timeline).points
      = Function.update s.points t points := by
    rw [Timelines.points_setTimeline, hleft, points_release]
  constructor
  · have hout : (sharing t calls others s).outstanding
        = x ::ₘ ((points : Multiset Ticket) + others) := by
      simp only [sharing, has, ← Multiset.cons_coe, Multiset.cons_add]
    have hstep : ReflTransGen Step (sharing t calls others s)
        ⟨s.release x, calls, (points : Multiset Ticket) + others⟩ := .single (.released hout)
    apply hstep.tail
    have hpassed := @Step.passed σ ω _ ⟨s.release x, calls, (points : Multiset Ticket) + others⟩
      ((s.release x).setTimeline t timeline) rfl
    simpa only [sharing, hpoints, Function.update_self] using hpassed
  · intro t' ht
    rw [hpoints, Function.update_of_ne ht]

theorem dropLoop_reaches (answers : Answers) (points : List Ticket) :
    ∀ s : Timelines σ ω, s.points t = points →
      wp (Timelines.dropLoop answers t points) (fun _ a => Reaches t calls others s a)
        (fun _ a => Reaches t calls others s a) s := by
  induction points with
  | nil => exact fun s _ => .refl s
  | cons x points ih =>
      intro s has
      simp only [Timelines.dropLoop, Timelines.recorderIsComplete, wp_bind, wp_get, wp_ite, wp_pure,
        wp_throw, wp_modify]
      split
      · split
        · have hreleased := @Reaches.released σ ω s _ t calls others x points
            { s.timeline t with points, firstId := (s.timeline t).firstId + 1 } has rfl
          refine wp_mono (ih _ ?_) ?_ ?_
          · simp [Timelines.points]
          · intro _ a ha
            exact hreleased.trans ha
          · intro e a ha
            exact hreleased.trans ha
        · exact .refl s
      · exact .refl s

/-- The recorder leaves the timelines alone. -/
theorem recorderRecord_timeline (answers : Answers) (stream : σ) (s : Timelines σ ω) :
    wp (recorderRecord answers stream) (fun _ a => a.timeline = s.timeline)
      (fun _ a => a.timeline = s.timeline) s := by
  have hacquire : wp (acquire answers) (fun _ a => a.timeline = s.timeline)
      (fun _ a => a.timeline = s.timeline) s := by
    unfold Timelines.acquire
    rw [wp_bind, wp_get]
    split
    · simp only [Timelines.create, wp_ite, wp_bind, wp_throw, wp_modify, wp_get, wp_pure, ite_self]
    · rfl
  simp only [recorderRecord, wp_bind, wp_tryCatch, wp_modify, wp_throw, wp_pure]
  refine wp_mono hacquire ?_ fun _ _ h => h
  intro ticket b hb
  unfold eventRecord
  split
  · exact hb
  · exact Timelines.timeline_release.trans hb

section Taken

variable {b : Timelines σ ω} {ticket : Ticket}
  (hrun : ReflTransGen Step (sharing t calls others s)
    ⟨a, calls, ticket ::ₘ ((s.points t : Multiset Ticket) + others)⟩)
  (htimeline : a.timeline = s.timeline)

include hrun htimeline

/-- A ticket that has been taken becomes the last point of a timeline. -/
theorem Reaches.pushed : Reaches t calls others s
    (a.setTimeline t { a.timeline t with points := (a.timeline t).points ++ [ticket] }) := by
  have hpoints : (a.setTimeline t
      { a.timeline t with points := (a.timeline t).points ++ [ticket] }).points
        = Function.update s.points t (s.points t ++ [ticket]) := by
    rw [Timelines.points_setTimeline, points_congr htimeline, htimeline]
    rfl
  constructor
  · apply hrun.tail
    have hpassed := @Step.passed σ ω _
      ⟨a, calls, ticket ::ₘ ((s.points t : Multiset Ticket) + others)⟩
      (a.setTimeline t { a.timeline t with points := (a.timeline t).points ++ [ticket] }) rfl
    have hlast : ((s.points t ++ [ticket] : List Ticket) : Multiset Ticket)
        = ticket ::ₘ (s.points t : Multiset Ticket) :=
      Multiset.coe_eq_coe.mpr (List.perm_append_singleton ..)
    simpa only [sharing, hpoints, Function.update_self, hlast, Multiset.cons_add] using hpassed
  · intro t' ht
    rw [hpoints, Function.update_of_ne ht]

/-- Or it goes back, and is the last point of none. -/
theorem Reaches.returned : Reaches t calls others s (a.release ticket) := by
  have hpoints : (a.release ticket).points = s.points :=
    (points_release ticket a).trans (points_congr htimeline)
  constructor
  · simpa only [sharing, hpoints] using hrun.tail (.released rfl)
  · exact fun t' _ => congrFun hpoints t'

end Taken

/-- **`stream_timeline::record` hands out and gives back by these steps**, each
ticket once. -/
theorem record_reaches (answers : Answers) (stream : σ) (s : Timelines σ ω) :
    wp (Timelines.record answers t stream) (fun _ a => Reaches t calls others s a)
      (fun _ a => Reaches t calls others s a) s := by
  have hdrop : wp (Timelines.dropReachedPoints answers t) (fun _ a => Reaches t calls others s a)
      (fun _ a => Reaches t calls others s a) s := by
    simp only [Timelines.dropReachedPoints, wp_bind, wp_get, wp_ite, wp_pure]
    split
    · exact dropLoop_reaches answers _ s rfl
    · exact .refl s
  simp only [Timelines.record, Timelines.pushPoint, wp_bind, wp_tryCatch, wp_get, wp_pure]
  refine wp_mono hdrop ?_ fun _ _ h => h
  intro _ b hb
  have hrecord := wp_and (recorderRecord_run answers stream (sharing t calls others b))
    (recorderRecord_timeline answers stream b)
  refine wp_mono hrecord ?_ ?_
  · rintro ticket a ⟨hrun, htimeline⟩
    split
    · exact hb.trans (.pushed hrun htimeline)
    · exact hb.trans (.returned hrun htimeline)
  · rintro e a ⟨hrun, htimeline⟩
    have hpoints := points_congr htimeline
    apply hb.trans
    refine ⟨?_, fun t' _ => congrFun hpoints t'⟩
    simpa only [sharing, hpoints] using hrun

theorem foldl_release (points : List Ticket) : ∀ s : Timelines σ ω,
    ReflTransGen Step ⟨s, calls, (points : Multiset Ticket) + others⟩
        ⟨points.foldl (fun s point => s.release point) s, calls, others⟩ ∧
      (points.foldl (fun s point => s.release point) s).timeline = s.timeline := by
  induction points with
  | nil =>
      intro s
      simpa using ReflTransGen.refl
  | cons x points ih =>
      intro s
      obtain ⟨hrest, htimeline⟩ := ih (s.release x)
      have hout : ((x :: points : List Ticket) : Multiset Ticket) + others
          = x ::ₘ ((points : Multiset Ticket) + others) := by
        rw [← Multiset.cons_coe, Multiset.cons_add]
      exact ⟨.head (.released hout) hrest, htimeline.trans Timelines.timeline_release⟩

/-- The destructor gives all points back. -/
theorem destroy_reaches (s : Timelines σ ω) : Reaches t calls others s (s.destroy t) := by
  obtain ⟨hrun, htimeline⟩ := @foldl_release σ ω _ calls others (s.points t) s
  have hpoints : (s.destroy t).points = Function.update s.points t [] := by
    ext1 t'
    by_cases ht : t' = t
    · subst ht
      simp [Timelines.points, Timelines.destroy]
    · simp [Timelines.points, Timelines.destroy, ht]
  constructor
  · apply hrun.tail
    have hpassed := @Step.passed σ ω _
      ⟨(s.points t).foldl (fun s point => s.release point) s, calls, others⟩ (s.destroy t) rfl
    simpa only [sharing, hpoints, Function.update_self, Multiset.coe_nil, Multiset.zero_add]
      using hpassed
  · intro t' ht
    rw [hpoints, Function.update_of_ne ht]

omit [DecidableEq σ] in
/-- What does not change points has none to change. -/
theorem points_setTimeline_same {timeline : StreamTimeline}
    (h : timeline.points = s.points t) : (s.setTimeline t timeline).points = s.points := by
  rw [Timelines.points_setTimeline, h, Function.update_eq_self]

end Timeline

/-- Neither the recorder nor the points have changed. -/
def Aside (s a : Timelines σ ω) : Prop := a.recorder = s.recorder ∧ a.points = s.points

omit [DecidableEq σ] in
theorem beginWait_aside (t : Timeline) (id : Nat) (s : Timelines σ ω) :
    wp (Timelines.beginWait t id) (fun _ a => Aside s a) (fun _ a => Aside s a) s := by
  simp only [Timelines.beginWait, Timelines.getPoint, wp_bind, wp_get]
  split
  · exact ⟨rfl, rfl⟩
  · split
    · exact ⟨rfl, points_setTimeline_same rfl⟩
    · exact ⟨rfl, rfl⟩

theorem enqueueWait_aside (answers : Answers) (waiter : σ) (t : Timeline) (id : Nat)
    (s : Timelines σ ω) : Aside s (Timelines.enqueueWait answers waiter t id s).2 := by
  apply wp_final (P := Aside s)
  simp only [Timelines.enqueueWait, Timelines.getPoint, Timelines.recorderEnqueueWait, wp_bind,
    wp_get]
  split
  · exact ⟨rfl, rfl⟩
  · split
    · split
      · simp only [wp_bind, wp_pure, wp_modify, Timelines.scheduleWait]
        split
        · exact ⟨rfl, rfl⟩
        · exact ⟨rfl, rfl⟩
      · exact ⟨rfl, rfl⟩
    · exact ⟨rfl, rfl⟩

variable {streamOf : Timeline → σ}

/-- **What threads do with the timelines is such steps of the recorder**, for
one timeline at a time. -/
theorem life_reaches (h : Timelines.Life streamOf s a) :
    Aside s a ∨ ∃ t, ∀ calls others, Reaches t calls others s a := by
  cases h with
  | step hstep =>
      cases hstep with
      | @recorded a answers t id returned =>
          refine .inr ⟨t, fun calls others => ?_⟩
          have hrecord := wp_returned (@record_reaches σ ω _ t calls others answers _ s) returned
          exact hrecord.trans (.passed rfl rfl)
      | @recordThrew a answers t e thrown =>
          exact .inr ⟨t, fun calls others => wp_thrown (record_reaches answers _ s) thrown⟩
      | @waitBegan a t id ticket began =>
          have haside := wp_returned (beginWait_aside t id s) began
          exact .inl haside
      | waitCalled has captured => exact .inl ⟨rfl, rfl⟩
      | waitSkipped has nothing => exact .inl ⟨rfl, rfl⟩
      | waitReturned has reached => exact .inl ⟨rfl, rfl⟩
      | waitFailed has inside => exact .inl ⟨rfl, rfl⟩
      | waitEnded has => exact .inl ⟨rfl, points_setTimeline_same rfl⟩
      | @enqueued a answers waiter t id result asked =>
          have haside := enqueueWait_aside answers waiter t id s
          rw [asked] at haside
          exact .inl haside
      | issued stream w => exact .inl ⟨rfl, rfl⟩
      | executed front ready => exact .inl ⟨rfl, rfl⟩
  | destroyed idle => exact .inr ⟨_, fun calls others => destroy_reaches s⟩

/-! ## Whole runs of the timelines -/

/-- The points of some timelines. -/
def pointsOf (s : Timelines σ ω) (ts : List Timeline) : Multiset Ticket :=
  (ts.map fun t => (s.points t : Multiset Ticket)).sum

/-- The timelines share the recorder, and the outstanding tickets are all their
points. -/
structure Shares (s : Timelines σ ω) (r : Recordings σ ω) : Prop where
  base : r.base = s
  calls : r.calls = []
  outstanding : ∃ ts : List Timeline, ts.Nodup ∧ (∀ t ∉ ts, s.points t = []) ∧
    r.outstanding = pointsOf s ts

omit [DecidableEq σ] in
/-- One of the timelines, and the others. -/
theorem pointsOf_erase {ts : List Timeline} (t : Timeline) (hother : ∀ t ∉ ts, s.points t = []) :
    pointsOf s ts = (s.points t : Multiset Ticket) + pointsOf s (ts.erase t) := by
  by_cases ht : t ∈ ts
  · exact (List.sum_map_erase _ ht).symm
  · rw [List.erase_of_not_mem ht, hother t ht, Multiset.coe_nil, Multiset.zero_add]

omit [DecidableEq σ] in
theorem pointsOf_congr {ts : List Timeline} (h : ∀ t ∈ ts, a.points t = s.points t) :
    pointsOf a ts = pointsOf s ts := by
  unfold pointsOf
  rw [List.map_congr_left fun t ht => by rw [h t ht]]

theorem Shares.life (hs : Shares s r) (h : Timelines.Life streamOf s a) :
    ∃ u, ReflTransGen Step r u ∧ Shares a u := by
  obtain ⟨rfl, hcalls, ts, hnd, hother, hout⟩ := hs
  rcases life_reaches h with ⟨hrecorder, hpoints⟩ | ⟨t, hreaches⟩
  · refine ⟨_, .single (.passed hrecorder), rfl, hcalls, ts, hnd, ?_, ?_⟩
    · rw [hpoints]
      exact hother
    · rw [hout]
      exact (pointsOf_congr fun t _ => congrFun hpoints t).symm
  · obtain ⟨hrun, hsame⟩ := hreaches r.calls (pointsOf r.base (ts.erase t))
    rw [sharing, ← pointsOf_erase t hother, ← hout] at hrun
    have hrest : pointsOf a (ts.erase t) = pointsOf r.base (ts.erase t) :=
      pointsOf_congr fun t' ht' => hsame t' fun heq => (hnd.mem_erase_iff.mp ht').1 heq
    refine ⟨_, hrun, rfl, hcalls, t :: ts.erase t, ?_, ?_, ?_⟩
    · exact List.nodup_cons.mpr ⟨hnd.not_mem_erase, hnd.erase t⟩
    · intro t' ht'
      rw [List.mem_cons, not_or] at ht'
      rw [hsame t' ht'.1]
      exact hother t' fun hmem => ht'.2 ((List.mem_erase_of_ne ht'.1).mpr hmem)
    · show (a.points t : Multiset Ticket) + _ = pointsOf a (t :: ts.erase t)
      rw [← hrest]
      rfl

/-- **The timelines give each ticket back once per hand-out**: whatever is done
with them is a run of the recorder, at whose end their points are the tickets
that are outstanding. -/
theorem timelines_run (hrun : ReflTransGen (Timelines.Life streamOf) (.empty : Timelines σ ω) s) :
    ∃ r : Recordings σ ω, ReflTransGen Step .empty r ∧ Shares s r := by
  have hempty : Shares (.empty : Timelines σ ω) (.empty : Recordings σ ω) :=
    ⟨rfl, rfl, [], List.nodup_nil, fun _ _ => rfl, rfl⟩
  exact Runs.Simulates.run (fun _ _ _ hs h => hs.life h) hrun hempty

/-! ## Conservation -/

omit [DecidableEq σ] in
/-- What a call has, and returns if it does, nobody else has. -/
theorem Conserved.call (h : Conserved r) {c : RecordCall σ} (hc : c ∈ r.calls) :
    c.ticket ≠ noTicket ∧ c.ticket ≤ r.base.recorder.events ∧ c.ticket ∉ r.outstanding ∧
      c.ticket ∉ r.base.recorder.available := by
  have hmem : c.ticket ∈ (r.calls.map RecordCall.ticket : Multiset Ticket) :=
    Multiset.mem_coe.mpr (List.mem_map_of_mem hc)
  have hheld : c.ticket ∈ r.held := Multiset.mem_add.mpr (.inl hmem)
  obtain ⟨hpos, hle⟩ := h.mem_iff.mp (.inr hheld)
  obtain ⟨-, hnodup, havailable⟩ := Multiset.nodup_add.mp h.nodup
  obtain ⟨-, -, hcalls⟩ := Multiset.nodup_add.mp hnodup
  refine ⟨Nat.ne_of_gt hpos, hle, fun hout => ?_, fun hin => ?_⟩
  · exact Multiset.disjoint_left.mp hcalls hmem hout
  · exact Multiset.disjoint_left.mp havailable (Multiset.mem_coe.mpr hin) hheld

/-- **Tickets are conserved and giving one back cannot fail**, whatever threads
do in whatever order. Those that are held and those of the pool are the tickets
of the events, each once; the one a call of `record` has found, and returns if
its event captures the stream, is in no other place and has an event; and
whenever one is held, the pool has room for it. -/
theorem tickets_conserved (hrun : ReflTransGen Step (.empty : Recordings σ ω) r) :
    (r.base.recorder.available : Multiset Ticket) + r.held
      = (List.range' 1 r.base.recorder.events : Multiset Ticket) ∧
    ((r.base.recorder.available : Multiset Ticket) + r.held).Nodup ∧
    (∀ c ∈ r.calls, c.ticket ≠ noTicket ∧ c.ticket ≤ r.base.recorder.events ∧
      c.ticket ∉ r.outstanding ∧ c.ticket ∉ r.base.recorder.available) ∧
    r.base.recorder.events ≤ r.base.recorder.reserved ∧
    ∀ ticket ∈ r.held, r.base.recorder.available.length + 1 ≤ r.base.recorder.reserved := by
  have h := Conserved.run hrun
  exact ⟨h.tickets, h.nodup, fun c hc => h.call hc, h.room, fun ticket hheld => h.push hheld⟩

/-- Two threads have a ticket each, the event of the second captures nothing,
and the first has its point. -/
theorem tickets_conserved_pair : ∃ r : Recordings Bool Unit, ReflTransGen Step .empty r ∧
    r.base.recorder.available = [2] ∧ r.outstanding = {1} ∧ r.calls = [] ∧
    r.base.recorder.available.length + 1 ≤ r.base.recorder.reserved := by
  have hrun := ReflTransGen.single (@Step.acquired Bool Unit _ .empty _ .good 1 true rfl)
  have hrun := hrun.tail (@Step.acquired Bool Unit _ _ _ .good 2 false rfl)
  have hrun := hrun.tail (@Step.found Bool Unit _ _ [] _ false 2 rfl)
  have hrun := hrun.tail (@Step.captureThrew Bool Unit _ _ _ [] _
    { Answers.good with captures := false } false 2 .error rfl rfl)
  have hrun := hrun.tail (@Step.gaveBack Bool Unit _ _ [] _ false 2 .error rfl)
  have hrun := hrun.tail (@Step.found Bool Unit _ _ [] _ true 1 rfl)
  have hrun := hrun.tail (@Step.captured Bool Unit _ _ _ [] _ .good true 1 rfl rfl)
  obtain ⟨-, -, -, -, hroom⟩ := tickets_conserved hrun
  exact ⟨_, hrun, rfl, rfl, rfl, hroom 1 (Multiset.mem_singleton_self 1)⟩

end Recordings

end RexlibCuda
