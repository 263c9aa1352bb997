import RexlibCuda.TimelineLocks

/-! Calls that are made where they may be made keep the timelines, the recorder
and the streams in order, whichever thread makes them. -/

namespace RexlibCuda

open Calls Streams

namespace HostState

variable {Θ σ ω : Type} {streamOf : Timeline → σ} {θ : Θ} {s u : HostState Θ σ ω} {t : Timeline}
  {x : Ticket} {o : Owner Θ}

theorem kept_of_ne (h : s.halfway t ≠ .leaving) : s.kept t = s.base.timeline t := if_neg h

theorem kept_of_stays (h : s.halfway t = .nothing) : s.kept t = s.base.timeline t :=
  kept_of_ne (by simp [h])

theorem kept_of_leaving (h : s.halfway t = .leaving) :
    (s.kept t).points = (s.base.timeline t).points.tail ∧
      (s.kept t).firstId = (s.base.timeline t).firstId + 1 := by
  rw [kept, if_pos h]
  exact ⟨rfl, rfl⟩

theorem kept_waiterCount (s : HostState Θ σ ω) (t : Timeline) :
    (s.kept t).waiterCount = (s.base.timeline t).waiterCount := by
  unfold kept
  split <;> rfl

/-- Only its own points matter to a timeline. -/
theorem Orderly.congr (h : s.Orderly streamOf t) (hkept : u.kept t = s.kept t)
    (hgiven : u.base.given t = s.base.given t) (hwaiters : u.waiters t = s.waiters t)
    (hdevice : u.base.device = s.base.device)
    (hcaptured : ∀ x ∈ (s.kept t).points,
      u.base.recorder.captured x = s.base.recorder.captured x)
    (hdistinct : (u.base.timeline t).points.Nodup) : u.Orderly streamOf t where
  numbered := by
    rw [hkept, hgiven, hdevice]
    exact h.numbered.recapture hcaptured
  distinct := hdistinct
  counted := by rw [hkept, hwaiters]; exact h.counted
  apart := by rw [hwaiters]; exact h.apart
  waiting w hw := by
    rw [hkept]
    exact h.waiting w (hwaiters ▸ hw)

/-- The oldest point may go once it is reached, where nobody waits. -/
theorem Orderly.drop (h : s.Orderly streamOf t) {rest : List Ticket}
    (hpoints : (s.kept t).points = x :: rest)
    (hkept : u.kept t = { s.kept t with points := rest, firstId := (s.kept t).firstId + 1 })
    (hgiven : u.base.given t = s.base.given t) (hdevice : u.base.device = s.base.device)
    (hcaptured : u.base.recorder.captured = s.base.recorder.captured)
    (hreached : ∀ p, s.base.recorder.captured x = some p → s.base.device.Reached p)
    (hwaiters : u.waiters t = s.waiters t) (hnobody : s.waiters t = [])
    (hdistinct : (u.base.timeline t).points.Nodup) : u.Orderly streamOf t where
  numbered := by
    rw [hkept, hgiven, hdevice, hcaptured]
    exact h.numbered.drop hpoints hreached
  distinct := hdistinct
  counted := by
    rw [hkept, hwaiters]
    exact h.counted
  apart := by rw [hwaiters]; exact h.apart
  waiting w hw := by
    rw [hwaiters, hnobody] at hw
    cases hw

theorem Tallied.congr (h : s.Tallied t) (htold : u.told t = s.told t)
    (hreturned : u.base.returned t = s.base.returned t) (hgiven : u.base.given t = s.base.given t)
    (hdue : u.due t = s.due t) : u.Tallied t where
  ids := by rw [htold, hreturned]; exact h.ids
  inOrder := by rw [hreturned]; exact h.inOrder
  given := by rw [hgiven, hreturned, hdue]; exact h.given

theorem due_congr (h : u.halfway t = s.halfway t) : u.due t = s.due t := by rw [due, due, h]

theorem Orderly.kept_distinct (h : s.Orderly streamOf t) : (s.kept t).points.Nodup := by
  unfold kept
  split
  · exact h.distinct.sublist (List.tail_sublist _)
  · exact h.distinct

/-- What is there stands for its id, but for what is about to leave. -/
theorem Orderly.stands (h : s.Orderly streamOf t)
    (hlocked : s.halfway t ≠ .nothing → s.holder (.timeline t) ≠ none) {i : Nat}
    (hx : (s.base.timeline t).points[i]? = some x) : s.Leaves t x ∨ ∃ p,
      s.base.recorder.captured x = some p ∧
        (s.base.given t)[(s.base.timeline t).firstId + i]? = some p := by
  have hstands := h.numbered.stands
  by_cases hleaving : s.halfway t = .leaving
  · obtain ⟨hpoints, hfirst⟩ := kept_of_leaving hleaving
    rw [hpoints, hfirst] at hstands
    cases i with
    | zero => exact .inl ⟨hleaving, by rw [List.head?_eq_getElem?, hx], hlocked (by simp [hleaving])⟩
    | succ i =>
        obtain ⟨p, hp, hcaptured⟩ := hstands i x (by rw [List.getElem?_tail]; exact hx)
        rw [Nat.add_right_comm, Nat.add_assoc] at hp
        exact .inr ⟨p, hcaptured, hp⟩
  · rw [kept_of_ne hleaving] at hstands
    obtain ⟨p, hp, hcaptured⟩ := hstands i x hx
    exact .inr ⟨p, hcaptured, hp⟩

/-- No id is told twice. -/
theorem Tallied.once (h : s.Tallied t) : ((s.told t).map Prod.snd).Nodup := by
  rw [h.ids, h.inOrder]
  exact List.nodup_range

/-! ## Where the tickets are -/

theorem Placed.congr (h : s.Placed) (howner : u.owner = s.owner)
    (havailable : u.base.recorder.available = s.base.recorder.available)
    (hpoints : ∀ t, (u.kept t).points = (s.kept t).points)
    (hevents : u.base.recorder.events = s.base.recorder.events) : u.Placed where
  pool x := by rw [havailable, howner]; exact h.pool x
  points t x := by rw [hpoints, howner]; exact h.points t x
  made x := by rw [hevents, howner]; exact h.made x

/-- One ticket goes from its owner to another. -/
theorem Placed.move (h : s.Placed) (howner : u.owner = Function.update s.owner x o)
    (hpool : ∀ y, y ∈ u.base.recorder.available ↔
      if y = x then o = .pool else y ∈ s.base.recorder.available)
    (hpoints : ∀ t y, y ∈ (u.kept t).points ↔
      if y = x then o = .timeline t else y ∈ (s.kept t).points)
    (hmade : ∀ y, 0 < y ∧ y ≤ u.base.recorder.events ↔
      if y = x then o ≠ .nobody else 0 < y ∧ y ≤ s.base.recorder.events) : u.Placed where
  pool y := by
    rw [hpool, howner]
    by_cases heq : y = x
    · simp [heq]
    · simp [heq, h.pool]
  points t y := by
    rw [hpoints, howner]
    by_cases heq : y = x
    · simp [heq]
    · simp [heq, h.points]
  made y := by
    rw [hmade, howner]
    by_cases heq : y = x
    · simp [heq]
    · simp [heq, h.made]

/-- Who has a ticket alone has it. -/
theorem Placed.hand (h : s.Placed) (hx : s.owner x = .hand θ) : (∀ t, x ∉ (s.kept t).points) ∧
    x ∉ s.base.recorder.available ∧ 0 < x ∧ x ≤ s.base.recorder.events := by
  refine ⟨fun t hmem => ?_, fun hmem => ?_, (h.made x).mpr (by simp [hx])⟩
  · have howner := (h.points t x).mp hmem
    simp [hx] at howner
  · have howner := (h.pool x).mp hmem
    simp [hx] at howner

/-- Nobody has the ticket of the next event. -/
theorem Placed.next (h : s.Placed) : s.owner (s.base.recorder.events + 1) = .nobody := by
  by_contra hother
  exact absurd ((h.made _).mpr hother).2 (Nat.not_succ_le_self _)

theorem Placed.point (h : s.Placed) (hx : x ∈ (s.kept t).points) :
    s.owner x = .timeline t ∧ x ∉ s.base.recorder.available ∧
      0 < x ∧ x ≤ s.base.recorder.events := by
  have howner := (h.points t x).mp hx
  refine ⟨howner, fun hmem => ?_, (h.made x).mpr (by simp [howner])⟩
  have hother := (h.pool x).mp hmem
  simp [howner] at hother

/-! ## The front goes back -/

theorem giveFront_kept_ne {t' : Timeline} (hne : t' ≠ t) :
    (s.giveBack x (some t)).kept t' = s.kept t' := by
  simp [kept, giveBack, setOwner, Ne.symm hne]

theorem giveFront_kept_self (hstays : s.halfway t = .nothing) {rest : List Ticket}
    (hpoints : (s.kept t).points = x :: rest) : (s.giveBack x (some t)).kept t =
      { s.kept t with points := rest, firstId := (s.kept t).firstId + 1 } := by
  rw [kept_of_stays hstays] at hpoints
  simp [kept, giveBack, setOwner, hpoints, hstays]

/-! ## A point joins -/

theorem push_kept_ne {t' : Timeline} (hne : t' ≠ t) : (s.push t x).kept t' = s.kept t' := by
  simp [kept, HostState.push, setOwner, hne]

theorem push_kept_self (hstays : s.halfway t = .nothing) :
    (s.push t x).kept t = { s.kept t with points := (s.kept t).points ++ [x] } := by
  simp [kept, HostState.push, setOwner, hstays]

theorem push_given_self {p : Point σ} (hcaptured : s.base.recorder.captured x = some p) :
    (s.push t x).base.given t = s.base.given t ++ [p] := by
  simp [HostState.push, setOwner, hcaptured]

theorem Orderly.push (h : s.Orderly streamOf t) (hstays : s.halfway t = .nothing)
    (hout : x ∉ (s.kept t).points) {p : Point σ}
    (hcaptured : s.base.recorder.captured x = some p) (hp : p.stream = streamOf t)
    (hissued : s.base.device.Captured p s.base.device.issued) :
    (s.push t x).Orderly streamOf t where
  numbered := by
    rw [push_kept_self hstays, push_given_self hcaptured]
    exact h.numbered.push hcaptured hp hissued
  distinct := by
    have hfields : ((s.push t x).base.timeline t).points = (s.base.timeline t).points ++ [x] := by
      simp [HostState.push, setOwner]
    rw [kept_of_stays hstays] at hout
    rw [hfields]
    refine List.nodup_append.mpr ⟨h.distinct, List.nodup_singleton x, ?_⟩
    intro y hy z hz hyz
    rw [List.mem_singleton.mp hz] at hyz
    exact hout (hyz ▸ hy)
  counted := by
    rw [push_kept_self hstays]
    exact h.counted
  apart := h.apart
  waiting w hw := by
    rw [push_kept_self hstays]
    obtain ⟨hle, hat⟩ := h.waiting w hw
    refine ⟨hle, ?_⟩
    rw [List.getElem?_append_left (List.getElem?_eq_some_iff.mp hat).1]
    exact hat

/-- Nobody has been told its id yet. -/
theorem Tallied.push (h : s.Tallied t) (hstays : s.halfway t = .nothing) {p : Point σ}
    (hcaptured : s.base.recorder.captured x = some p) : (s.push t x).Tallied t where
  ids := h.ids
  inOrder := h.inOrder
  given := by
    have hlength := h.given
    rw [push_given_self hcaptured, List.length_append, hlength]
    simp [due, HostState.push, setOwner, hstays, Timelines.setTimeline]

/-- Its ticket goes from the hand of the thread to the timeline. -/
theorem Placed.push (h : s.Placed) (hstays : s.halfway t = .nothing) (hx : s.owner x = .hand θ) :
    (s.push t x).Placed := by
  obtain ⟨hout, hpool, hmade⟩ := h.hand hx
  refine h.move rfl ?_ ?_ ?_
  · intro y
    show y ∈ s.base.recorder.available ↔ _
    by_cases hy : y = x
    · simp [hy, hpool]
    · simp [hy]
  · intro t' y
    by_cases heq : t' = t
    · subst heq
      by_cases hy : y = x
      · simp [push_kept_self hstays, hy]
      · simp [push_kept_self hstays, hy]
    · rw [push_kept_ne heq]
      by_cases hy : y = x
      · simp [hy, hout, Ne.symm heq]
      · simp [hy]
  · intro y
    show 0 < y ∧ y ≤ s.base.recorder.events ↔ _
    by_cases hy : y = x
    · simpa [hy] using hmade
    · simp [hy]

section Coherent

variable (hs : s.Coherent streamOf)

include hs

/-- The id of the last point, before it is told. -/
theorem Coherent.lastId_eq (htelling : s.halfway t = .telling) :
    s.lastId t = (s.base.returned t).length := by
  have hlength := (hs.timelines t).numbered.length
  have hgiven := (hs.tallied t).given
  rw [kept_of_ne (by simp [htelling])] at hlength
  rw [due, if_pos htelling] at hgiven
  rw [lastId]
  omega

theorem Coherent.setDevice [DecidableEq σ] {d : Device σ ω} (hstep : Streams.Step s.base.device d) :
    (s.setDevice d).Coherent streamOf where
  device := hs.device.step hstep
  within := by
    obtain ⟨streams, hwithin⟩ := hs.within
    exact hwithin.step hstep
  captured x p hx := (hs.captured x p hx).step hstep
  timelines t := { hs.timelines t with numbered := (hs.timelines t).numbered.step hstep }
  once := hs.once
  room := hs.room
  placed := hs.placed.congr rfl rfl (fun _ => rfl) rfl
  tallied t := (hs.tallied t).congr rfl rfl rfl rfl
  locked := hs.locked
  waits := hs.waits

theorem Coherent.setHolder {m : Mutex} {o : Option Θ}
    (h : ∀ t, m = .timeline t → s.halfway t ≠ .nothing → o ≠ none) :
    (s.setHolder m o).Coherent streamOf where
  device := hs.device
  within := hs.within
  captured := hs.captured
  timelines t := (hs.timelines t).congr rfl rfl rfl rfl (fun _ _ => rfl) (hs.timelines t).distinct
  once := hs.once
  room := hs.room
  placed := hs.placed.congr rfl rfl (fun _ => rfl) rfl
  tallied t := (hs.tallied t).congr rfl rfl rfl rfl
  locked := by
    intro t hhalfway
    show Function.update s.holder m o (.timeline t) ≠ none
    by_cases heq : Mutex.timeline t = m
    · subst heq
      simpa using h t rfl hhalfway
    · simpa [heq] using hs.locked t hhalfway
  waits := hs.waits

/-- What the recorder has, once one ticket has gone to another owner. -/
structure Regiven (s : HostState Θ σ ω) (x : Ticket) (o : Owner Θ) (r : PooledEventRecorder σ) :
    Prop where
  captured : r.captured = s.base.recorder.captured
  once : r.available.Nodup
  room : r.events ≤ r.reserved
  pool : ∀ y, y ∈ r.available ↔ if y = x then o = .pool else y ∈ s.base.recorder.available
  made : ∀ y, 0 < y ∧ y ≤ r.events ↔
    if y = x then o ≠ .nobody else 0 < y ∧ y ≤ s.base.recorder.events

theorem Coherent.regive {r : PooledEventRecorder σ} (hr : s.Regiven x o r)
    (hbase : u.base = { s.base with recorder := r })
    (howner : u.owner = Function.update s.owner x o)
    (hpoints : ∀ t y, y ∈ (u.kept t).points ↔
      if y = x then o = .timeline t else y ∈ (s.kept t).points)
    (htimelines : ∀ t, u.Orderly streamOf t) (htold : u.told = s.told)
    (hdue : ∀ t, u.due t = s.due t)
    (hlocked : ∀ t, u.halfway t ≠ .nothing → u.holder (.timeline t) ≠ none) :
    u.Coherent streamOf where
  device := by rw [hbase]; exact hs.device
  within := by rw [hbase]; exact hs.within
  captured := by rw [hbase]; simpa [hr.captured] using hs.captured
  timelines := htimelines
  once := by rw [hbase]; exact hr.once
  room := by rw [hbase]; exact hr.room
  placed := hs.placed.move howner (by simpa [hbase] using hr.pool) hpoints
    (by simpa [hbase] using hr.made)
  tallied t := (hs.tallied t).congr (by rw [htold]) (by rw [hbase]) (by rw [hbase]) (hdue t)
  locked := hlocked
  waits := by rw [hbase]; exact hs.waits

/-- No timeline gives or gets the ticket. -/
theorem Coherent.repool {r : PooledEventRecorder σ} (hr : s.Regiven x o r)
    (hbase : u.base = { s.base with recorder := r })
    (howner : u.owner = Function.update s.owner x o) (hhalfway : u.halfway = s.halfway)
    (htold : u.told = s.told) (hholder : u.holder = s.holder) (hwaiters : u.waiters = s.waiters)
    (hin : ∀ t, x ∉ (s.kept t).points) (hout : ∀ t, o ≠ .timeline t) : u.Coherent streamOf := by
  have hkept : ∀ t, u.kept t = s.kept t := by
    intro t
    simp [kept, hbase, hhalfway]
  refine hs.regive hr hbase howner ?_ ?_ htold (fun t => due_congr (by rw [hhalfway])) ?_
  · intro t y
    rw [hkept]
    by_cases heq : y = x
    · simp [heq, hin, hout]
    · simp [heq]
  · intro t
    refine (hs.timelines t).congr (hkept t) (by rw [hbase]) (by rw [hwaiters]) (by rw [hbase])
      (fun y _ => ?_) ?_
    · rw [hbase]
      exact congrFun hr.captured y
    · rw [hbase]
      exact (hs.timelines t).distinct
  · intro t
    rw [hhalfway, hholder]
    exact hs.locked t

theorem Coherent.take (θ : Θ) : (s.take θ).Coherent streamOf := by
  unfold HostState.take
  split
  · exact hs
  · rename_i x available heq
    have honce := List.nodup_cons.mp (heq ▸ hs.once)
    have howner := (hs.placed.pool x).mp (by simp [heq])
    have hgiven : s.Regiven x (.hand θ) { s.base.recorder with available } := by
      refine ⟨rfl, honce.2, hs.room, fun y => ?_, fun y => ?_⟩
      · by_cases hy : y = x
        · simp [hy, honce.1]
        · simp [hy, heq]
      · by_cases hy : y = x
        · simpa [hy] using (hs.placed.made x).mpr (by simp [howner])
        · simp [hy]
    refine hs.repool hgiven rfl rfl rfl rfl rfl rfl ?_ (by simp)
    intro t hmem
    have hother := (hs.placed.points t x).mp hmem
    simp [howner] at hother

/-- Room may be reserved. -/
theorem Coherent.reserve : s.reserve.Coherent streamOf where
  device := hs.device
  within := hs.within
  captured := hs.captured
  timelines t := (hs.timelines t).congr rfl rfl rfl rfl (fun _ _ => rfl) (hs.timelines t).distinct
  once := hs.once
  room := Nat.le_trans hs.room (Nat.le_max_left ..)
  placed := hs.placed.congr rfl rfl (fun _ => rfl) rfl
  tallied t := (hs.tallied t).congr rfl rfl rfl rfl
  locked := hs.locked
  waits := hs.waits

theorem Coherent.addEvent (θ : Θ) (hroom : s.base.recorder.events < s.base.recorder.reserved) :
    (s.addEvent θ).Coherent streamOf := by
  have hnobody := hs.placed.next
  have hgiven : s.Regiven (s.base.recorder.events + 1) (.hand θ)
      { s.base.recorder with events := s.base.recorder.events + 1 } := by
    refine ⟨rfl, hs.once, hroom, fun y => ?_, fun y => ?_⟩
    · by_cases hy : y = s.base.recorder.events + 1
      · simp [hy, hs.placed.pool, hnobody]
      · simp [hy]
    · by_cases hy : y = s.base.recorder.events + 1
      · simp [hy]
      · simp only [hy, if_false]
        have hlt : y ≤ s.base.recorder.events + 1 ↔ y ≤ s.base.recorder.events := by omega
        rw [hlt]
  refine hs.repool hgiven rfl rfl rfl rfl rfl rfl ?_ (by simp)
  intro t hmem
  have howner := (hs.placed.points t _).mp hmem
  simp [hnobody] at howner

/-- A ticket that goes to the pool is not there. -/
theorem Coherent.regiven_pool (hmade : 0 < x ∧ x ≤ s.base.recorder.events)
    (hpool : x ∉ s.base.recorder.available) :
    s.Regiven x .pool { s.base.recorder with available := x :: s.base.recorder.available } := by
  refine ⟨rfl, List.nodup_cons.mpr ⟨hpool, hs.once⟩, hs.room, fun y => ?_, fun y => ?_⟩
  · by_cases hy : y = x
    · simp [hy]
    · simp [hy]
  · by_cases hy : y = x
    · simpa [hy] using hmade
    · simp [hy]

theorem Coherent.giveHand (h : s.owner x = .hand θ) : (s.giveBack x none).Coherent streamOf := by
  obtain ⟨hpoints, hpool, hmade⟩ := hs.placed.hand h
  exact hs.repool (hs.regiven_pool hmade hpool) (Timelines.release_eq hmade.1) rfl
    (by simp [giveBack, setOwner]) rfl rfl rfl hpoints (by simp)

/-- The front of a timeline goes back to the pool once nobody needs it. -/
theorem Coherent.giveFront (hmutex : s.holder (.timeline t) ≠ none)
    (hstays : s.halfway t = .nothing)
    (hwaiters : s.waiters t = []) (hfront : (s.base.timeline t).points.head? = some x)
    (hreached : ∀ p, s.base.recorder.captured x = some p → s.base.device.Reached p) :
    (s.giveBack x (some t)).Coherent streamOf := by
  obtain ⟨rest, hpoints⟩ : ∃ rest, (s.kept t).points = x :: rest := by
    rw [kept_of_stays hstays]
    exact ⟨_, List.eq_cons_of_mem_head? hfront⟩
  have hmem : x ∈ (s.kept t).points := hpoints ▸ List.mem_cons_self
  obtain ⟨howner, hpool, hmade⟩ := hs.placed.point hmem
  have honce := (List.nodup_cons.mp (hpoints ▸ (hs.timelines t).kept_distinct)).1
  have hbase : (s.giveBack x (some t)).base = { s.base with
      recorder := { s.base.recorder with available := x :: s.base.recorder.available } } :=
    Timelines.release_eq hmade.1
  have hkept := giveFront_kept_self hstays hpoints
  have hfields : ∀ t', ((s.giveBack x (some t)).base.timeline t').points.Nodup := fun t' => by
    rw [hbase]
    exact (hs.timelines t').distinct
  refine hs.regive (hs.regiven_pool hmade hpool) hbase rfl ?_ ?_ rfl ?_ ?_
  · intro t' y
    by_cases heq : t' = t
    · subst heq
      by_cases hy : y = x
      · simp [hkept, hy, honce]
      · simp [hkept, hpoints, hy]
    · rw [giveFront_kept_ne heq]
      by_cases hy : y = x
      · simp [hy, hs.placed.points, howner, Ne.symm heq]
      · simp [hy]
  · intro t'
    by_cases heq : t' = t
    · subst heq
      exact (hs.timelines t').drop hpoints hkept (by rw [hbase]) (by rw [hbase]) (by rw [hbase])
        hreached rfl hwaiters (hfields t')
    · refine (hs.timelines t').congr (giveFront_kept_ne heq) (by rw [hbase]) rfl (by rw [hbase]) ?_
        (hfields t')
      exact fun _ _ => by rw [hbase]
  · intro t'
    by_cases heq : t' = t
    · subst heq
      simp [due, giveBack, setOwner, hstays]
    · exact due_congr (by simp [giveBack, setOwner, Ne.symm heq])
  · intro t' hhalfway
    by_cases heq : t' = t
    · exact heq ▸ hmutex
    · exact hs.locked t' (by simpa [giveBack, setOwner, Ne.symm heq] using hhalfway)

/-- An event whose ticket is in somebody's hand captures the end of a stream. -/
theorem Coherent.capture [DecidableEq σ] (h : s.owner x = .hand θ) (stream : σ) :
    ({ s with base := s.base.capture stream x } : HostState Θ σ ω).Coherent streamOf := by
  have hstep : Streams.Step s.base.device (s.base.device.issue stream .capture) :=
    .issued fun p hp => by cases hp
  have hnext := hs.setDevice hstep
  refine ⟨hnext.device, hnext.within, ?_, ?_, hs.once, hs.room,
    hs.placed.congr rfl rfl (fun _ => rfl) rfl, fun t => (hs.tallied t).congr rfl rfl rfl rfl,
    hs.locked, hs.waits⟩
  · intro y p hy
    by_cases heq : y = x
    · subst heq
      have hlast : some (s.base.device.last stream) = some p := by
        simpa [Timelines.capture] using hy
      cases hlast
      exact Device.captured_issue
    · exact hnext.captured y p (by simpa [Timelines.capture, HostState.setDevice, heq] using hy)
  · intro t
    refine (hnext.timelines t).congr rfl rfl rfl rfl (fun y hy => ?_) (hs.timelines t).distinct
    have hne : y ≠ x := fun heq => (hs.placed.hand h).1 t (heq ▸ hy)
    exact Function.update_of_ne hne ..

/-- A new point stands for the next id. -/
theorem Coherent.push (hmutex : s.holder (.timeline t) ≠ none) (hstays : s.halfway t = .nothing)
    (h : s.owner x = .hand θ) {p : Point σ}
    (hcaptured : s.base.recorder.captured x = some p) (hp : p.stream = streamOf t) :
    (s.push t x).Coherent streamOf := by
  refine ⟨hs.device, hs.within, hs.captured, ?_, hs.once, hs.room, hs.placed.push hstays h, ?_, ?_,
    hs.waits⟩
  · intro t'
    by_cases heq : t' = t
    · subst heq
      exact (hs.timelines t').push hstays ((hs.placed.hand h).1 t') hcaptured hp
        (hs.captured x p hcaptured)
    · refine (hs.timelines t').congr (push_kept_ne heq) (Function.update_of_ne heq ..) rfl rfl
        (fun _ _ => rfl) ?_
      simpa [HostState.push, setOwner, heq] using (hs.timelines t').distinct
  · intro t'
    by_cases heq : t' = t
    · subst heq
      exact (hs.tallied t').push hstays hcaptured
    · refine (hs.tallied t').congr rfl rfl (Function.update_of_ne heq ..) (due_congr ?_)
      exact Function.update_of_ne heq ..
  · intro t' hhalfway
    by_cases heq : t' = t
    · exact heq ▸ hmutex
    · exact hs.locked t' (by simpa [HostState.push, setOwner, heq] using hhalfway)

/-- The point that is about to leave leaves. -/
theorem Coherent.pop (hleaves : s.halfway t = .leaving) : (s.pop t).Coherent streamOf := by
  have hkept : ∀ t', (s.pop t).kept t' = s.kept t' := by
    intro t'
    by_cases heq : t' = t
    · subst heq
      simp [kept, HostState.pop, hleaves]
    · simp [kept, HostState.pop, heq]
  refine ⟨hs.device, hs.within, hs.captured, ?_, hs.once, hs.room, ?_, ?_, ?_, hs.waits⟩
  · intro t'
    refine (hs.timelines t').congr (hkept t') rfl rfl rfl (fun _ _ => rfl) ?_
    by_cases heq : t' = t
    · subst heq
      simpa [HostState.pop] using (hs.timelines t').distinct.sublist (List.tail_sublist _)
    · simpa [HostState.pop, heq] using (hs.timelines t').distinct
  · exact hs.placed.congr rfl rfl (fun t' => by rw [hkept]) rfl
  · intro t'
    refine (hs.tallied t').congr rfl rfl rfl ?_
    by_cases heq : t' = t
    · subst heq
      simp [due, HostState.pop, hleaves]
    · exact due_congr (by simp [HostState.pop, heq])
  · intro t' hhalfway
    refine hs.locked t' ?_
    by_cases heq : t' = t
    · simp [heq, hleaves]
    · simpa [HostState.pop, heq] using hhalfway

/-- The id of the point that has joined is told. -/
theorem Coherent.tell (htelling : s.halfway t = .telling) : (s.tell θ t).Coherent streamOf := by
  have hkept : ∀ t', (s.tell θ t).kept t' = s.kept t' := by
    intro t'
    by_cases heq : t' = t
    · subst heq
      simp [kept, HostState.tell, htelling]
    · simp [kept, HostState.tell, heq]
  have hid := hs.lastId_eq htelling
  refine ⟨hs.device, hs.within, hs.captured, ?_, hs.once, hs.room, ?_, ?_, ?_, hs.waits⟩
  · exact fun t' => (hs.timelines t').congr (hkept t') rfl rfl rfl (fun _ _ => rfl)
      (hs.timelines t').distinct
  · exact hs.placed.congr rfl rfl (fun t' => by rw [hkept]) rfl
  · intro t'
    by_cases heq : t' = t
    · subst heq
      have htallied := hs.tallied t'
      have hreturned : (s.tell θ t').base.returned t' = s.base.returned t' ++ [s.lastId t'] := by
        simp [HostState.tell]
      refine ⟨?_, ?_, ?_⟩
      · rw [hreturned, ← htallied.ids]
        simp [HostState.tell]
      · rw [hreturned, List.length_append, List.length_singleton, List.range_succ,
          ← htallied.inOrder, hid]
      · have hgiven := htallied.given
        rw [hreturned, List.length_append, List.length_singleton]
        simpa [due, HostState.tell, htelling] using hgiven
    · exact (hs.tallied t').congr (Function.update_of_ne heq ..) (Function.update_of_ne heq ..) rfl
        (due_congr (Function.update_of_ne heq ..))
  · intro t' hhalfway
    refine hs.locked t' ?_
    by_cases heq : t' = t
    · simp [heq, htelling]
    · simpa [HostState.tell, heq] using hhalfway

/-- Only the waiters of one timeline change. -/
theorem Coherent.waiters {count : Nat} {ws : List (Θ × Nat × Ticket)}
    (hstays : s.halfway t = .nothing) (hcount : count = ws.length)
    (hapart : (ws.map Prod.fst).Nodup)
    (hwaiting : ∀ w ∈ ws, (s.kept t).firstId ≤ w.2.1 ∧
      (s.kept t).points[w.2.1 - (s.kept t).firstId]? = some w.2.2) :
    ({ s with
      base := s.base.setTimeline t { s.base.timeline t with waiterCount := count }
      waiters := Function.update s.waiters t ws } : HostState Θ σ ω).Coherent streamOf := by
  refine ⟨hs.device, hs.within, hs.captured, ?_, hs.once, hs.room, ?_,
    fun t' => (hs.tallied t').congr rfl rfl rfl rfl, hs.locked, hs.waits⟩
  · intro t'
    by_cases heq : t' = t
    · subst heq
      have horderly := hs.timelines t'
      have hbefore := kept_of_stays hstays
      rw [hbefore] at hwaiting
      refine ⟨?_, ?_, ?_, ?_, ?_⟩
      · have hnumbered := horderly.numbered.waiters count
        rw [hbefore] at hnumbered
        simpa [kept, hstays, Timelines.setTimeline] using hnumbered
      · simpa using horderly.distinct
      · simpa [kept, hstays] using hcount
      · simpa using hapart
      · simpa [kept, hstays] using hwaiting
    · refine (hs.timelines t').congr ?_ rfl (Function.update_of_ne heq ..) rfl (fun _ _ => rfl) ?_
      · simp [kept, heq]
      · simpa [heq] using (hs.timelines t').distinct
  · refine hs.placed.congr rfl rfl (fun t' => ?_) rfl
    by_cases heq : t' = t
    · subst heq
      simp [kept, hstays]
    · simp [kept, heq]

/-- **A call that is made where it may be made keeps the objects in order.** -/
theorem Does.coherent [DecidableEq Θ] [DecidableEq σ] {c : HostCall σ ω}
    (hdemands : s.Demands streamOf θ c) {a : c.Answer} (h : Does θ s c a u) :
    u.Coherent streamOf := by
  cases h with
  | locked free => exact hs.setHolder fun _ _ _ => by simp
  | unlocked =>
      refine hs.setHolder fun t heq hhalfway => ?_
      simp [hdemands.2 t heq] at hhalfway
  | taken => exact hs.take θ
  | roomReserved => exact hs.reserve
  | eventAdded => exact hs.addEvent θ hdemands.2
  | @gaveBack x dropped =>
      cases dropped with
      | none => exact hs.giveHand hdemands.2
      | some t =>
          obtain ⟨-, hmutex, hstays, hwaiters, hfront, hreached⟩ := hdemands
          exact hs.giveFront (by simp [hmutex]) hstays hwaiters hfront hreached
  | recorded => exact hs.capture hdemands _
  | @scheduled waiter x =>
      unfold Timelines.scheduleWait
      split
      · rename_i p hp
        refine hs.setDevice (.issued ?_)
        rintro q ⟨⟩
        exact hs.captured x p hp
      · exact hs
  | issued => exact hs.setDevice (.issued fun p hp => by cases hp)
  | pushed =>
      obtain ⟨hmutex, hstays, hown, p, hcaptured, hp⟩ := hdemands
      exact hs.push (by simp [hmutex]) hstays hown hcaptured hp
  | popped => exact hs.pop hdemands.2
  | toldId => exact hs.tell hdemands.2
  | @waiterAdded t id x =>
      obtain ⟨-, hstays, haway, hle, hat⟩ := hdemands
      have horderly := hs.timelines t
      rw [HostState.addWaiter]
      refine hs.waiters hstays ?_ ?_ ?_
      · have hcounted := horderly.counted
        rw [kept_of_stays hstays] at hcounted
        simp [hcounted]
      · refine List.nodup_cons.mpr ⟨fun hmem => ?_, horderly.apart⟩
        obtain ⟨w, hw, hwθ⟩ := List.mem_map.mp hmem
        exact haway w hw hwθ
      · intro w hw
        rcases List.mem_cons.mp hw with rfl | hw
        · rw [kept_of_stays hstays]
          exact ⟨hle, hat⟩
        · exact horderly.waiting w hw
  | @waiterRemoved t id x =>
      obtain ⟨-, hstays, hmem, -⟩ := hdemands
      have horderly := hs.timelines t
      rw [HostState.removeWaiter]
      refine hs.waiters hstays ?_ (horderly.apart.sublist (List.erase_sublist.map _)) ?_
      · have hcounted := horderly.counted
        rw [kept_of_stays hstays] at hcounted
        rw [hcounted, List.length_erase_of_mem hmem]
      · exact fun w hw => horderly.waiting w (List.mem_of_mem_erase hw)
  | _ => exact hs

end Coherent

/-- **The threads and their streams**: what their calls do, and what each thread
may count on while it makes its own. -/
def system (Θ : Type) [DecidableEq Θ] [DecidableEq σ] (streamOf : Timeline → σ) :
    System Θ (HostCall σ ω) HostCall.Answer (HostState Θ σ ω) where
  does := Does
  inv := Coherent streamOf
  rely θ s u := s.Evolves u ∧ s.SameOwn θ u
  demands θ c s := s.Demands streamOf θ c
  moves := Moves
  refl θ s := ⟨.refl s, .refl θ s⟩
  trans h h' := ⟨h.1.trans h'.1, h.2.trans h'.2⟩
  keeps hs hdemands h := h.coherent hs hdemands
  others hne hs hdemands h := ⟨h.evolves, h.sameOwn hs hdemands hne⟩
  keepsMoved hs h := by
    obtain ⟨d, hexecutes, rfl⟩ := h
    exact hs.setDevice hexecutes.step
  moved h := by
    obtain ⟨d, ⟨stream, op, stamp, -, -, rfl⟩, rfl⟩ := h
    exact ⟨.execute rfl rfl rfl, .setBase (fun _ _ => rfl) rfl rfl fun _ => ⟨rfl, rfl⟩⟩

end HostState

end RexlibCuda
