import RexlibCuda.TimelineOrder
import RexlibCuda.TimelineSpecs

/-! What timelines answer to any number of threads that use them at the same
time, and that no two of them are at the same fields. -/

namespace RexlibCuda

open Calls Streams

open Relation (ReflTransGen)

namespace HostState

variable {Θ σ ω : Type} {streamOf : Timeline → σ} {θ : Θ} {s u before : HostState Θ σ ω}

/-! ## What an operation answers -/

/-- **What is right to answer** to an operation that begins at `before` and ends here. -/
def Right (streamOf : Timeline → σ) (θ : Θ) (before : HostState Θ σ ω) :
    HostOperation σ ω → Except Exn HostOutcome → HostState Θ σ ω → Prop
  | .record t, .ok (.gave id), s => Gave streamOf θ before t id s
  | .isComplete t id, .ok (.complete complete), s =>
      Of t id (fun p => Tells before p complete) s
  | .wait t id, .ok .done, s => Of t id (fun p s => s.base.device.Reached p) s
  | .enqueueWait waiter t id, .ok .done, s => Of t id (Scheduled before waiter) s
  | .isComplete t id, .error e, _ | .wait t id, .error e, _ | .enqueueWait _ t id, .error e, _ =>
      Refused before t id e
  | .record _, .error _, _ | .issue _ _, .ok .done, _ | .recordUse _, .ok .done, _
  | .recordUse _, .error _, _ => True
  | _, _, _ => False

/-- What is right of the time since later is right of the time since earlier. -/
theorem Right.mono {operation : HostOperation σ ω} {outcome : Except Exn HostOutcome}
    (h : Right streamOf θ u operation outcome s) (hu : before.Evolves u) :
    Right streamOf θ before operation outcome s := by
  have hrefused : ∀ t id e, Refused u t id e → Refused before t id e :=
    fun t id e hrefused he => Nat.le_trans (hu.given t).length_le (hrefused he)
  cases operation <;> rcases outcome with e | (id | complete | _)
  case record.ok.gave t =>
      obtain ⟨hfresh, htold, p, hp, hstream, hposition⟩ := h
      exact ⟨Nat.le_trans (hu.given t).length_le hfresh, htold, p, hp, hstream,
        Nat.le_trans (hu.ops _).length_le hposition⟩
  case isComplete.ok.complete t id =>
      obtain ⟨p, hp, htells⟩ := h
      exact ⟨p, hp, htells.reached, fun hnot hp => htells.ahead hnot (hu.reached p hp)⟩
  case enqueueWait.ok.done waiter t id =>
      obtain ⟨p, hp, hreached | ⟨i, stamp, hle, hat⟩⟩ := h
      · exact ⟨p, hp, .inl hreached⟩
      · exact ⟨p, hp, .inr ⟨i, stamp, Nat.le_trans (hu.ops waiter).length_le hle, hat⟩⟩
  case isComplete.error t id => exact hrefused _ _ _ h
  case wait.error t id => exact hrefused _ _ _ h
  case enqueueWait.error waiter t id => exact hrefused _ _ _ h
  all_goals exact h

/-! ## What a client has been answered -/

/-- **Everything a thread was told was right when it was told**: one operation
after another, each begun where the one before it had ended. -/
def Story (streamOf : Timeline → σ) (θ : Θ) (before : HostState Θ σ ω) :
    Transcript σ ω → HostState Θ σ ω → Prop
  | [], s => before.Evolves s
  | (operation, outcome) :: later, s =>
      ∃ u, before.Evolves u ∧ Right streamOf θ before operation outcome u ∧
        Story streamOf θ u later s

theorem Story.mono {transcript : Transcript σ ω} (h : Story streamOf θ u transcript s)
    (hu : before.Evolves u) : Story streamOf θ before transcript s := by
  cases transcript with
  | nil => exact hu.trans h
  | cons entry later =>
      obtain ⟨v, hv, hright, hlater⟩ := h
      exact ⟨v, hu.trans hv, hright.mono hu, hlater⟩

theorem Story.evolves {transcript : Transcript σ ω} (h : Story streamOf θ before transcript s) :
    before.Evolves s := by
  induction transcript generalizing before with
  | nil => exact h
  | cons entry later ih =>
      obtain ⟨v, hv, -, hlater⟩ := h
      exact hv.trans (ih hlater)

/-- The id an operation was given, if it is a `record` of the timeline. -/
def idOf (t : Timeline) : HostOperation σ ω × Except Exn HostOutcome → Option Nat
  | (.record t', .ok (.gave id)) => if t' = t then some id else none
  | _ => none

/-- All the ids that were given. -/
def idsOf (t : Timeline) (transcript : Transcript σ ω) : List Nat := transcript.filterMap (idOf t)

theorem idOf_some {t : Timeline} {id : Nat} {entry : HostOperation σ ω × Except Exn HostOutcome}
    (h : idOf t entry = some id) : entry = (.record t, .ok (.gave id)) := by
  unfold idOf at h
  split at h
  · split at h
    · rename_i heq
      cases h
      rw [heq]
    · cases h
  · cases h

/-- They grow, and are noted as told to the thread. -/
theorem Story.ids {transcript : Transcript σ ω} (h : Story streamOf θ before transcript s)
    (t : Timeline) : (idsOf t transcript).Pairwise (· < ·) ∧
      ∀ id ∈ idsOf t transcript, (before.base.given t).length ≤ id ∧ (θ, id) ∈ s.told t := by
  induction transcript generalizing before with
  | nil => exact ⟨.nil, fun _ hid => by cases hid⟩
  | cons entry later ih =>
      obtain ⟨v, hv, hright, hlater⟩ := h
      obtain ⟨hgrow, hids⟩ := ih hlater
      have hlength := (hv.given t).length_le
      have hlater' : ∀ id ∈ idsOf t later, (before.base.given t).length ≤ id ∧ (θ, id) ∈ s.told t :=
        fun id hid => ⟨Nat.le_trans hlength (hids id hid).1, (hids id hid).2⟩
      cases hid : idOf t entry with
      | none =>
          rw [idsOf, List.filterMap_cons_none hid]
          exact ⟨hgrow, hlater'⟩
      | some id =>
          cases idOf_some hid
          rw [idsOf, List.filterMap_cons_some hid]
          obtain ⟨hfresh, htold, p, hp, -⟩ : Gave streamOf θ before t id v := hright
          -- later ones come after all that had been given by then
          have hlt := (List.getElem?_eq_some_iff.mp hp).1
          refine ⟨List.pairwise_cons.mpr ⟨fun id' hid' => ?_, hgrow⟩, fun id' hid' => ?_⟩
          · exact Nat.lt_of_lt_of_le hlt (hids id' hid').1
          · rcases List.mem_cons.mp hid' with rfl | hid'
            · exact ⟨hfresh, (hlater.evolves.told t).subset htold⟩
            · exact hlater' id' hid'

/-- A call is only made by a thread that has the mutex of what it touches. -/
theorem Demands.holder {c : HostCall σ ω} {mutex : Mutex} (h : s.Demands streamOf θ c)
    (hmutex : c.touches = some mutex) : s.holder mutex = some θ := by
  cases c with
  | takeAvailable => cases hmutex; exact h
  | addEvent => cases hmutex; exact h.1
  | eventAt x => cases hmutex; exact h.1
  | giveBack x dropped =>
      cases hmutex
      cases dropped <;> exact h.1
  | reserveAvailable => cases hmutex; exact h
  | fields t => cases hmutex; exact h
  | pushPoint t x => cases hmutex; exact h.1
  | popPoint t => cases hmutex; exact h.1
  | lastId t => cases hmutex; exact h.1
  | addWaiter t id x => cases hmutex; exact h.1
  | removeWaiter t id x => cases hmutex; exact h.1
  | recordUse b => cases hmutex; exact h
  | _ => cases hmutex

/-! ## What others leave as it was -/

section Settled

variable [DecidableEq Θ]

theorem right_settled {m : Mutex} (operation : HostOperation σ ω) (outcome : Except Exn HostOutcome) :
    Settled θ m fun s : HostState Θ σ ω => Right streamOf θ before operation outcome s := by
  cases operation <;> rcases outcome with e | (id | complete | _)
  case record.ok.gave t => exact gave_settled
  case isComplete.ok.complete t id => exact of_settled fun _ => tells_settled
  case wait.ok.done t id => exact of_settled fun _ => reached_settled
  case enqueueWait.ok.done waiter t id => exact of_settled fun _ => scheduled_settled
  all_goals exact const_settled

theorem story_settled {m : Mutex} (transcript : Transcript σ ω) :
    Settled θ m fun s : HostState Θ σ ω => Story streamOf θ before transcript s := by
  induction transcript generalizing before with
  | nil => exact evolves_settled before m
  | cons entry later ih =>
      refine ⟨?_, ?_⟩
      · rintro s u hev hown ⟨v, hv, hright, hlater⟩
        exact ⟨v, hv, hright, ih.stable s u hev hown hlater⟩
      · rintro s o ⟨v, hv, hright, hlater⟩
        exact ⟨v, hv, hright, ih.holder s o hlater⟩

/-- The thread has no ticket and waits for nothing. -/
def Idle (θ : Θ) (s : HostState Θ σ ω) : Prop := Free θ s ∧ ∀ t, s.waits θ t = []

theorem idle_settled {m : Mutex} : Settled θ m fun s : HostState Θ σ ω => Idle θ s where
  stable s u hev hown h :=
    ⟨(free_settled (m := m)).stable s u hev hown h.1, fun t => (hown.waits t).trans (h.2 t)⟩
  holder _ _ h := h

theorem told_settled {m : Mutex} (transcript : Transcript σ ω) :
    Settled θ m fun u => Story streamOf θ s transcript u ∧ Idle θ u :=
  (story_settled transcript).and idle_settled

end Settled

variable [DecidableEq Θ] [DecidableEq σ]

/-! ## What the programs do -/

theorem operation_spec (operation : HostOperation σ ω) (h : Resting θ before s) :
    Ends streamOf θ (operation.program streamOf)
      (fun outcome u => Resting θ before u ∧ Right streamOf θ before operation (.ok outcome) u)
      (fun e u => Resting θ before u ∧ Right streamOf θ before operation (.error e) u) s := by
  have hpost : ∀ m outcome, Settled θ m fun u =>
      Resting θ before u ∧ Right streamOf θ before operation outcome u :=
    fun m outcome => resting_settled.and (right_settled operation outcome)
  have hrests : Settled θ .recorder fun u => Resting θ before u := resting_settled
  cases operation with
  | record t =>
      apply wp_bind
      refine wp_mono (record_spec h) ?_ fun _ _ hu => ⟨hu, trivial⟩
      exact fun id u hu => wp_ret (hpost .recorder (.ok (.gave id))).system hu
  | isComplete t id =>
      apply wp_bind
      refine wp_mono (isComplete_spec h) ?_ fun _ _ hu => hu
      exact fun complete u hu => wp_ret (hpost .recorder (.ok (.complete complete))).system hu
  | wait t id =>
      apply wp_bind
      refine wp_mono (wait_spec h) ?_ fun _ _ hu => hu
      exact fun _ u hu => wp_ret (hpost .recorder (.ok .done)).system hu
  | enqueueWait waiter t id =>
      apply wp_bind
      refine wp_mono (enqueueWait_spec h) ?_ fun _ _ hu => hu
      exact fun _ u hu => wp_ret (hpost .recorder (.ok .done)).system hu
  | issue stream w =>
      refine wp_ask_bind hrests.system (fun u _ hu => ⟨trivial, ?_⟩) h
      intro _ v hdoes
      have hevolves := hu.1.evolves.trans hdoes.evolves
      cases hdoes
      exact wp_ret (hpost .recorder (.ok .done)).system ⟨⟨⟨hevolves, hu.1.away⟩, hu.2⟩, trivial⟩
  | recordUse b =>
      refine underMutex_spec resting_settled (fun o => hpost _ (.ok o)) (fun e => hpost _ (.error e))
        h ?_
      intro u _ hu hclosed
      refine wp_ask_bind (stable_and hrests.system closed_stable)
        (fun v _ hv => ⟨hv.2.holder, ?_⟩) ⟨hu, hclosed⟩
      rintro granted w ⟨⟩
      have hstable : (system (ω := ω) Θ streamOf).Stable θ fun w =>
          Resting θ before w ∧ Closed θ (.buffer b) w := stable_and hrests.system closed_stable
      apply wp_bind
      refine wp_mono (granted_spec hstable hstable (fun _ => hv) fun _ => hv) ?_ ?_
      · intro _ x hx
        exact wp_ret (stable_and (hpost .recorder (.ok .done)).system closed_stable)
          ⟨⟨hx.1, trivial⟩, hx.2⟩
      · exact fun e x hx => ⟨⟨hx.1, trivial⟩, hx.2⟩

theorem client_spec (client : Client σ ω) (h : Idle θ s) :
    Ends streamOf θ (client.program streamOf)
      (fun transcript u => Story streamOf θ s transcript u ∧ Idle θ u) (fun _ _ => False) s := by
  induction client generalizing s with
  | done => exact wp_ret (told_settled (m := .recorder) []).system ⟨.refl s, h⟩
  | ask operation next ih =>
      have hthen : ∀ outcome u, Resting θ s u ∧ Right streamOf θ s operation outcome u →
          Ends streamOf θ
            (do
              let later ← (next outcome).program streamOf
              pure ((operation, outcome) :: later))
            (fun transcript v => Story streamOf θ s transcript v ∧ Idle θ v) (fun _ _ => False) u := by
        rintro outcome u ⟨hrest, hright⟩
        apply wp_bind
        refine wp_mono (ih outcome ⟨hrest.2, hrest.1.away⟩) ?_ fun _ _ h => h
        intro later v hv
        exact wp_ret (told_settled (m := .recorder) _).system
          ⟨⟨u, hrest.1.evolves, hright, hv.1⟩, hv.2⟩
      have hended : ∀ outcome, Settled θ .recorder fun u =>
          Resting θ s u ∧ Right streamOf θ s operation outcome u :=
        fun outcome => resting_settled.and (right_settled operation outcome)
      apply wp_bind
      apply wp_tryCatch
      apply wp_bind
      refine wp_mono (operation_spec operation ⟨⟨.refl s, h.2⟩, h.1⟩) ?_ ?_
      · exact fun outcome u hu v huv _ => hthen (.ok outcome) v ((hended _).system u v huv hu)
      · exact fun e u hu v huv _ => hthen (.error e) v ((hended _).system u v huv hu)

theorem programUnder_spec (client : Client σ ω) (allocator : Option Nat) (h : Idle θ s) :
    Ends streamOf θ (client.programUnder streamOf allocator)
      (fun transcript u => Story streamOf θ s transcript u ∧ Idle θ u) (fun _ _ => False) s := by
  cases allocator with
  | none => exact client_spec client h
  | some a =>
      have hbegun : Settled θ (.allocator a) fun u => s.Evolves u ∧ Idle θ u :=
        (evolves_settled s _).and idle_settled
      refine underMutex_spec hbegun told_settled (fun _ => const_settled) ⟨.refl s, h⟩ ?_
      intro u _ hu hclosed
      have hinOrder : Host.InOrder [.allocator a] (client.program streamOf) := by
        refine Host.client_inOrder ?_ streamOf client
        intro m hm
        rw [List.mem_singleton.mp hm]
        exact Nat.one_pos
      refine wp_mono (wp_held (locking streamOf) (fun _ _ h => h.2.holder _) hinOrder
        (List.pairwise_singleton ..) List.mem_cons_self (client_spec client hu.2) hclosed.holder)
        ?_ fun _ _ hv => hv.1.elim
      exact fun transcript v hv => ⟨⟨hv.1.1.mono hu.1, hv.1.2⟩, hv.2, nofun⟩

/-! ## Any number of threads -/

/-- What a thread does, and where it began. -/
structure Task (Θ σ ω : Type) where
  client : Client σ ω
  /-- The allocator whose lock it has all along. -/
  allocator : Option Nat
  before : HostState Θ σ ω

/-- The threads, and what they share. -/
abbrev HostThreads (Θ σ ω : Type) :=
  Threads Θ (Task Θ σ ω) (HostCall σ ω) HostCall.Answer Exn (Transcript σ ω) (HostState Θ σ ω)

/-- Any thread may run any client. -/
def Begins (streamOf : Timeline → σ) (_ : Θ) (s : HostState Θ σ ω) (task : Task Θ σ ω)
    (x : Host σ ω (Transcript σ ω)) : Prop :=
  task.before = s ∧ x = task.client.programUnder streamOf task.allocator

def empty : HostState Θ σ ω :=
  ⟨.empty, fun _ => none, fun _ => .nobody, fun _ => .nothing, fun _ => [], fun _ => []⟩

def start : HostThreads Θ σ ω := ⟨empty, fun _ => none⟩

/-- Any number of steps of any threads and streams, in any order. -/
abbrev Runs (streamOf : Timeline → σ) : HostThreads Θ σ ω → HostThreads Θ σ ω → Prop :=
  ReflTransGen (Threads.Step (system Θ streamOf) (Begins streamOf))

omit [DecidableEq Θ] [DecidableEq σ] in
theorem Coherent.empty : (empty : HostState Θ σ ω).Coherent streamOf where
  device := .empty
  within := ⟨∅, .empty⟩
  captured x p hx := by cases hx
  timelines t :=
    { numbered := .empty
      distinct := List.nodup_nil
      counted := rfl
      apart := List.nodup_nil
      waiting := fun w hw => by cases hw }
  once := List.nodup_nil
  room := Nat.le_refl 0
  tallied t := ⟨rfl, rfl, rfl⟩
  waits := rfl
  placed :=
    { pool := fun x => by simp [HostState.empty, Timelines.empty]
      points := fun t x => by simp [kept, HostState.empty, Timelines.empty]
      made := fun x => by
        simp only [HostState.empty, Timelines.empty]
        simp
        omega }
  locked t ht := absurd rfl ht

/-- What a program leaves: what it was told, and an idle thread. -/
abbrev Told (streamOf : Timeline → σ) (θ : Θ) (task : Task Θ σ ω) (transcript : Transcript σ ω)
    (s : HostState Θ σ ω) : Prop :=
  Story streamOf θ task.before transcript s ∧ Idle θ s

theorem verified : Threads.Verified (system Θ streamOf) (Begins streamOf) (fun θ s => Idle θ s)
    (Told streamOf) (fun _ (_ : Task Θ σ ω) (_ : Exn) _ => False) where
  stable _ := (idle_settled (m := .recorder)).system
  begins := by
    rintro θ s task x - hidle ⟨rfl, rfl⟩
    exact programUnder_spec task.client task.allocator hidle
  returns h := h.2
  throws h := h.elim

/-- Every client goes on as it was to. -/
theorem reached {m : HostThreads Θ σ ω} (hrun : Runs streamOf start m) :
    m.Sound (system Θ streamOf) (fun θ s => Idle θ s) (Told streamOf) (fun _ _ _ _ => False) := by
  have hstart : (start : HostThreads Θ σ ω).Sound (system Θ streamOf) (fun θ s => Idle θ s)
      (Told streamOf) (fun _ _ _ _ => False) := by
    refine ⟨Coherent.empty, fun θ _ => ⟨fun x hx => ?_, fun t => rfl⟩, fun _ _ _ hx => ?_⟩
    · cases hx
    · cases hx
  exact hstart.run verified hrun

theorem step_begin (m : HostThreads Θ σ ω) (θ : Θ) (client : Client σ ω) (allocator : Option Nat)
    (idle : m.running θ = none) :
    Threads.Step (system Θ streamOf) (Begins streamOf) m
      ⟨m.shared, Function.update m.running θ
        (some (⟨client, allocator, m.shared⟩, client.programUnder streamOf allocator))⟩ :=
  .began idle ⟨rfl, rfl⟩

/-- Issue work, record it, and ask whether it is complete. -/
def recordAndAsk (t : Timeline) : Client Nat Unit :=
  .ask (.issue 3 ()) fun _ => .ask (.record t) fun _ => .ask (.isComplete t 0) fun _ => .done

def recordAgain (t : Timeline) : Client Nat Unit := .ask (.record t) fun _ => .done

/-- Two threads record a command each, and the second finds that of the first
complete: its ticket is given back and used again. In the end both are done. -/
theorem recorded_and_asked : ∃ t, ∃ m₁ : HostThreads Bool Nat Unit, Runs (fun _ => 3) start m₁ ∧
    (∃ task k, m₁.running true = some (task, .call (.eventRecord 1 3) k)) ∧
    ∃ m₂, Runs (fun _ => 3) m₁ m₂ ∧ m₂.shared.Leaves t 1 ∧
      m₂.shared.base.recorder.available = [1] ∧
      ∃ m₃, Runs (fun _ => 3) m₂ m₃ ∧ (m₃.shared.base.timeline t).points = [1] ∧
        m₃.shared.told t = [(true, 0), (false, 1)] ∧
        m₃.running true = some (⟨recordAndAsk t, none, empty⟩, .ret [(.issue 3 (), .ok .done),
          (.record t, .ok (.gave 0)), (.isComplete t 0, .ok (.complete false))]) ∧
        (∃ task, m₃.running false = some (task, .ret [(.record t, .ok (.gave 1))])) ∧
        ∃ m₄, Runs (fun _ => 3) m₃ m₄ ∧ (∀ θ, m₄.running θ = none) ∧
          m₄.shared.base.recorder.events = 1 ∧ (m₄.shared.base.timeline t).points = [1] := by
  refine ⟨⟨1, Int.one_ne_zero⟩, ?_⟩
  refine Runs.exists_head (step_begin _ true (recordAndAsk ⟨1, Int.one_ne_zero⟩) none rfl) ?_
  refine Runs.exists_head (.called (θ := true) rfl (by exact .issued)) ?_
  refine Runs.exists_head (.called (θ := true) rfl (.locked rfl)) ?_
  refine Runs.exists_head (step_begin _ false (recordAgain ⟨1, Int.one_ne_zero⟩) none rfl) ?_
  refine Runs.exists_head (.called (θ := true) rfl (by exact .gotFields)) ?_
  refine Runs.exists_head (.called (θ := true) rfl (.locked rfl)) ?_
  refine Runs.exists_head (.called (θ := true) rfl (by exact .taken)) ?_
  refine Runs.exists_head (.called (θ := true) (a := true) rfl (by exact .roomReserved)) ?_
  refine Runs.exists_head (.called (θ := true) (a := true) rfl (by exact .hostAllocated)) ?_
  refine Runs.exists_head (.called (θ := true) (a := true) rfl (by exact .eventMade)) ?_
  refine Runs.exists_head (.called (θ := true) rfl (by exact .eventAdded)) ?_
  refine Runs.exists_head (.called (θ := true) rfl (by exact .unlocked)) ?_
  refine Runs.exists_head (.called (θ := true) rfl (.locked rfl)) ?_
  refine Runs.exists_head (.called (θ := true) rfl (by exact .gotEvent)) ?_
  refine Runs.exists_head (.called (θ := true) rfl (by exact .unlocked)) ?_
  refine ⟨_, .refl, ⟨_, _, rfl⟩, ?_⟩
  -- the event is recorded
  refine Runs.exists_head (.called (θ := true) (a := true) rfl (by exact .recorded)) ?_
  refine Runs.exists_head (.called (θ := true) (a := true) rfl (by exact .hostAllocated)) ?_
  refine Runs.exists_head (.called (θ := true) rfl (by exact .pushed)) ?_
  refine Runs.exists_head (.called (θ := true) rfl (by exact .toldId)) ?_
  refine Runs.exists_head (.called (θ := true) rfl (by exact .unlocked)) ?_
  refine Runs.exists_head (.called (θ := true) rfl (.locked rfl)) ?_
  refine Runs.exists_head (.called (θ := true) rfl (by exact .gotFields)) ?_
  refine Runs.exists_head (.called (θ := true) rfl (.locked rfl)) ?_
  refine Runs.exists_head (.called (θ := true) rfl (by exact .gotEvent)) ?_
  refine Runs.exists_head (.called (θ := true) rfl (by exact .unlocked)) ?_
  refine Runs.exists_head (.called (θ := true) rfl (by exact .queried)) ?_
  refine Runs.exists_head (.called (θ := true) rfl (by exact .unlocked)) ?_
  -- the stream executes the work, and the event
  refine Runs.exists_head (.moved ⟨_, ⟨3, _, _, rfl, (fun p hp => by cases hp), rfl⟩, rfl⟩) ?_
  refine Runs.exists_head (.moved ⟨_, ⟨3, _, _, rfl, (fun p hp => by cases hp), rfl⟩, rfl⟩) ?_
  -- the other thread finds that
  refine Runs.exists_head (.called (θ := false) rfl (.locked rfl)) ?_
  refine Runs.exists_head (.called (θ := false) rfl (by exact .gotFields)) ?_
  refine Runs.exists_head (.called (θ := false) rfl (.locked rfl)) ?_
  refine Runs.exists_head (.called (θ := false) rfl (by exact .gotEvent)) ?_
  refine Runs.exists_head (.called (θ := false) rfl (by exact .unlocked)) ?_
  refine Runs.exists_head (.called (θ := false) rfl (by exact .queried)) ?_
  refine Runs.exists_head (.called (θ := false) rfl (.locked rfl)) ?_
  refine Runs.exists_head (.called (θ := false) rfl (by exact .gaveBack)) ?_
  refine ⟨_, .refl, ⟨rfl, rfl, Option.some_ne_none false⟩, rfl, ?_⟩
  -- and records in turn, with the same event
  refine Runs.exists_head (.called (θ := false) rfl (by exact .unlocked)) ?_
  refine Runs.exists_head (.called (θ := false) rfl (by exact .popped)) ?_
  refine Runs.exists_head (.called (θ := false) rfl (.locked rfl)) ?_
  refine Runs.exists_head (.called (θ := false) rfl (by exact .taken)) ?_
  refine Runs.exists_head (.called (θ := false) rfl (by exact .unlocked)) ?_
  refine Runs.exists_head (.called (θ := false) rfl (.locked rfl)) ?_
  refine Runs.exists_head (.called (θ := false) rfl (by exact .gotEvent)) ?_
  refine Runs.exists_head (.called (θ := false) rfl (by exact .unlocked)) ?_
  refine Runs.exists_head (.called (θ := false) (a := true) rfl (by exact .recorded)) ?_
  refine Runs.exists_head (.called (θ := false) (a := true) rfl (by exact .hostAllocated)) ?_
  refine Runs.exists_head (.called (θ := false) rfl (by exact .pushed)) ?_
  refine Runs.exists_head (.called (θ := false) rfl (by exact .toldId)) ?_
  refine Runs.exists_head (.called (θ := false) rfl (by exact .unlocked)) ?_
  refine ⟨_, .refl, rfl, rfl, rfl, ⟨_, rfl⟩, ?_⟩
  refine Runs.exists_head (.returned (θ := true) rfl) ?_
  refine Runs.exists_head (.returned (θ := false) rfl) ?_
  exact ⟨_, .refl, fun θ => by cases θ <;> rfl, rfl, rfl⟩

section Reached

variable {m : HostThreads Θ σ ω}

end Reached

end HostState

end RexlibCuda
