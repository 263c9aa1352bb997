import RexlibCuda.PluginPlacement

/-! What holds of the backend as a whole. Whatever clock says no less than the
queues did at each moment of the allocator, the allocator and the buffers that
are alive are, by that clock, one of the runs its own correctness is about. -/

namespace RexlibCuda

open Completion Prog Streams

open Relation (ReflTransGen)

namespace Plugin

variable {σ : Type}

/-- What had finished by each moment of the allocator. -/
def done (backend : Timeline → Bool) (m : Plugin σ) (n : Nat) : Command → Prop :=
  (m.past n).Done backend

/-- What had finished by one moment has finished by the next. -/
structure Rising (backend : Timeline → Bool) (m : Plugin σ) : Prop where
  past : ∀ n < m.alloc.now, ∀ c, m.done backend n c → m.done backend (n + 1) c
  present : ∀ c, m.done backend m.alloc.now c → m.queues.world.Done backend c

/-- The allocator, with the buffers that are alive. -/
def buffers (m : Plugin σ) (uses : List Use) : Buffers :=
  ⟨m.alloc, m.live.map m.queues.world.buffers, uses⟩

/-- What a call has told an operand is among the uses. -/
def Recorded (m : Plugin σ) (uses : List Use) : Prop :=
  ∀ t ∈ m.touches, ∀ call, m.queues.calls[t.call]? = some call → ∀ k,
    call.HasTold (.own t.buffer) k → ⟨t.heap, t.offset, t.size, k⟩ ∈ uses

/-- **What holds of the backend in every reachable state.** -/
structure Sound (cfg : Config) (ours : BufferId → Bool) (backend : Timeline → Bool)
    (streamOf : Timeline → σ) (m : Plugin σ) : Prop where
  queues : m.queues.Lasting streamOf backend
  placed : m.Placed ours
  rising : m.Rising backend
  models : ∀ k : Clock Timeline, k.Agrees (m.done backend) m.alloc.now →
    ∃ uses S, Buffers.Models cfg k (m.buffers uses) S ∧ m.Recorded uses

variable {cfg : Config} {ours : BufferId → Bool} {backend : Timeline → Bool}
  {streamOf : Timeline → σ} {m m' : Plugin σ} {env : Environment} {tape : Nat → Plugin σ}
  {a : MemoryBlockAllocator}

/-! ## Clocks -/

/-- There is a clock that says just what the queues did. -/
theorem Rising.clock (h : m.Rising backend) : ∃ k : Clock Timeline,
    k.Agrees (m.done backend) m.alloc.now ∧ ∀ n c, m.alloc.now ≤ n → Complete k n c →
      ∃ d, m.queues.world.Done backend d ∧ d.timeline = c.timeline ∧ c.id ≤ d.id := by
  let known (n : Nat) (c : Command) : Prop :=
    if n < m.alloc.now then m.done backend n c else m.queues.world.Done backend c
  have hpresent : ∀ n, m.alloc.now ≤ n → ∀ c, known n c ↔ m.queues.world.Done backend c := by
    intro n hn c
    exact iff_of_eq (if_neg (Nat.not_lt.mpr hn))
  have hrising : ∀ n c, known n c → known (n + 1) c := by
    intro n c hc
    rcases Nat.lt_or_ge n m.alloc.now with hlt | hge
    · have hc : m.done backend n c := by simpa only [known, if_pos hlt] using hc
      have hnext := h.past n hlt c hc
      rcases Nat.lt_or_ge (n + 1) m.alloc.now with hlt' | hge'
      · simpa only [known, if_pos hlt'] using hnext
      · have hnow : n + 1 = m.alloc.now := Nat.le_antisymm hlt hge'
        rw [hnow] at hnext
        exact (hpresent _ hge' c).mpr (h.present c hnext)
    · exact (hpresent _ (by omega) c).mpr ((hpresent n hge c).mp hc)
  refine ⟨.ofHistory known hrising, ?_, ?_⟩
  · apply (Clock.agrees_ofHistory m.alloc.now).of_le (Nat.le_refl _)
    intro n hn c hc
    rcases Nat.lt_or_eq_of_le hn with hlt | rfl
    · simpa only [known, if_pos hlt] using hc
    · exact (hpresent _ (Nat.le_refl _) c).mpr (h.present c hc)
  · intro n c hn hc
    obtain ⟨d, hd, hlater⟩ := Clock.ofHistory_iff.mp hc
    exact ⟨d, (hpresent n hn d).mp hd, hlater⟩

theorem agrees_always (done : Nat → Command → Prop) (last : Nat) :
    (Clock.always Timeline).Agrees done last := fun _ _ _ _ => trivial

/-- Buffers that are alive lie apart. -/
theorem Sound.apart (h : m.Sound cfg ours backend streamOf) : m.Apart := by
  obtain ⟨uses, S, hm, -⟩ := h.models _ (agrees_always _ _)
  intro b hb b' hb' hne g x hspans hspans'
  have hblock : m.blockOf b ≠ m.blockOf b' := by
    have hnd := hm.nodup
    simp only [buffers, List.map_map] at hnd
    exact fun heq => hne (List.inj_on_of_nodup_map hnd hb hb' heq)
  have hlive : ∀ b ∈ m.live, m.queues.world.buffers b ∈ (m.buffers uses).live :=
    fun b hb => List.mem_map_of_mem hb
  exact hm.apart (hlive b hb) (hlive b' hb') hblock (hspans.1.trans hspans'.1.symm) hspans.2
    hspans'.2

/-! ## What the allocator's side is told -/

theorem silent_truthful (k : Clock Timeline) (room : Nat → Bool) : Truthful k (silent room) where
  isComplete n c h := by cases h
  wait n c h := by cases h

/-- A use of a buffer that is alive is told to the allocator's side. -/
theorem models_recorded {k : Clock Timeline} {uses : List Use} {S : Session}
    (hm : Buffers.Models cfg k (m.buffers uses) S) (hnodup : m.live.Nodup) {q : Queues σ}
    {b : BufferId} {room : Bool} {token : CommandToken} {buffer : CudaBuffer}
    (hused : (m.queues.world.buffers b).recordUse room token = some buffer)
    (hbuffers : q.world.buffers = Function.update m.queues.world.buffers b buffer) :
    ∃ uses' S', Buffers.Models cfg k (({ m with queues := q }).buffers uses') S' ∧
      (∀ u ∈ uses, u ∈ uses') ∧ (b ∈ m.live → ∀ c ∈ token,
        m.alloc.pool.useOf (m.blockOf b) c ∈ uses') := by
  have hmap : ∀ l : List BufferId, b ∉ l →
      l.map q.world.buffers = l.map m.queues.world.buffers := by
    intro l hb
    apply List.map_congr_left
    intro b' hb'
    rw [hbuffers, Function.update_of_ne]
    rintro rfl
    exact hb hb'
  by_cases hlive : b ∈ m.live
  · obtain ⟨before, after, hsplit⟩ := List.append_of_mem hlive
    have hnd := hnodup
    rw [hsplit] at hnd
    have hnot := (List.nodup_cons.mp (List.nodup_middle.mp hnd)).1
    rw [List.mem_append, not_or] at hnot
    have has : (m.buffers uses).live = before.map m.queues.world.buffers ++
        m.queues.world.buffers b :: after.map m.queues.world.buffers := by
      simp [buffers, hsplit]
    obtain ⟨S', -, hm'⟩ := hm.recorded (silent_truthful k fun _ => true) has hused
    refine ⟨_, S', ?_, fun u hu => List.mem_append_right _ hu, fun _ c hc =>
      List.mem_append_left _ (List.mem_map_of_mem (Option.mem_toList.mpr hc))⟩
    have hlive' : before.map m.queues.world.buffers ++ buffer :: after.map m.queues.world.buffers =
        m.live.map q.world.buffers := by
      rw [hsplit, List.map_append, List.map_cons, hmap before hnot.1, hmap after hnot.2, hbuffers,
        Function.update_self]
    rw [hlive'] at hm'
    exact hm'
  · -- the buffer is another allocator's
    refine ⟨uses, S, ?_, fun u hu => hu, fun hb => absurd hb hlive⟩
    unfold buffers at hm ⊢
    rw [show ({ m with queues := q } : Plugin σ).live.map q.world.buffers =
      m.live.map m.queues.world.buffers from hmap m.live hlive]
    exact hm

/-- Time passes in the calls of the allocator. -/
theorem Sound.now_le (h : m.Sound cfg ours backend streamOf) (env : Environment)
    (a : MemoryBlockAllocator) (live : List CudaBuffer)
    (hstep : ∀ uses, Buffers.Step cfg env (m.buffers uses) ⟨a, live, uses⟩) :
    m.alloc.now ≤ a.now := by
  obtain ⟨uses, S, hm, -⟩ := h.models _ (agrees_always _ _)
  obtain ⟨T, hrun, hT⟩ := hm.step (.always env) (hstep uses)
  have hle := (hm.run (.always env) hrun).2
  rw [hT.alloc] at hle
  exact hle

/-! ## What ended calls have left -/

/-- The work of a command has finished once a later one of its timeline has. -/
theorem finished_of_done (h : m.queues.Lasting streamOf backend) {c : Nat} {k d : Command}
    (hnames : m.queues.Names c k) (hd : m.queues.world.Done backend d)
    (htl : d.timeline = k.timeline) (hid : k.id ≤ d.id) : m.queues.world.Finished c := by
  obtain ⟨p, hp, hfinished⟩ := h.sound.named hnames
  obtain ⟨call, hcall, hqueue, -⟩ := hnames
  have hbackend : backend d.timeline = true := by
    rw [htl, ← hqueue]
    exact (h.sound.calls c call hcall).stream
  unfold World.Done at hd
  rw [if_pos hbackend, htl] at hd
  obtain ⟨p', hp', hreached⟩ := hd
  exact hfinished (h.ascending.reached h.sound.timelines hp hp' hid hreached)

/-- How a call ended. -/
theorem ended (h : m.queues.Sound streamOf backend) {c : Nat} {call : SubmitCall}
    (hcall : m.queues.calls[c]? = some call) (hover : call.phase.over = true) :
    call.phase.abandoned = true ∨ m.queues.world.Finished c ∨
      ∃ k, call.phase = .returned (some k) ∧ m.queues.Names c k := by
  have hprogress := (h.calls c call hcall).progress
  cases hphase : call.phase with
  | returned token =>
      rw [hphase] at hprogress
      cases token with
      | none => exact .inr (.inl hprogress)
      | some k => exact .inr (.inr ⟨k, rfl, call, hcall, hprogress.1.symm, hprogress.2.1⟩)
  | threw e synchronized =>
      rw [hphase] at hprogress
      rcases synchronized with _ | _ | _
      · exact .inr (.inl fun s i hi => absurd hi (hprogress s i))
      · exact .inl rfl
      · exact .inr (.inl hprogress)
  | _ =>
      rw [hphase] at hover
      cases hover

/-- **What was used of the memory of a buffer is settled** when the buffer is
handed out: it has finished, or the token of the buffer speaks for it. -/
theorem Sound.settled (h : m.Sound cfg ours backend streamOf) {buffer : CudaBuffer}
    {pending : CommandToken} {uses : List Use} {T : Session} {k : Clock Timeline}
    (huses : buffer.uses = pending.toList.map some) (hrecorded : m.Recorded uses)
    (hbytes : ∀ b ∈ m.live, m.alloc.pool.SameBytes a.pool (m.blockOf b))
    (hT : Buffers.Models cfg k ⟨a, buffer :: m.live.map m.queues.world.buffers, uses⟩ T)
    (hk : ∀ c, Complete k a.now c →
      ∃ d, m.queues.world.Done backend d ∧ d.timeline = c.timeline ∧ c.id ≤ d.id)
    {t : Touch} (ht : t ∈ m.touches) {x : Nat} (hheap : (a.pool.block buffer.block).heap = t.heap)
    (hx : (a.pool.extent buffer.block).Has x) (hhas : t.Has t.heap x) :
    m.queues.Settled t.call (Covers pending) := by
  obtain ⟨hours, -, call, hcall, hmem⟩ := h.placed.touched t ht
  by_cases hlive : t.buffer ∈ m.live
  · -- buffers that are alive lie apart
    exfalso
    have hmem : m.queues.world.buffers t.buffer ∈ m.live.map m.queues.world.buffers :=
      List.mem_map_of_mem hlive
    have hspans := (h.placed.covering t ht hlive).has_iff.mp hhas
    have hbytes := hbytes _ hlive
    have hne : buffer.block ≠ (m.queues.world.buffers t.buffer).block := by
      have hnd := hT.nodup
      rw [List.map_cons] at hnd
      exact fun heq => (List.nodup_cons.mp hnd).1 (heq ▸ List.mem_map_of_mem hmem)
    refine hT.apart List.mem_cons_self (List.mem_cons_of_mem _ hmem) hne ?_ hx ?_
    · exact (hheap.trans hspans.1.symm).trans hbytes.heap.symm
    · have hin := hspans.2
      unfold MemoryBlockPool.extent Tiling.Extent.Has at hin ⊢
      rw [← hbytes.offset, ← hbytes.size] at hin
      exact hin
  · have hover : call.phase.over = true := by
      cases hphase : call.phase.over with
      | true => rfl
      | false =>
          exact absurd (h.placed.held call (List.mem_of_getElem? hcall) hphase _ hmem hours) hlive
    refine ⟨call, hcall, hover, (ended h.queues.sound hcall hover).imp_right ?_⟩
    rintro (hfinished | ⟨c, hphase, hnames⟩)
    · exact .inl hfinished
    · -- the use is known to the allocator's side
      have htold : call.HasTold (.own t.buffer) c := by
        unfold SubmitCall.HasTold
        rw [hphase]
        exact ⟨rfl, hmem⟩
      have huse := hrecorded t ht call hcall c htold
      have htouches : Use.Touches ⟨t.heap, t.offset, t.size, c⟩ (a.pool.block buffer.block).heap x :=
        ⟨hheap.symm, hhas.2.1, hhas.2.2⟩
      rcases hT.covered List.mem_cons_self huse htouches hx with hdone | ⟨token, htoken, hcovers⟩
      · obtain ⟨d, hd, htl, hid⟩ := hk c hdone
        exact .inl (finished_of_done h.queues hnames hd htl hid)
      · have htoken : token ∈ buffer.uses := htoken
        rw [huses] at htoken
        obtain ⟨d, hd, rfl⟩ := List.mem_map.mp htoken
        have hpending : pending = some d := Option.mem_toList.mp hd
        exact .inr ⟨c, hphase, hpending ▸ hcovers⟩

theorem Sound.start (cfg : Config) (elsewhere : BufferId → CudaBuffer) (finished : Command → Bool) :
    (start ours elsewhere finished : Plugin σ).Sound cfg ours backend streamOf where
  queues := { sound := .start _ _, ascending := .empty, behind := fun c call h => by cases h }
  placed := .start
  rising := { past := fun n hn => absurd hn (Nat.not_lt_zero n), present := fun c h => h }
  models k _ := ⟨[], .empty, .empty, fun t ht => by cases ht⟩

/-! ## The queues go on -/

section Goes

variable [DecidableEq σ]

theorem Rising.goes (h : m.Rising backend) (hm : m.queues.Lasting streamOf backend)
    (hgoes : Goes ours backend streamOf m m') : m'.Rising backend := by
  have hbeside := hgoes.beside
  constructor
  · intro n hn c hc
    unfold done at hc ⊢
    rw [hbeside.past] at hc ⊢
    exact h.past n (hbeside.alloc ▸ hn) c hc
  · intro c hc
    unfold done at hc
    rw [hbeside.past, hbeside.alloc] at hc
    exact hgoes.queues.done hm.sound.timelines (h.present c hc)

/-- A touch that was not there is of a call that was not there. -/
theorem Goes.touches (h : Goes ours backend streamOf m m') :
    ∀ t ∈ m'.touches, t ∈ m.touches ∨ m.queues.calls[t.call]? = none := by
  cases h with
  | submitted queue cmd stream alive =>
      intro t ht
      rcases List.mem_append.mp ht with ht | ht
      · obtain ⟨b, -, -, rfl⟩ := mem_touchOf.mp ht
        exact .inr (List.getElem?_eq_none (Nat.le_refl _))
      · exact .inl ht
  | went step calls dead => exact fun t ht => .inl ht

theorem Sound.goes (h : m.Sound cfg ours backend streamOf)
    (hgoes : Goes ours backend streamOf m m') : m'.Sound cfg ours backend streamOf where
  queues := h.queues.step hgoes.queues
  placed := h.placed.goes h.queues.sound h.apart hgoes
  rising := h.rising.goes h.queues hgoes
  models := by
    intro k hk
    have hbeside := hgoes.beside
    unfold done at hk
    rw [hbeside.past, hbeside.alloc] at hk
    obtain ⟨uses, S, hm, hrecorded⟩ := h.models k hk
    -- what was told before was told of a touch that was there
    have hold : ∀ t ∈ m'.touches, (∃ call, m.queues.calls[t.call]? = some call) → t ∈ m.touches := by
      intro t ht hcall
      obtain ⟨call, hcall⟩ := hcall
      refine (hgoes.touches t ht).resolve_right fun hnone => ?_
      rw [hnone] at hcall
      cases hcall
    have hbuffers : ∀ uses, m'.buffers uses =
        ({ m with queues := m'.queues }).buffers uses := by
      intro uses
      unfold buffers
      rw [hbeside.alloc, hbeside.live]
    rcases hgoes.queues.buffers h.queues.sound with
      ⟨hsame, hsilent⟩ | ⟨b, room, token, buffer, hused, hupdate, htells⟩
    · refine ⟨uses, S, ?_, ?_⟩
      · rw [hbuffers]
        unfold buffers at hm ⊢
        rw [hsame]
        exact hm
      · intro t ht call' hcall' c htold
        obtain ⟨call, hcall, htold⟩ := hsilent _ call' hcall' _ c htold
        exact hrecorded t (hold t ht ⟨call, hcall⟩) call hcall c htold
    · obtain ⟨uses', S', hm', hsub, hnew⟩ := models_recorded hm h.placed.nodup hused hupdate
      refine ⟨uses', S', hbuffers uses' ▸ hm', ?_⟩
      intro t ht call' hcall' c htold
      obtain ⟨call, hcall, htold⟩ := htells _ call' hcall' _ c htold
      have ht := hold t ht ⟨call, hcall⟩
      rcases htold with htold | ⟨hover, hown, hmem, htoken⟩
      · exact hsub _ (hrecorded t ht call hcall c htold)
      · -- the buffer is kept by the call, and is where it was when the call began
        cases hown
        have hlive := h.placed.held call (List.mem_of_getElem? hcall) hover _ hmem
          (h.placed.touched t ht).1
        obtain ⟨hheap, hoffset, hsize⟩ := h.placed.covering t ht hlive
        have huse := hnew hlive c (Option.mem_def.mpr htoken)
        rw [hheap, hoffset, hsize]
        exact huse

theorem Sound.goes_run (h : m.Sound cfg ours backend streamOf)
    (hgoes : ReflTransGen (Goes ours backend streamOf) m m') : m'.Sound cfg ours backend streamOf :=
  Runs.invariant (fun _ _ hm hstep => hm.goes hstep) hgoes h

/-! ## The allocator goes on -/

/-- The moments of a call come after those before it. -/
theorem Rising.leave (h : m.Rising backend) (hm : m.queues.Lasting streamOf backend)
    (hmean : Meanwhile ours backend streamOf m env tape a.now) (hnow : m.alloc.now ≤ a.now) :
    (m.leave a tape).Rising backend := by
  have hpast : ∀ n, n < m.alloc.now → (m.leave a tape).past n = m.past n := fun n hn => if_pos hn
  have hlater : ∀ n, m.alloc.now ≤ n → (m.leave a tape).past n = (tape n).queues.world :=
    fun n hn => if_neg (Nat.not_lt.mpr hn)
  constructor
  · intro n hn c hc
    have hn : n < a.now := hn
    unfold done at hc ⊢
    rcases Nat.lt_or_ge n m.alloc.now with hlt | hge
    · rw [hpast n hlt] at hc
      have hnext := h.past n hlt c hc
      rcases Nat.lt_or_ge (n + 1) m.alloc.now with hlt' | hge'
      · rw [hpast _ hlt']
        exact hnext
      · -- the call begins at the next moment
        rw [hlater _ hge']
        have hentered : n + 1 = m.alloc.now := Nat.le_antisymm hlt hge'
        rw [hentered] at hnext ⊢
        exact goes_done hmean.entered hm (h.present c hnext)
    · rw [hlater n hge] at hc
      rw [hlater _ (by omega)]
      exact goes_done (hmean.goes n hge hn) (goes_lasting (hmean.reach hge (Nat.le_of_lt hn)) hm) hc
  · intro c hc
    have hc : ((m.leave a tape).past a.now).Done backend c := hc
    rw [hlater _ hnow] at hc
    exact hc

/-- **How a call of the allocator is left**: the queues are where the tape ends,
and by any clock that says no less than they did the answers were true. -/
theorem Sound.leave (h : m.Sound cfg ours backend streamOf)
    (hmean : Meanwhile ours backend streamOf m env tape a.now) (hnow : m.alloc.now ≤ a.now) :
    (tape a.now).Sound cfg ours backend streamOf ∧ (m.leave a tape).Rising backend ∧
      ∀ k : Clock Timeline, k.Agrees ((m.leave a tape).done backend) a.now →
        Truthful k env ∧ k.Agrees ((tape a.now).done backend) m.alloc.now := by
  have hlast := hmean.reach hnow (Nat.le_refl _)
  refine ⟨h.goes_run hlast, h.rising.leave h.queues hmean hnow, fun k hk => ⟨?_, ?_⟩⟩
  · apply hmean.truthful h.queues
    intro n hn hle c hc
    apply hk n hle c
    unfold done
    rw [show (m.leave a tape).past n = (tape n).queues.world from if_neg (Nat.not_lt.mpr hn)]
    exact hc
  · -- up to when the call began, the history is the one there was
    apply hk.of_le hnow
    intro n hn c hc
    unfold done at hc ⊢
    rw [(goes_beside hlast).past] at hc
    rcases Nat.lt_or_eq_of_le hn with hlt | rfl
    · rw [show (m.leave a tape).past n = m.past n from if_pos hlt]
      exact hc
    · rw [show (m.leave a tape).past m.alloc.now = (tape m.alloc.now).queues.world from
        if_neg (Nat.lt_irrefl _)]
      exact goes_done hmean.entered h.queues (h.rising.present c hc)

/-- A call that hands nothing out. -/
theorem Sound.left (h : m.Sound cfg ours backend streamOf)
    (hmean : Meanwhile ours backend streamOf m env tape a.now)
    (hstay : ∀ uses S, Buffers.Models cfg (Clock.always Timeline) ((tape a.now).buffers uses) S →
      ((tape a.now).buffers uses).Stay a)
    (hmodels : ∀ k uses S, Truthful k env → Buffers.Models cfg k ((tape a.now).buffers uses) S →
      ∃ T, Buffers.Models cfg k { (tape a.now).buffers uses with alloc := a } T)
    (hnow : m.alloc.now ≤ a.now) : (m.leave a tape).Sound cfg ours backend streamOf := by
  obtain ⟨hlast, hrising, hclock⟩ := h.leave hmean hnow
  have hbeside := goes_beside (hmean.reach hnow (Nat.le_refl _))
  have hbytes : ∀ b ∈ (tape a.now).live,
      (tape a.now).alloc.pool.SameBytes a.pool ((tape a.now).blockOf b) := by
    obtain ⟨uses, S, hm, -⟩ := hlast.models _ (agrees_always _ _)
    intro b hb
    exact hstay uses S hm _ (List.mem_map_of_mem hb)
  exact {
    queues := hlast.queues
    placed := hlast.placed.turn (m.leave a tape).past (List.Sublist.refl _) hlast.placed.held hbytes
    rising := hrising
    models := by
      intro k hk
      obtain ⟨htruthful, hagrees⟩ := hclock k hk
      rw [← hbeside.alloc] at hagrees
      obtain ⟨uses, S, hm, hrecorded⟩ := hlast.models k hagrees
      obtain ⟨T, hT⟩ := hmodels k uses S htruthful hm
      exact ⟨uses, T, hT, hrecorded⟩ }

/-! ## What a call of the allocator leaves -/

theorem Sound.threw (h : m.Sound cfg ours backend streamOf)
    (hmean : Meanwhile ours backend streamOf m env tape a.now) {e : Exn} {size alignment : Nat}
    {timeline : Option Timeline} (sized : size < 2 ^ 64)
    (thrown : CachingMemoryAllocator.allocateForTimeline cfg env size alignment timeline m.alloc
      = (.error e, a)) : (m.leave a tape).Sound cfg ours backend streamOf := by
  have hnow := h.now_le env a (m.live.map m.queues.world.buffers) fun uses => .threw sized thrown
  have halloc := (goes_beside (hmean.reach hnow (Nat.le_refl _))).alloc
  rw [← halloc] at thrown
  refine h.left hmean ?_ ?_ hnow
  · intro uses S hm
    exact wp_thrown (hm.allocate_stay (.always env)) thrown
  · intro k uses S henv hm
    obtain ⟨T, -, hT⟩ := hm.step henv (.threw sized thrown)
    exact ⟨T, hT⟩

theorem Sound.trimmed (h : m.Sound cfg ours backend streamOf)
    (hmean : Meanwhile ours backend streamOf m env tape
      (MemoryBlockAllocator.trim cfg env m.alloc).2.now) :
    (m.leave (MemoryBlockAllocator.trim cfg env m.alloc).2 tape).Sound cfg ours backend
      streamOf := by
  have hnow := h.now_le env (MemoryBlockAllocator.trim cfg env m.alloc).2
    (m.live.map m.queues.world.buffers) fun uses => @Buffers.Step.trimmed cfg env (m.buffers uses)
  have halloc := (goes_beside (hmean.reach hnow (Nat.le_refl _))).alloc
  refine h.left hmean ?_ ?_ hnow
  · intro uses S hm
    have hstay := hm.trim_stay (.always env)
    rw [show ((tape _).buffers uses).alloc = m.alloc from halloc] at hstay
    exact hstay
  · intro k uses S henv hm
    obtain ⟨T, -, hT⟩ := hm.step henv .trimmed
    rw [show ((tape _).buffers uses).alloc = m.alloc from halloc] at hT
    exact ⟨T, hT⟩

/-- Where nothing answers, nothing needs to go on. -/
theorem meanwhile_unanswered (m : Plugin σ) {env : Environment}
    (hcomplete : ∀ n c, env.isComplete n c = none) (hwait : ∀ n c, env.wait n c = false)
    (last : Nat) : Meanwhile ours backend streamOf m env (fun _ => m) last where
  entered := .refl
  goes _ _ _ := .refl
  isComplete n c complete h := by
    rw [hcomplete] at h
    cases h
  wait n c h := by
    rw [hwait] at h
    cases h

theorem Sound.destroyed (h : m.Sound cfg ours backend streamOf) {before after : List BufferId}
    {b : BufferId} (room : Nat → Bool) (has : m.live = before ++ b :: after)
    (unheld : ∀ call ∈ m.queues.calls, call.phase.over = false →
      .own b ∉ call.command.operands) :
    ({ m.leave (MemoryBlockAllocator.recycle (silent room) (m.queues.world.buffers b).block
        (m.queues.world.buffers b).uses m.alloc).2 (fun _ => m) with
      live := before ++ after }).Sound cfg ours backend streamOf := by
  have hlive : ∀ uses, (m.buffers uses).live = before.map m.queues.world.buffers ++
      m.queues.world.buffers b :: after.map m.queues.world.buffers := by
    intro uses
    simp [buffers, has]
  have hnow := h.now_le (silent room) (MemoryBlockAllocator.recycle (silent room)
      (m.queues.world.buffers b).block (m.queues.world.buffers b).uses m.alloc).2
    (before.map m.queues.world.buffers ++ after.map m.queues.world.buffers)
    fun uses => .destroyed (hlive uses)
  obtain ⟨hm, hrising, hclock⟩ := h.leave
    (meanwhile_unanswered m (show ∀ n c, (silent room).isComplete n c = none from fun _ _ => rfl)
      (fun _ _ => rfl) _) hnow
  have hsub : (before ++ after).Sublist m.live := by
    rw [has]
    exact (List.Sublist.refl before).append (List.sublist_cons_self b after)
  refine ⟨h.queues, h.placed.turn _ hsub ?_ ?_, ⟨hrising.past, hrising.present⟩, ?_⟩
  · intro call hcall hover b' hb' hours
    have hmem := h.placed.held call hcall hover b' hb' hours
    rw [has] at hmem
    have hne : b' ≠ b := by
      rintro rfl
      exact unheld call hcall hover hb'
    simpa [hne] using hmem
  · obtain ⟨uses, S, hm, -⟩ := h.models _ (agrees_always _ _)
    have hstay := hm.recycle_stay (silent room) (hlive uses)
    intro b' hb'
    apply hstay
    rw [← List.map_append]
    exact List.mem_map_of_mem hb'
  · intro k hk
    obtain ⟨henv, hagrees⟩ := hclock k hk
    obtain ⟨uses, S, hm, hrecorded⟩ := h.models k hagrees
    obtain ⟨T, -, hT⟩ := hm.destroyed henv (hlive uses)
    rw [← List.map_append] at hT
    exact ⟨uses, T, hT, hrecorded⟩

/-! ## What a buffer is handed out with -/

/-- Nobody was told of a buffer that has just been made. -/
theorem lasting_make {q : Queues σ} (h : q.Lasting streamOf backend) {b : BufferId}
    (hunused : (q.world.buffers b).uses = []) (buffer : CudaBuffer) :
    ({ q with world := { q.world with
      buffers := Function.update q.world.buffers b buffer } }).Lasting streamOf backend := by
  have htold : ∀ k operand, q.world.Told k operand → World.Told
      { q.world with buffers := Function.update q.world.buffers b buffer } k operand := by
    rintro k operand ⟨b', rfl, use, hmem, hcovers⟩
    have hne : b' ≠ b := by
      rintro rfl
      rw [hunused] at hmem
      cases hmem
    refine ⟨b', rfl, use, ?_, hcovers⟩
    show use ∈ (Function.update q.world.buffers b buffer b').uses
    rw [Function.update_of_ne hne]
    exact hmem
  have hgrows : ∀ c, Grows c q.world
      { q.world with buffers := Function.update q.world.buffers b buffer } := fun c =>
    ⟨fun _ _ _ h => h, .refl, fun _ _ h => h, htold, fun _ h => h⟩
  exact {
    sound := ⟨h.sound.timelines, fun c call hcall => (h.sound.calls c call hcall).grows (hgrows c),
      h.sound.claimed⟩
    ascending := h.ascending
    behind := h.behind }

theorem Sound.allocated (h : m.Sound cfg ours backend streamOf)
    (hmean : Meanwhile ours backend streamOf m env tape a.now) {buffer : CudaBuffer}
    {pending : CommandToken} {size alignment : Nat} {timeline : Option Timeline} {b : BufferId}
    (sized : size < 2 ^ 64)
    (returned : CachingMemoryAllocator.allocateForTimeline cfg env size alignment timeline m.alloc
      = (.ok (buffer, pending), a)) (own : ours b = true) (fresh : m.made ≤ b) :
    ((m.leave a tape).make b buffer pending).Sound cfg ours backend streamOf := by
  have hnow := h.now_le env a (buffer :: m.live.map m.queues.world.buffers) fun uses =>
    .allocated sized returned
  obtain ⟨hlast, hrising, hclock⟩ := h.leave hmean hnow
  have hbeside := goes_beside (hmean.reach hnow (Nat.le_refl _))
  rw [← hbeside.alloc] at returned
  have hstay : ∀ uses S, Buffers.Models cfg (Clock.always Timeline) ((tape a.now).buffers uses) S →
      ((tape a.now).buffers uses).Stay a := fun uses S hm =>
    wp_returned (hm.allocate_stay (.always env)) returned
  -- the allocator's side of the call, by any clock
  have hmodels : ∀ k : Clock Timeline, k.Agrees ((m.leave a tape).done backend) a.now →
      ∃ uses T, buffer.uses = pending.toList.map some ∧ (tape a.now).Recorded uses ∧
        Buffers.Models cfg k
          ⟨a, buffer :: (tape a.now).live.map (tape a.now).queues.world.buffers, uses⟩ T := by
    intro k hk
    obtain ⟨henv, hagrees⟩ := hclock k hk
    rw [← hbeside.alloc] at hagrees
    obtain ⟨uses, S, hm, hrecorded⟩ := hlast.models k hagrees
    obtain ⟨huses, T, -, hT⟩ := wp_returned (hm.allocateForTimeline henv sized) returned
    exact ⟨uses, T, huses, hrecorded, hT⟩
  obtain ⟨uses₀, S₀, hm₀, -⟩ := hlast.models _ (agrees_always _ _)
  have hbytes : ∀ b ∈ (tape a.now).live,
      (tape a.now).alloc.pool.SameBytes a.pool ((tape a.now).blockOf b) :=
    fun b hb => hstay uses₀ S₀ hm₀ _ (List.mem_map_of_mem hb)
  have hplaced : (m.leave a tape).Placed ours :=
    hlast.placed.turn (m.leave a tape).past (List.Sublist.refl _) hlast.placed.held hbytes
  have hmade : (m.leave a tape).made ≤ b := by
    show (tape a.now).made ≤ b
    rw [hbeside.made]
    exact fresh
  refine ⟨?_, hplaced.make own hmade ?_, ⟨hrising.past, hrising.present⟩, ?_⟩
  · exact lasting_make hlast.queues (hlast.placed.unmade b own (hbeside.made ▸ fresh)) buffer
  · intro t ht g x hspans hhas
    obtain ⟨k, hagrees, hk⟩ := hrising.clock
    obtain ⟨uses, T, huses, hrecorded, hT⟩ := hmodels k hagrees
    have hself : ((m.leave a tape).make b buffer pending).blockOf b = buffer.block := by
      simp [blockOf, Plugin.make]
    unfold Spans at hspans
    rw [hself] at hspans
    obtain ⟨rfl, hx⟩ := hspans
    have hheap := hhas.1
    exact hlast.settled huses hrecorded hbytes hT (fun c => hk a.now c (Nat.le_refl _)) ht
      hheap.symm hx (hheap ▸ hhas)
  · intro k hk
    obtain ⟨uses, T, -, hrecorded, hT⟩ := hmodels k hk
    refine ⟨uses, T, ?_, hrecorded⟩
    have hlive : ((m.leave a tape).make b buffer pending).live.map
        ((m.leave a tape).make b buffer pending).queues.world.buffers =
        buffer :: (tape a.now).live.map (tape a.now).queues.world.buffers := by
      simp only [Plugin.make, List.map_cons, Function.update_self]
      congr 1
      apply List.map_congr_left
      intro b' hb'
      refine Function.update_of_ne ?_ ..
      -- the buffers there are were made before
      rintro rfl
      exact Nat.not_lt.mpr hmade (hlast.placed.alive b' hb').2
    unfold buffers
    rw [hlive]
    exact hT

/-! ## Every reachable state -/

theorem Sound.step (h : m.Sound cfg ours backend streamOf)
    (hstep : Step cfg ours backend streamOf m m') : m'.Sound cfg ours backend streamOf := by
  cases hstep with
  | went goes => exact h.goes goes
  | allocated sized meanwhile returned own fresh =>
      exact h.allocated meanwhile sized returned own fresh
  | threw sized meanwhile thrown => exact h.threw meanwhile sized thrown
  | trimmed meanwhile => exact h.trimmed meanwhile
  | destroyed room has unheld => exact h.destroyed room has unheld

theorem Sound.reachable {elsewhere : BufferId → CudaBuffer} {finished : Command → Bool}
    (hrun : ReflTransGen (Step cfg ours backend streamOf) (Plugin.start ours elsewhere finished) m) :
    m.Sound cfg ours backend streamOf :=
  Runs.invariant (fun _ _ h hstep => h.step hstep) hrun (.start cfg elsewhere finished)

end Goes

end Plugin

end RexlibCuda
