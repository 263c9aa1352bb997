import RexlibCuda.PluginClock

/-! What becomes of the calls of `submit` while the queues go on: a call keeps
what it was called with, one that has ended stays as it is, and whatever a call
has told its operands they were told by a step of its own. -/

namespace RexlibCuda

open Completion Prog Streams

variable {σ : Type}

/-- The last synchronization of the call failed: nothing keeps track of what it
may have issued. -/
def SubmitPhase.abandoned : SubmitPhase → Bool
  | .threw _ (some false) => true
  | _ => false

/-- The operand was told that the command uses it. -/
def SubmitCall.HasTold (call : SubmitCall) (operand : Operand) (k : Command) : Prop :=
  match call.phase with
  | .recordingUse id rest => k = ⟨call.queue, id⟩ ∧
      ∃ told, call.command.operands = told ++ rest ∧ operand ∈ told
  | .returned (some k') => k = k' ∧ operand ∈ call.command.operands
  | _ => False

/-- The call has ended. If it was not abandoned, its work has finished, or it
has returned the token of a command of which `P` holds. -/
def Queues.Settled (q : Queues σ) (c : Nat) (P : Command → Prop) : Prop :=
  ∃ call, q.calls[c]? = some call ∧ call.phase.over = true ∧ (call.phase.abandoned = true ∨
    q.world.Finished c ∨ ∃ k, call.phase = .returned (some k) ∧ P k)

/-- What any later state of the queues keeps. -/
structure Queues.Follows (q q' : Queues σ) : Prop where
  call : ∀ (c : Nat) (call : SubmitCall), q.calls[c]? = some call →
    ∃ call' : SubmitCall, q'.calls[c]? = some call' ∧
      call'.queue = call.queue ∧ call'.command = call.command ∧ call'.begun = call.begun ∧
      (call.phase.over = true → call' = call)
  finished : ∀ (c : Nat) (call : SubmitCall), q.calls[c]? = some call → call.phase.over = true →
    q.world.Finished c → q'.world.Finished c

section Follows

variable {q q' q'' : Queues σ} {c : Nat} {P P' : Command → Prop}

theorem Queues.Settled.mono (h : q.Settled c P) (hP : ∀ k, P k → P' k) : q.Settled c P' := by
  obtain ⟨call, hcall, hover, hend⟩ := h
  refine ⟨call, hcall, hover, hend.imp_right (Or.imp_right ?_)⟩
  rintro ⟨k, hphase, hk⟩
  exact ⟨k, hphase, hP k hk⟩

theorem Queues.Settled.follows (h : q.Settled c P) (hq : q.Follows q') : q'.Settled c P := by
  obtain ⟨call, hcall, hover, hend⟩ := h
  obtain ⟨call', hcall', -, -, -, hsame⟩ := hq.call c call hcall
  obtain rfl := hsame hover
  exact ⟨call', hcall', hover, hend.imp_right (Or.imp_left (hq.finished c call' hcall hover))⟩

end Follows

section Step

variable [DecidableEq σ] {backend : Timeline → Bool} {streamOf : Timeline → σ} {q q' : Queues σ}
  {c : Nat} {w w' : World σ} {call call' : SubmitCall} {operand : Operand} {k : Command}

/-- A call that has ended does not go on. -/
theorem Advance.not_over (h : Advance backend streamOf c w call w' call') :
    call.phase.over = false := by
  cases h <;> simp_all [SubmitPhase.over]

/-- A call whose index stays its own is where it was, or went on. -/
theorem Queues.set_call {calls : List SubmitCall} {d : Nat} (has : calls[d]? = some call)
    {other : SubmitCall} (hc : (calls.set d call')[c]? = some other) :
    c = d ∧ other = call' ∨ c ≠ d ∧ calls[c]? = some other := by
  by_cases hcd : c = d
  · subst hcd
    rw [List.getElem?_set_self (List.getElem?_eq_some_iff.mp has).1] at hc
    exact .inl ⟨rfl, (Option.some.inj hc).symm⟩
  · rw [List.getElem?_set_ne (Ne.symm hcd)] at hc
    exact .inr ⟨hcd, hc⟩

theorem Queues.Step.follows (hs : q.Sound streamOf backend)
    (hstep : Queues.Step backend streamOf q q') : q.Follows q' := by
  have hgrows : ∀ {c : Nat}, Grows c q.world q'.world → q.world.Finished c → q'.world.Finished c :=
    fun hg h => h.grows hg
  cases hstep with
  | submitted queue cmd stream =>
      refine ⟨?_, fun _ _ _ _ h => h⟩
      intro c call hcall
      refine ⟨call, ?_, rfl, rfl, rfl, fun _ => rfl⟩
      rw [List.getElem?_append_left (List.getElem?_eq_some_iff.mp hcall).1]
      exact hcall
  | @advanced d here after w has advance =>
      constructor
      · intro c call hcall
        by_cases hcd : c = d
        · subst hcd
          rw [has] at hcall
          cases hcall
          obtain ⟨hqueue, hcommand, hbegun⟩ := advance.call_eq
          refine ⟨after, List.getElem?_set_self (List.getElem?_eq_some_iff.mp has).1, hqueue,
            hcommand, hbegun, fun hover => ?_⟩
          rw [advance.not_over] at hover
          cases hover
        · exact ⟨call, by rw [List.getElem?_set_ne (Ne.symm hcd)]; exact hcall, rfl, rfl, rfl,
            fun _ => rfl⟩
      · intro c call hcall hover
        apply hgrows
        apply advance.grows hs.timelines
        -- a call that has ended is not the one that goes on
        refine .inl ?_
        rintro rfl
        rw [has] at hcall
        cases hcall
        rw [advance.not_over] at hover
        cases hover
  | other step unclaimed =>
      exact ⟨fun _ call h => ⟨call, h, rfl, rfl, rfl, fun _ => rfl⟩,
        fun c _ _ _ => hgrows (.step hs.timelines step (unclaimed c))⟩
  | used used => exact ⟨fun _ call h => ⟨call, h, rfl, rfl, rfl, fun _ => rfl⟩, fun _ _ _ _ h => h⟩
  | finished k => exact ⟨fun _ call h => ⟨call, h, rfl, rfl, rfl, fun _ => rfl⟩, fun _ _ _ _ h => h⟩

/-! ## Telling the operands -/

/-- A call that has just begun has told nobody. -/
theorem SubmittedCommand.not_hasTold {queue : Timeline} {cmd : SubmittedCommand} {begun : Nat} :
    ¬ SubmitCall.HasTold ⟨queue, cmd, begun, none, cmd.begin⟩ operand k := by
  unfold SubmitCall.HasTold SubmittedCommand.begin
  cases cmd.program <;> simp

/-- A call tells an operand in one step, which records the use. -/
theorem Advance.buffers (hcall : call.Sound streamOf backend w c)
    (h : Advance backend streamOf c w call w' call') :
    (w'.buffers = w.buffers ∧ ∀ operand k, call'.HasTold operand k → call.HasTold operand k) ∨
      ∃ b room token buffer, (w.buffers b).recordUse room token = some buffer ∧
        w'.buffers = Function.update w.buffers b buffer ∧
        ∀ operand k, call'.HasTold operand k → call.HasTold operand k ∨
          operand = .own b ∧ .own b ∈ call.command.operands ∧ token = some k := by
  cases h with
  | recorded here own returned =>
      refine .inl ⟨rfl, ?_⟩
      rintro operand k ⟨-, told, htold, hmem⟩
      obtain rfl : told = [] := by simpa using htold
      cases hmem
  | @useRecorded id b rest room buffer here used =>
      refine .inr ⟨b, room, _, buffer, used, rfl, ?_⟩
      rintro operand k ⟨rfl, told, htold, hmem⟩
      have hprogress := hcall.progress
      rw [here] at hprogress
      obtain ⟨-, past, hpast, -⟩ := hprogress
      -- the operands that were told before, and this one
      have heq : told = past ++ [.own b] := by
        have happend : told ++ rest = (past ++ [.own b]) ++ rest := by
          rw [← htold, hpast]
          simp
        exact List.append_cancel_right happend
      rw [heq] at hmem
      rcases List.mem_append.mp hmem with hmem | hmem
      · left
        unfold SubmitCall.HasTold
        rw [here]
        exact ⟨rfl, past, hpast, hmem⟩
      · exact .inr ⟨List.mem_singleton.mp hmem, by rw [hpast]; simp, rfl⟩
  | tracked here =>
      refine .inl ⟨rfl, ?_⟩
      rintro operand k ⟨rfl, hmem⟩
      unfold SubmitCall.HasTold
      rw [here]
      exact ⟨rfl, _, by simp, hmem⟩
  | workIssued here => exact .inl ⟨rfl, fun _ _ h => h⟩
  | _ => exact .inl ⟨rfl, fun _ _ h => absurd h id⟩

/-- What a step has newly told, it told one operand, and recorded it. -/
def Queues.Tells (q q' : Queues σ) (b : BufferId) (token : CommandToken) : Prop :=
  ∀ (c : Nat) (call' : SubmitCall), q'.calls[c]? = some call' →
    ∀ operand k, call'.HasTold operand k → ∃ call : SubmitCall, q.calls[c]? = some call ∧
      (call.HasTold operand k ∨ call.phase.over = false ∧ operand = .own b ∧
        .own b ∈ call.command.operands ∧ token = some k)

/-- Nothing is newly told. -/
def Queues.Silent (q q' : Queues σ) : Prop :=
  ∀ (c : Nat) (call' : SubmitCall), q'.calls[c]? = some call' →
    ∀ operand k, call'.HasTold operand k → ∃ call : SubmitCall, q.calls[c]? = some call ∧
      call.HasTold operand k

omit [DecidableEq σ] in
theorem Queues.Silent.of_calls (h : q'.calls = q.calls) : q.Silent q' := by
  intro c call' hcall' operand k htold
  exact ⟨call', h ▸ hcall', htold⟩

omit [DecidableEq σ] in
theorem Queues.Silent.tells (h : q.Silent q') (b : BufferId) (token : CommandToken) :
    q.Tells q' b token := by
  intro c call' hcall' operand k htold
  obtain ⟨call, hcall, htold⟩ := h c call' hcall' operand k htold
  exact ⟨call, hcall, .inl htold⟩

/-- **What a step does to the buffers**: nothing, or it records a use of one. -/
theorem Queues.Step.buffers (hs : q.Sound streamOf backend)
    (hstep : Queues.Step backend streamOf q q') :
    (q'.world.buffers = q.world.buffers ∧ q.Silent q') ∨
      ∃ b room token buffer, (q.world.buffers b).recordUse room token = some buffer ∧
        q'.world.buffers = Function.update q.world.buffers b buffer ∧ q.Tells q' b token := by
  cases hstep with
  | submitted queue cmd stream =>
      refine .inl ⟨rfl, ?_⟩
      intro c call' hcall' operand k htold
      rcases Nat.lt_or_ge c q.calls.length with hlt | hge
      · rw [List.getElem?_append_left hlt] at hcall'
        exact ⟨call', hcall', htold⟩
      · rw [List.getElem?_append_right hge, List.getElem?_singleton] at hcall'
        split at hcall'
        · cases hcall'
          exact absurd htold SubmittedCommand.not_hasTold
        · cases hcall'
  | @advanced d call after w has advance =>
      rcases advance.buffers (hs.calls d call has) with
        ⟨hbuffers, htold⟩ | ⟨b, room, token, buffer, hused, hbuffers, htold⟩
      · refine .inl ⟨hbuffers, ?_⟩
        intro c call' hcall' operand k hk
        rcases Queues.set_call has hcall' with ⟨rfl, rfl⟩ | ⟨-, hcall'⟩
        · exact ⟨call, has, htold operand k hk⟩
        · exact ⟨call', hcall', hk⟩
      · refine .inr ⟨b, room, token, buffer, hused, hbuffers, ?_⟩
        intro c call' hcall' operand k hk
        rcases Queues.set_call has hcall' with ⟨rfl, rfl⟩ | ⟨-, hcall'⟩
        · exact ⟨call, has, (htold operand k hk).imp_right fun h => ⟨advance.not_over, h⟩⟩
        · exact ⟨call', hcall', .inl hk⟩
  | other step unclaimed => exact .inl ⟨rfl, .of_calls rfl⟩
  | used used => exact .inr ⟨_, _, _, _, used, rfl, (Queues.Silent.of_calls rfl).tells _ _⟩
  | finished k => exact .inl ⟨rfl, .of_calls rfl⟩

end Step

end RexlibCuda
