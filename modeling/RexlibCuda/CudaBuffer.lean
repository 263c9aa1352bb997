import RexlibCuda.MemoryBlockPool

/-! `cuda_buffer`: a block that is handed out, with the commands that use it. -/

namespace RexlibCuda

open Completion

structure CudaBuffer where
  /-- `m_block` -/
  block : BlockId
  /-- `m_uses` -/
  uses : List CommandToken
  /-- `m_host_data`, where `none` is the null pointer. -/
  hostData : Option Nat

namespace CudaBuffer

/-- The `find_if` of `record_use` and what is assigned to what it finds. `none`
when no use is of the timeline of the token. -/
def replaceUse (token : CommandToken) : List CommandToken → Option (List CommandToken)
  | [] => none
  | use :: uses =>
      if use.getTimeline = token.getTimeline then
        some ((if token.getId > use.getId then token else use) :: uses)
      else (replaceUse token uses).map (use :: ·)

/-- `record_use`. When the token needs an element of its own there has to be
`room` for it in the memory of the host, or else `std::bad_alloc` is thrown:
`none`. -/
def recordUse (room : Bool) (token : CommandToken) (buffer : CudaBuffer) : Option CudaBuffer :=
  if token.isEmpty then some buffer
  else
    match replaceUse token buffer.uses with
    | some uses => some { buffer with uses }
    | none => if room then some { buffer with uses := buffer.uses ++ [token] } else none

variable {room : Bool} {token : CommandToken} {buffer buffer' : CudaBuffer} {c d : Command}

/-- Every use stays, or makes way for a later command of its timeline. -/
theorem replaceUse_covers {uses uses' : List CommandToken}
    (h : replaceUse (some c) uses = some uses') :
    (∃ t ∈ uses', Covers t c) ∧ ∀ t ∈ uses, ∀ d ∈ t, ∃ t' ∈ uses', Covers t' d := by
  induction uses generalizing uses' with
  | nil => cases h
  | cons use uses ih =>
      by_cases htl : use.getTimeline = CommandToken.getTimeline (some c)
      · simp only [replaceUse, if_pos htl, Option.some.injEq] at h
        subst h
        cases use with
        | none => simp at htl
        | some d =>
            have htl : d.timeline = c.timeline := by simpa using htl
            have hid : CommandToken.getId (some c) = c.id := rfl
            have hid' : CommandToken.getId (some d) = d.id := rfl
            have hrest : ∀ t ∈ uses, ∀ e ∈ t, ∀ u, ∃ t' ∈ u :: uses, Covers t' e := by
              intro t ht e he u
              exact ⟨t, List.mem_cons_of_mem u ht, Option.mem_def.mp he ▸ Covers.self e⟩
            rw [hid, hid']
            by_cases hlt : c.id > d.id
            · -- the token is later, and takes the place of the use
              rw [if_pos hlt]
              refine ⟨⟨some c, List.mem_cons_self, Covers.self c⟩, ?_⟩
              intro t ht e he
              rcases List.mem_cons.mp ht with rfl | ht
              · obtain rfl : d = e := Option.some.inj he
                exact ⟨some c, List.mem_cons_self, c, rfl, htl.symm, Nat.le_of_lt hlt⟩
              · exact hrest t ht e he _
            · -- the use is as late, and stays
              rw [if_neg hlt]
              refine ⟨⟨some d, List.mem_cons_self, d, rfl, htl, by omega⟩, ?_⟩
              intro t ht e he
              rcases List.mem_cons.mp ht with rfl | ht
              · obtain rfl : d = e := Option.some.inj he
                exact ⟨some d, List.mem_cons_self, Covers.self d⟩
              · exact hrest t ht e he _
      · -- another timeline: the search goes on behind the use
        simp only [replaceUse, if_neg htl, Option.map_eq_some_iff] at h
        obtain ⟨left, hleft, rfl⟩ := h
        obtain ⟨⟨t, ht, hc⟩, hold⟩ := ih hleft
        refine ⟨⟨t, List.mem_cons_of_mem use ht, hc⟩, ?_⟩
        intro t ht e he
        rcases List.mem_cons.mp ht with rfl | ht
        · exact ⟨t, List.mem_cons_self, Option.mem_def.mp he ▸ Covers.self e⟩
        · obtain ⟨t', ht', hc'⟩ := hold t ht e he
          exact ⟨t', List.mem_cons_of_mem use ht', hc'⟩

theorem recordUse_block (h : buffer.recordUse room token = some buffer') :
    buffer'.block = buffer.block := by
  unfold recordUse at h
  split at h
  · rw [← Option.some.inj h]
  · split at h
    · rw [← Option.some.inj h]
    · split at h
      · rw [← Option.some.inj h]
      · cases h

/-- **`record_use` loses no command**: the uses it leaves cover the command of
the token and all that was recorded before. -/
theorem recordUse_covers (h : buffer.recordUse room token = some buffer') :
    (∀ c ∈ token, ∃ t ∈ buffer'.uses, Covers t c) ∧
      ∀ t ∈ buffer.uses, ∀ d ∈ t, ∃ t' ∈ buffer'.uses, Covers t' d := by
  cases token with
  | none =>
      obtain rfl : buffer = buffer' := Option.some.inj h
      exact ⟨nofun, fun t ht d hd => ⟨t, ht, Option.mem_def.mp hd ▸ Covers.self d⟩⟩
  | some c =>
      simp only [recordUse, CommandToken.isEmpty, Option.isNone_some, Bool.false_eq_true,
        if_false] at h
      split at h
      · rename_i uses huses
        obtain rfl := Option.some.inj h
        obtain ⟨hc, hold⟩ := replaceUse_covers huses
        refine ⟨?_, hold⟩
        intro d hd
        obtain rfl : c = d := Option.some.inj hd
        exact hc
      · split at h
        · obtain rfl := Option.some.inj h
          constructor
          · intro d hd
            obtain rfl : c = d := Option.some.inj hd
            exact ⟨some c, by simp, Covers.self c⟩
          · intro t ht d hd
            exact ⟨t, List.mem_append_left _ ht, Option.mem_def.mp hd ▸ Covers.self d⟩
        · cases h

end CudaBuffer

end RexlibCuda
