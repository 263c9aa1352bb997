import RexlibCuda.CachingMemoryAllocator

/-! What a `cuda_buffer` has recorded: the latest command of each timeline
among the token its block came with and all the tokens recorded since, in
whatever order they came. `record_use` holds the lock of the buffer all along,
so calls from several threads are calls in some order. -/

namespace RexlibCuda

open Completion Prog

namespace CudaBuffer

variable {room : Bool} {token : CommandToken} {tokens tokens' recorded : List CommandToken}
  {uses uses' : List CommandToken} {buffer buffer' final final' : CudaBuffer} {c : Command}

/-- Where `record_use` finds a use of the timeline of the token. -/
theorem replaceUse_some (h : replaceUse token uses = some uses') :
    ∃ l use r, uses = l ++ use :: r ∧ use.getTimeline = token.getTimeline ∧
      uses' = l ++ (if token.getId > use.getId then token else use) :: r := by
  induction uses generalizing uses' with
  | nil => simp [replaceUse] at h
  | cons use uses ih =>
      by_cases htl : use.getTimeline = token.getTimeline
      · simp only [replaceUse, if_pos htl, Option.some.injEq] at h
        exact ⟨[], use, uses, rfl, htl, h.symm⟩
      · simp only [replaceUse, if_neg htl, Option.map_eq_some_iff] at h
        obtain ⟨left, hleft, rfl⟩ := h
        obtain ⟨l, found, r, rfl, htl', rfl⟩ := ih hleft
        exact ⟨use :: l, found, r, rfl, htl', rfl⟩

/-- Where it finds none there is none. -/
theorem replaceUse_none (h : replaceUse token uses = none) :
    ∀ use ∈ uses, use.getTimeline ≠ token.getTimeline := by
  induction uses with
  | nil => simp
  | cons use uses ih =>
      by_cases htl : use.getTimeline = token.getTimeline
      · simp [replaceUse, htl] at h
      · simp only [replaceUse, if_neg htl, Option.map_eq_none_iff] at h
        intro found hfound
        rcases List.mem_cons.mp hfound with rfl | hfound
        · exact htl
        · exact ih h found hfound

/-- **One call of `record_use`**: the uses stay the latest commands of all that
was recorded. -/
theorem recordUse_latest (hl : Latest tokens buffer.uses)
    (h : buffer.recordUse room token = some buffer') : Latest (token :: tokens) buffer'.uses := by
  cases token with
  | none =>
      obtain rfl : buffer = buffer' := Option.some.inj h
      exact hl.empty
  | some c =>
      simp only [recordUse, CommandToken.isEmpty, Option.isNone_some, Bool.false_eq_true,
        if_false] at h
      split at h
      · rename_i uses huses
        obtain rfl := Option.some.inj h
        obtain ⟨l, use, r, hsplit, htl, rfl⟩ := replaceUse_some huses
        rw [hsplit] at hl
        obtain ⟨d, rfl, -⟩ := hl.latest use (by simp)
        have ht : c.timeline = d.timeline := (Option.some.inj htl).symm
        show Latest _ (l ++ (if c.id > d.id then some c else some d) :: r)
        split
        · rename_i hlt
          exact hl.replace ht (Nat.le_of_lt hlt)
        · rename_i hge
          exact hl.keep (by simp) ht (Nat.le_of_not_gt hge)
      · rename_i hnone
        split at h
        · obtain rfl := Option.some.inj h
          apply hl.append
          intro hmem
          obtain ⟨use, huse, htl⟩ := List.mem_map.mp hmem
          exact replaceUse_none hnone use huse htl
        · cases h

/-- Recording what has been recorded changes nothing, and needs no room. -/
theorem recordUse_again (hl : Latest tokens buffer.uses) (htoken : token ∈ tokens) :
    buffer.recordUse room token = some buffer := by
  cases token with
  | none => rfl
  | some c =>
      simp only [recordUse, CommandToken.isEmpty, Option.isNone_some, Bool.false_eq_true, if_false]
      cases huses : replaceUse (some c) buffer.uses with
      | none =>
          obtain ⟨d, hd, ht⟩ := hl.every c htoken
          exact absurd (congrArg some ht) (replaceUse_none huses _ hd)
      | some uses =>
          obtain ⟨l, use, r, hsplit, htl, rfl⟩ := replaceUse_some huses
          obtain ⟨d, rfl, -, hmax⟩ := hl.latest use (by simp [hsplit])
          have hid := hmax c htoken (Option.some.inj htl).symm
          -- the use that is found is as late as the token
          have hstays : ¬ CommandToken.getId (some c) > CommandToken.getId (some d) := by
            simpa using hid
          rw [if_neg hstays, ← hsplit]

/-- These tokens were recorded one after the other, and every call returned. -/
inductive Records : CudaBuffer → List CommandToken → CudaBuffer → Prop
  | nil {buffer : CudaBuffer} : Records buffer [] buffer
  | cons {buffer buffer' final : CudaBuffer} {room : Bool} {token : CommandToken}
      {tokens : List CommandToken} (recorded : buffer.recordUse room token = some buffer')
      (rest : Records buffer' tokens final) : Records buffer (token :: tokens) final

/-- Where there is room any token can be recorded. -/
theorem recordUse_room (buffer : CudaBuffer) (token : CommandToken) :
    ∃ buffer', buffer.recordUse true token = some buffer' := by
  unfold recordUse
  split
  · exact ⟨_, rfl⟩
  · split <;> exact ⟨_, rfl⟩

/-- So can any number of tokens. -/
theorem Records.total (tokens : List CommandToken) :
    ∀ buffer, ∃ final, Records buffer tokens final := by
  induction tokens with
  | nil => exact fun buffer => ⟨buffer, .nil⟩
  | cons token tokens ih =>
      intro buffer
      obtain ⟨buffer', h⟩ := recordUse_room buffer token
      obtain ⟨final, hrest⟩ := ih buffer'
      exact ⟨final, .cons h hrest⟩

/-- One more can be recorded in the end. -/
theorem Records.append (h : Records buffer tokens final)
    (hnext : final.recordUse room token = some final') :
    Records buffer (tokens ++ [token]) final' := by
  induction h with
  | nil => exact .cons hnext .nil
  | cons hrecorded _ ih => exact .cons hrecorded (ih hnext)

/-- **Any number of calls of `record_use`** leave the latest commands of all
that was recorded. -/
theorem Records.latest (h : Records buffer tokens final) (hl : Latest recorded buffer.uses) :
    Latest (tokens.reverse ++ recorded) final.uses := by
  induction h generalizing recorded with
  | nil => exact hl
  | cons hrecorded _ ih =>
      have hrest := ih (recordUse_latest hl hrecorded)
      simpa using hrest

end CudaBuffer

namespace CachingMemoryAllocator

open MemoryBlockAllocator

variable {env : Environment} {s t : MemoryBlockAllocator} {b : BlockId} {hostData : Option Nat}
  {buffer final : CudaBuffer} {tokens : List CommandToken}

/-- The token of the block is recorded by the constructor. -/
theorem makeBuffer_latest (h : makeBuffer env b hostData s = (.ok buffer, t)) :
    Latest [(s.pool.block b).pending] buffer.uses := by
  have hspec : wp (makeBuffer env b hostData)
      (fun buffer _ => Latest [(s.pool.block b).pending] buffer.uses) (fun _ _ => True) s := by
    simp only [makeBuffer, wp_bind, wp_get]
    cases (s.pool.block b).pending with
    | none => exact Latest.nil.empty
    | some c =>
        show wp (do hostAllocate env; pure (⟨b, [some c], hostData⟩ : CudaBuffer)) _ _ s
        simp only [wp_bind, wp_hostAllocate, wp_pure]
        split
        · exact Latest.nil.append (by simp)
        · trivial
  exact wp_returned hspec h

/-- **Recorded uses are the latest command of each timeline, whatever the
order**: of the token the block came with and of all that was recorded there
is one token for each timeline that occurs, the latest, and no other. Any
other order comes to the same tokens, recording any of them again changes
nothing, and where there is room any other can be recorded next. -/
theorem recorded_uses (hmade : makeBuffer env b hostData s = (.ok buffer, t))
    (hrecorded : CudaBuffer.Records buffer tokens final) :
    Latest ((s.pool.block b).pending :: tokens) final.uses ∧
    (∀ tokens', tokens.Perm tokens' → (∃ final', CudaBuffer.Records buffer tokens' final') ∧
      ∀ final', CudaBuffer.Records buffer tokens' final' → final.uses.Perm final'.uses) ∧
    (∀ token ∈ (s.pool.block b).pending :: tokens, ∀ room,
      final.recordUse room token = some final) ∧
    ∀ token, ∃ next, final.recordUse true token = some next ∧
      CudaBuffer.Records buffer (tokens ++ [token]) next := by
  have hall : ∀ {tokens' final'}, CudaBuffer.Records buffer tokens' final' →
      Latest ((s.pool.block b).pending :: tokens') final'.uses := by
    intro tokens' final' h
    have hlatest := h.latest (makeBuffer_latest hmade)
    exact hlatest.congr fun c => by simp [or_comm]
  refine ⟨hall hrecorded, ?_, ?_, ?_⟩
  · intro tokens' hperm
    refine ⟨CudaBuffer.Records.total tokens' buffer, ?_⟩
    intro final' h
    have hsame : ∀ c, some c ∈ (s.pool.block b).pending :: tokens' ↔
        some c ∈ (s.pool.block b).pending :: tokens := fun c => (hperm.cons _).symm.mem_iff
    exact (hall hrecorded).perm ((hall h).congr hsame)
  · intro token htoken room
    exact CudaBuffer.recordUse_again (hall hrecorded) htoken
  · intro token
    obtain ⟨next, hnext⟩ := final.recordUse_room token
    exact ⟨next, hnext, hrecorded.append hnext⟩

/-- Two commands of each of two timelines, one of which comes with the block. -/
theorem recorded_uses_two : ∃ buffer t final,
    makeBuffer .generous 0 none { MemoryBlockAllocator.empty with
      pool := MemoryBlockPool.empty.setPending 0 (some ⟨⟨1, Int.one_ne_zero⟩, 3⟩) }
        = (.ok buffer, t) ∧
    CudaBuffer.Records buffer [some ⟨⟨2, two_ne_zero⟩, 5⟩, none, some ⟨⟨1, Int.one_ne_zero⟩, 7⟩,
      some ⟨⟨2, two_ne_zero⟩, 4⟩] final ∧
    final.uses = [some ⟨⟨1, Int.one_ne_zero⟩, 7⟩, some ⟨⟨2, two_ne_zero⟩, 5⟩] ∧
    Latest [some ⟨⟨1, Int.one_ne_zero⟩, 3⟩, some ⟨⟨2, two_ne_zero⟩, 5⟩, none,
      some ⟨⟨1, Int.one_ne_zero⟩, 7⟩, some ⟨⟨2, two_ne_zero⟩, 4⟩] final.uses := by
  have hmade : makeBuffer .generous 0 none { MemoryBlockAllocator.empty with
      pool := MemoryBlockPool.empty.setPending 0 (some ⟨⟨1, Int.one_ne_zero⟩, 3⟩) }
        = (.ok ⟨0, [some ⟨⟨1, Int.one_ne_zero⟩, 3⟩], none⟩, _) := rfl
  have hrecorded : CudaBuffer.Records ⟨0, [some ⟨⟨1, Int.one_ne_zero⟩, 3⟩], none⟩
      [some ⟨⟨2, two_ne_zero⟩, 5⟩, none, some ⟨⟨1, Int.one_ne_zero⟩, 7⟩,
        some ⟨⟨2, two_ne_zero⟩, 4⟩]
      ⟨0, [some ⟨⟨1, Int.one_ne_zero⟩, 7⟩, some ⟨⟨2, two_ne_zero⟩, 5⟩], none⟩ := by
    apply @CudaBuffer.Records.cons _ _ _ true _ _ rfl
    apply @CudaBuffer.Records.cons _ _ _ false _ _ rfl
    apply @CudaBuffer.Records.cons _ _ _ false _ _ rfl
    exact @CudaBuffer.Records.cons _ _ _ false _ _ rfl .nil
  exact ⟨_, _, _, hmade, hrecorded, rfl, (recorded_uses hmade hrecorded).1⟩

end CachingMemoryAllocator

end RexlibCuda
