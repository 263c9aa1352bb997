import Mathlib.Data.Nat.Find
import Mathlib.Logic.Function.Basic
import Mathlib.Logic.Relation

/-! Streams of operations that are each executed in the order they were issued.
A stream can capture a point, which stands for all that was issued on it
before, and wait for a point another one has captured. Every operation gets a
stamp when it is issued, on whatever stream, which is what rules out that
streams wait for each other in a cycle. -/

namespace Streams

variable {σ ω : Type}

/-- A place in a stream: before the operation of that index. -/
structure Point (σ : Type) where
  stream : σ
  position : Nat
deriving DecidableEq

inductive Op (σ ω : Type) where
  | work (w : ω)
  /-- The point right before this operation is captured. -/
  | capture
  | wait (p : Point σ)

structure Issued (σ ω : Type) where
  op : Op σ ω
  stamp : Nat

structure Line (σ ω : Type) where
  ops : List (Issued σ ω)
  executed : Nat

structure Device (σ ω : Type) where
  line : σ → Line σ ω
  /-- How many operations were issued so far, on all streams. -/
  issued : Nat

namespace Device

/-- Nothing has been issued. -/
def empty : Device σ ω := ⟨fun _ => ⟨[], 0⟩, 0⟩

variable (d : Device σ ω)

/-- Where a stream ends. -/
def last (s : σ) : Point σ := ⟨s, (d.line s).ops.length⟩

/-- All that was issued before the point has been executed. -/
def Reached (p : Point σ) : Prop := p.position ≤ (d.line p.stream).executed

instance (p : Point σ) : Decidable (d.Reached p) :=
  inferInstanceAs (Decidable (p.position ≤ (d.line p.stream).executed))

/-- The operation of the stream at an index. -/
def At (s : σ) (i : Nat) (op : Op σ ω) (stamp : Nat) : Prop :=
  (d.line s).ops[i]? = some ⟨op, stamp⟩

/-- The point was captured before `stamp`. -/
def Captured (p : Point σ) (stamp : Nat) : Prop :=
  ∃ earlier < stamp, d.At p.stream p.position .capture earlier

variable [DecidableEq σ]

def issue (s : σ) (op : Op σ ω) : Device σ ω where
  line := Function.update d.line s
    { d.line s with ops := (d.line s).ops ++ [⟨op, d.issued⟩] }
  issued := d.issued + 1

/-- The oldest unexecuted operation of the stream executes. -/
def execute (s : σ) : Device σ ω where
  line := Function.update d.line s { d.line s with executed := (d.line s).executed + 1 }
  issued := d.issued

end Device

/-- What can happen to the streams. -/
inductive Step [DecidableEq σ] : Device σ ω → Device σ ω → Prop
  /-- Somebody issues an operation. Only points that were captured are waited
  for. -/
  | issued {d : Device σ ω} {s : σ} {op : Op σ ω}
      (captured : ∀ p, op = .wait p → d.Captured p d.issued) :
      Step d (d.issue s op)
  /-- A stream executes an operation, which has to be reached if it is a wait. -/
  | executed {d : Device σ ω} {s : σ} {op : Op σ ω} {stamp : Nat}
      (front : d.At s (d.line s).executed op stamp)
      (ready : ∀ p, op = .wait p → d.Reached p) :
      Step d (d.execute s)

/-- **What holds of streams** whatever is issued and executed. -/
structure Device.WellIssued (d : Device σ ω) : Prop where
  bounded : ∀ s, (d.line s).executed ≤ (d.line s).ops.length
  stamps : ∀ s i op stamp, d.At s i op stamp → stamp < d.issued
  increasing : ∀ s i j op op' stamp stamp', d.At s i op stamp → d.At s j op' stamp' → i < j →
    stamp < stamp'
  /-- A wait is for a point captured before it was issued. -/
  waits : ∀ s i p stamp, d.At s i (.wait p) stamp → d.Captured p stamp
  /-- What has been waited for has been reached. -/
  waited : ∀ s i p stamp, d.At s i (.wait p) stamp → i < (d.line s).executed → d.Reached p

section Device

variable {d e : Device σ ω} {s s' : σ} {p : Point σ} {op op' : Op σ ω} {i stamp : Nat}

theorem Device.WellIssued.empty : (Device.empty : Device σ ω).WellIssued where
  bounded _ := Nat.le_refl 0
  stamps s i op stamp h := by simp [Device.At, Device.empty] at h
  increasing s i j op op' stamp stamp' h := by simp [Device.At, Device.empty] at h
  waits s i p stamp h := by simp [Device.At, Device.empty] at h
  waited s i p stamp h := by simp [Device.At, Device.empty] at h

theorem Device.At.lt (h : d.At s i op stamp) : i < (d.line s).ops.length :=
  (List.getElem?_eq_some_iff.mp h).1

theorem Device.At.unique {stamp' : Nat} (h : d.At s i op stamp) (h' : d.At s i op' stamp') :
    op = op' ∧ stamp = stamp' := by
  unfold At at h h'
  rw [h] at h'
  cases h'
  exact ⟨rfl, rfl⟩

/-- A stream that is not idle has an oldest operation. -/
theorem Device.exists_at (h : i < (d.line s).ops.length) : ∃ op stamp, d.At s i op stamp :=
  ⟨_, _, List.getElem?_eq_getElem h⟩

variable [DecidableEq σ]

/-! ## Issuing -/

@[simp] theorem Device.issued_issue : (d.issue s op).issued = d.issued + 1 := rfl

@[simp] theorem Device.executed_issue :
    ((d.issue s op).line s').executed = (d.line s').executed := by
  by_cases h : s' = s
  · subst h
    simp [issue]
  · simp [issue, h]

theorem Device.ops_issue : ((d.issue s op).line s').ops
    = if s' = s then (d.line s').ops ++ [⟨op, d.issued⟩] else (d.line s').ops := by
  by_cases h : s' = s
  · subst h
    simp [issue]
  · simp [issue, h]

@[simp] theorem Device.reached_issue : (d.issue s op).Reached p ↔ d.Reached p := by
  simp [Reached]

theorem Device.At.issue (h : d.At s' i op' stamp) : (d.issue s op).At s' i op' stamp := by
  have hlt := h.lt
  unfold At at h ⊢
  rw [ops_issue]
  split
  · rw [List.getElem?_append_left hlt]
    exact h
  · exact h

/-- What stands in the streams afterwards stood there before, or is new. -/
theorem Device.At.of_issue (h : (d.issue s op).At s' i op' stamp) :
    d.At s' i op' stamp ∨
      s' = s ∧ i = (d.line s).ops.length ∧ op' = op ∧ stamp = d.issued := by
  unfold At at h
  rw [ops_issue] at h
  split at h
  · rename_i heq
    subst heq
    -- an operation that was there, the new one, or none at all
    rcases Nat.lt_trichotomy i (d.line s').ops.length with hlt | rfl | hgt
    · rw [List.getElem?_append_left hlt] at h
      exact .inl h
    · rw [List.getElem?_concat_length] at h
      cases h
      exact .inr ⟨rfl, rfl, rfl, rfl⟩
    · rw [List.getElem?_eq_none (by simp; omega)] at h
      cases h
  · exact .inl h

theorem Device.Captured.issue (h : d.Captured p stamp) : (d.issue s op).Captured p stamp := by
  obtain ⟨earlier, hlt, hat⟩ := h
  exact ⟨earlier, hlt, hat.issue⟩

/-- A capture can be waited for from then on. -/
theorem Device.captured_issue : (d.issue s .capture).Captured (d.last s) (d.issued + 1) := by
  refine ⟨d.issued, Nat.lt_succ_self _, ?_⟩
  simp [At, ops_issue, last]

/-! ## Executing -/

@[simp] theorem Device.ops_execute : ((d.execute s).line s').ops = (d.line s').ops := by
  by_cases h : s' = s
  · subst h
    simp [execute]
  · simp [execute, h]

theorem Device.executed_execute : ((d.execute s).line s').executed
    = if s' = s then (d.line s').executed + 1 else (d.line s').executed := by
  by_cases h : s' = s
  · subst h
    simp [execute]
  · simp [execute, h]

@[simp] theorem Device.at_execute : (d.execute s).At s' i op stamp ↔ d.At s' i op stamp := by
  simp [At]

@[simp] theorem Device.captured_execute : (d.execute s).Captured p stamp ↔ d.Captured p stamp := by
  simp [Captured]

theorem Device.Reached.execute (h : d.Reached p) : (d.execute s).Reached p := by
  unfold Reached at h ⊢
  rw [executed_execute]
  split <;> omega

/-! ## Steps -/

theorem Device.WellIssued.issue (h : d.WellIssued)
    (hcaptured : ∀ p, op = .wait p → d.Captured p d.issued) : (d.issue s op).WellIssued where
  bounded s' := by
    have hle := h.bounded s'
    rw [executed_issue, ops_issue]
    split
    · simp
      omega
    · exact hle
  stamps s' i op' stamp hat := by
    rcases hat.of_issue with hat | ⟨-, -, -, rfl⟩
    · exact Nat.lt_succ_of_lt (h.stamps s' i op' stamp hat)
    · exact Nat.lt_succ_self _
  increasing s' i j op' op'' stamp stamp' hi hj hij := by
    rcases hi.of_issue with hi | ⟨hs, hi, -, -⟩
    · rcases hj.of_issue with hj | ⟨-, -, -, rfl⟩
      · exact h.increasing s' i j op' op'' stamp stamp' hi hj hij
      · exact h.stamps s' i op' stamp hi
    · -- nothing stands after the new operation
      have hlt := hj.lt
      rw [Device.ops_issue, if_pos hs, List.length_append, List.length_singleton] at hlt
      rw [hs] at hlt
      omega
  waits s' i p stamp hat := by
    rcases hat.of_issue with hat | ⟨-, -, hop, rfl⟩
    · exact (h.waits s' i p stamp hat).issue
    · exact (hcaptured p hop.symm).issue
  waited s' i p stamp hat hlt := by
    rw [executed_issue] at hlt
    rw [reached_issue]
    rcases hat.of_issue with hat | ⟨hs, hi, -, -⟩
    · exact h.waited s' i p stamp hat hlt
    · -- the new operation has not been executed
      have hle := h.bounded s'
      rw [hs] at hle hlt
      omega

theorem Device.WellIssued.execute (h : d.WellIssued) {stamp : Nat}
    (hfront : d.At s (d.line s).executed op stamp) (hready : ∀ p, op = .wait p → d.Reached p) :
    (d.execute s).WellIssued where
  bounded s' := by
    have hle := h.bounded s'
    have hlt := hfront.lt
    rw [executed_execute, ops_execute]
    split
    · rename_i hs
      subst hs
      omega
    · exact hle
  stamps s' i op' stamp hat := h.stamps s' i op' stamp (at_execute.mp hat)
  increasing s' i j op' op'' stamp stamp' hi hj :=
    h.increasing s' i j op' op'' stamp stamp' (at_execute.mp hi) (at_execute.mp hj)
  waits s' i p stamp hat := captured_execute.mpr (h.waits s' i p stamp (at_execute.mp hat))
  waited s' i p stamp' hat hlt := by
    have hbefore := at_execute.mp hat
    rw [executed_execute] at hlt
    by_cases hold : i < (d.line s').executed
    · exact (h.waited s' i p stamp' hbefore hold).execute
    · -- this is the operation that has just been executed
      split at hlt
      · rename_i hs
        subst hs
        obtain rfl : i = (d.line s').executed := by omega
        exact (hready p (hfront.unique hbefore).1).execute
      · exact absurd hlt hold

theorem Device.WellIssued.step (h : d.WellIssued) (hstep : Step d e) : e.WellIssued := by
  cases hstep with
  | issued captured => exact h.issue captured
  | executed front ready => exact h.execute front ready

/-- Points that are reached stay so. -/
theorem Device.Reached.step (h : d.Reached p) (hstep : Step d e) : e.Reached p := by
  cases hstep with
  | issued captured => exact Device.reached_issue.mpr h
  | executed front ready => exact h.execute

theorem Device.At.step (h : d.At s i op stamp) (hstep : Step d e) : e.At s i op stamp := by
  cases hstep with
  | issued captured => exact h.issue
  | executed front ready => exact Device.at_execute.mpr h

/-- Streams only ever execute more, and are only ever issued more. -/
theorem Device.le_step (hstep : Step d e) : (d.line s).executed ≤ (e.line s).executed
    ∧ (d.line s).ops.length ≤ (e.line s).ops.length := by
  cases hstep with
  | issued captured =>
      rw [executed_issue, ops_issue]
      refine ⟨Nat.le_refl _, ?_⟩
      split <;> simp
  | executed front ready =>
      rw [executed_execute, ops_execute]
      refine ⟨?_, Nat.le_refl _⟩
      split <;> omega

theorem Device.le_reflGen (h : Relation.ReflGen Step d e) : (d.line s).executed ≤ (e.line s).executed
    ∧ (d.line s).ops.length ≤ (e.line s).ops.length := by
  cases h with
  | refl => exact ⟨Nat.le_refl _, Nat.le_refl _⟩
  | single hstep => exact le_step hstep

theorem Device.Captured.step (h : d.Captured p d.issued) (hstep : Step d e) :
    e.Captured p e.issued := by
  cases hstep with
  | issued captured =>
      obtain ⟨earlier, hlt, hat⟩ := h.issue
      exact ⟨earlier, Nat.lt_succ_of_lt hlt, hat⟩
  | executed front ready => exact Device.captured_execute.mpr h

end Device

/-! ## No cycle -/

/-- The operation can be executed once it is the oldest of its stream. A wait
needs its point to have been executed itself. -/
def Device.CanExecute (d : Device σ ω) : Op σ ω → Prop
  | .wait p => p.position < (d.line p.stream).executed
  | _ => True

instance (d : Device σ ω) (op : Op σ ω) : Decidable (d.CanExecute op) :=
  match op with
  | .work _ => isTrue trivial
  | .capture => isTrue trivial
  | .wait p => inferInstanceAs (Decidable (p.position < (d.line p.stream).executed))

/-- **Some stream can always go on** while there is anything left to execute:
the one whose oldest operation has the least stamp. -/
theorem Device.WellIssued.progress {d : Device σ ω} (h : d.WellIssued) {s : σ}
    (hs : (d.line s).executed < (d.line s).ops.length) :
    ∃ s op stamp, d.At s (d.line s).executed op stamp ∧ d.CanExecute op := by
  classical
  have hsome : ∃ stamp s op, d.At s (d.line s).executed op stamp := by
    obtain ⟨op, stamp, hat⟩ := exists_at hs
    exact ⟨stamp, s, op, hat⟩
  obtain ⟨s, op, hat⟩ := Nat.find_spec hsome
  refine ⟨s, op, _, hat, ?_⟩
  cases op with
  | work w => trivial
  | capture => trivial
  | wait p =>
      obtain ⟨earlier, hlt, hcaptured⟩ := h.waits s _ p _ hat
      show p.position < (d.line p.stream).executed
      by_contra hnot
      -- the oldest operation of that stream has an even smaller stamp
      have hlen := hcaptured.lt
      have hpending : (d.line p.stream).executed < (d.line p.stream).ops.length := by omega
      obtain ⟨op', stamp', hother⟩ := exists_at hpending
      have hle : stamp' ≤ earlier := by
        rcases Nat.lt_or_eq_of_le (Nat.not_lt.mp hnot) with hbefore | heq
        · exact Nat.le_of_lt (h.increasing _ _ _ _ _ _ _ hother hcaptured hbefore)
        · rw [heq] at hother
          exact Nat.le_of_eq (hother.unique hcaptured).2
      have hmin := Nat.find_min' hsome ⟨p.stream, op', hother⟩
      omega

/-! ## Order -/

/-- What stands at the index of the stream, or is put there, comes after the
point: by what has been reached, by a wait in front of it, or by the order of
the stream itself. -/
def Device.Follows (d : Device σ ω) (s : σ) (i : Nat) (p : Point σ) : Prop :=
  d.Reached p ∨ (∃ j < i, ∃ stamp, d.At s j (.wait p) stamp) ∨ p.stream = s ∧ p.position ≤ i

section Follows

variable {d e : Device σ ω} {s : σ} {p : Point σ} {i j : Nat}

/-- **An operation only starts once the points it comes after are reached.** -/
theorem Device.Follows.reached (h : d.Follows s i p) (hd : d.WellIssued)
    (hi : i ≤ (d.line s).executed) : d.Reached p := by
  rcases h with h | ⟨j, hj, stamp, hat⟩ | ⟨rfl, hle⟩
  · exact h
  · exact hd.waited s j p stamp hat (Nat.lt_of_lt_of_le hj hi)
  · exact Nat.le_trans hle hi

theorem Device.Follows.mono (h : d.Follows s i p) (hij : i ≤ j) : d.Follows s j p := by
  rcases h with h | ⟨l, hl, stamp, hat⟩ | ⟨hs, hle⟩
  · exact .inl h
  · exact .inr (.inl ⟨l, Nat.lt_of_lt_of_le hl hij, stamp, hat⟩)
  · exact .inr (.inr ⟨hs, Nat.le_trans hle hij⟩)

theorem Device.Follows.step [DecidableEq σ] (h : d.Follows s i p) (hstep : Step d e) :
    e.Follows s i p := by
  rcases h with h | ⟨j, hj, stamp, hat⟩ | h
  · exact .inl (h.step hstep)
  · exact .inr (.inl ⟨j, hj, stamp, hat.step hstep⟩)
  · exact .inr (.inr h)

theorem Device.Follows.reflGen [DecidableEq σ] (h : d.Follows s i p)
    (hstep : Relation.ReflGen Step d e) : e.Follows s i p := by
  cases hstep with
  | refl => exact h
  | single hstep => exact h.step hstep

end Follows

end Streams
