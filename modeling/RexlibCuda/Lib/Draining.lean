import Mathlib.Algebra.Order.BigOperators.Group.Finset
import RexlibCuda.Lib.Runs
import RexlibCuda.Lib.Streams

/-! Streams that are issued nothing more. However they are scheduled, they come
to an end, and by then they have executed all there was. -/

namespace Streams

open Relation (ReflTransGen)

variable {σ ω : Type}

namespace Device

/-- Every stream has executed all it was issued. -/
def Drained (d : Device σ ω) : Prop := ∀ s, (d.line s).executed = (d.line s).ops.length

/-- Nothing was issued on any other stream. -/
def Within (d : Device σ ω) (streams : Finset σ) : Prop := ∀ s ∉ streams, (d.line s).ops = []

/-- How much the streams have left to execute. -/
def left (d : Device σ ω) (streams : Finset σ) : Nat :=
  ∑ s ∈ streams, ((d.line s).ops.length - (d.line s).executed)

theorem Within.empty : (Device.empty : Device σ ω).Within ∅ := fun _ _ => rfl

theorem Drained.reached {d : Device σ ω} (h : d.Drained) {p : Point σ} {i stamp : Nat} {op : Op σ ω}
    (hat : d.At p.stream i op stamp) (hle : p.position ≤ i + 1) : d.Reached p := by
  have hlt := hat.lt
  unfold Reached
  rw [h p.stream]
  omega

variable [DecidableEq σ]

/-- Only so many streams are ever issued anything. -/
theorem Within.step {d e : Device σ ω} {streams : Finset σ} (h : d.Within streams)
    (hstep : Step d e) : ∃ streams, e.Within streams := by
  cases hstep with
  | @issued s op captured =>
      refine ⟨insert s streams, fun s' hs' => ?_⟩
      rw [Finset.mem_insert, not_or] at hs'
      rw [ops_issue, if_neg hs'.1]
      exact h s' hs'.2
  | executed front ready => exact ⟨streams, fun s' hs' => by rw [ops_execute]; exact h s' hs'⟩

end Device

variable [DecidableEq σ]

/-- Some stream executes its oldest operation. -/
def Executes (d e : Device σ ω) : Prop :=
  ∃ s op stamp, d.At s (d.line s).executed op stamp ∧ (∀ p, op = .wait p → d.Reached p) ∧
    e = d.execute s

section Executes

variable {d e : Device σ ω} {streams : Finset σ}

theorem Executes.step (h : Executes d e) : Step d e := by
  obtain ⟨s, op, stamp, front, ready, rfl⟩ := h
  exact .executed front ready

theorem Executes.within (hd : d.Within streams) (h : Executes d e) : e.Within streams := by
  obtain ⟨s, op, stamp, -, -, rfl⟩ := h
  intro s' hs'
  rw [Device.ops_execute]
  exact hd s' hs'

/-- With every execution there is less left. -/
theorem Executes.left_lt (hd : d.Within streams) (h : Executes d e) :
    e.left streams < d.left streams := by
  obtain ⟨s, op, stamp, hfront, -, rfl⟩ := h
  have hlt := hfront.lt
  have hmem : s ∈ streams := by
    by_contra hs
    rw [hd s hs] at hlt
    exact absurd hlt (Nat.not_lt_zero _)
  unfold Device.left
  apply Finset.sum_lt_sum
  · intro s' _
    rw [Device.ops_execute, Device.executed_execute]
    split <;> omega
  · refine ⟨s, hmem, ?_⟩
    rw [Device.ops_execute, Device.executed_execute, if_pos rfl]
    omega

/-- **Streams that are issued nothing more come to an end.** -/
theorem Device.Within.ends (h : d.Within streams) : Acc (fun e d => Executes d e) d :=
  Runs.ends (I := fun d : Device σ ω => d.Within streams)
    (fun _ _ hd hstep => ⟨hstep.within hd, hstep.left_lt hd⟩) h

/-- **Where no stream can go on, all is executed.** -/
theorem Device.WellIssued.drained (h : d.WellIssued) (hstuck : ∀ e, ¬ Executes d e) :
    d.Drained := by
  intro s
  refine Nat.le_antisymm (h.bounded s) (Nat.not_lt.mp fun hlt => ?_)
  obtain ⟨s', op, stamp, hfront, hcan⟩ := h.progress hlt
  refine hstuck _ ⟨s', op, stamp, hfront, ?_, rfl⟩
  rintro p rfl
  exact Nat.le_of_lt hcan

end Executes

end Streams
