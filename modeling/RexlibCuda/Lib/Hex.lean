import Mathlib.Data.Nat.Digits.Defs

/-! Numbers in base 16, as they are printed and read. -/

namespace Hex

/-- What a digit stands for. -/
def value (c : Char) : Nat := if c.isDigit then c.toNat - 48 else c.toNat - 87

/-- What digits stand for, behind others that stand for `n`. -/
def ofDigits (n : Nat) (cs : List Char) : Nat := cs.foldl (fun n c => 16 * n + value c) n

/-- Read digits up to `stop`: what they stand for, and what comes after. -/
def readUntil (stop : Char) (n : Nat) : List Char → Nat × List Char
  | [] => (n, [])
  | c :: cs => if c = stop then (n, cs) else readUntil stop (16 * n + value c) cs

theorem value_digitChar : ∀ d < 16, value d.digitChar = d := by decide

theorem ofDigits_append (n : Nat) (cs ds : List Char) :
    ofDigits n (cs ++ ds) = ofDigits (ofDigits n cs) ds := List.foldl_append ..

theorem ofDigits_toDigits (n : Nat) : ofDigits 0 (Nat.toDigits 16 n) = n := by
  induction n using Nat.strongRecOn with
  | ind n ih =>
      rw [Nat.toDigits_eq_if (by omega)]
      split
      · simp [ofDigits, value_digitChar n (by assumption)]
      · have hdigit := value_digitChar _ (Nat.mod_lt n (by omega : 0 < 16))
        rw [ofDigits_append, ih (n / 16) (by omega)]
        simp only [ofDigits, List.foldl_cons, List.foldl_nil, hdigit]
        omega

/-- Zeros in front change nothing. -/
theorem ofDigits_zeros (k : Nat) : ofDigits 0 (List.replicate k '0') = 0 := by
  induction k with
  | zero => rfl
  | succ k ih =>
      rw [List.replicate_succ', ofDigits_append, ih]
      rfl

/-- Every digit is one. -/
theorem exists_of_mem_toDigits {n : Nat} {c : Char} (h : c ∈ Nat.toDigits 16 n) :
    ∃ d < 16, c = d.digitChar := by
  induction n using Nat.strongRecOn with
  | ind n ih =>
      rw [Nat.toDigits_eq_if (by omega)] at h
      split at h
      · rename_i hlt
        exact ⟨n, hlt, List.mem_singleton.mp h⟩
      · rcases List.mem_append.mp h with h | h
        · exact ih (n / 16) (by omega) h
        · exact ⟨n % 16, Nat.mod_lt n (by omega), List.mem_singleton.mp h⟩

theorem readUntil_append {stop : Char} (n : Nat) {cs : List Char} (rest : List Char)
    (h : stop ∉ cs) : readUntil stop n (cs ++ stop :: rest) = (ofDigits n cs, rest) := by
  induction cs generalizing n with
  | nil => simp [readUntil, ofDigits]
  | cons c cs ih =>
      have hne : c ≠ stop := fun heq => h (by simp [heq])
      simp only [List.cons_append, readUntil, hne, if_false]
      rw [ih _ fun hmem => h (List.mem_cons_of_mem c hmem)]
      rfl

end Hex
