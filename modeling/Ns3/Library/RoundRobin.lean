import Mathlib

/-!
# Deficit round robin

Members of a list are served from the front. Each has a deficit: what it is served is taken from the deficit,
and a member in front with no deficit left gets a quantum and goes to the back. Between two members that
stay in the list, what they have been served differs by what their deficits and their order account for.
-/

namespace Ns3

namespace RoundRobin

variable {α : Type*} [DecidableEq α] {i j k : α} {l : List α} {q : ℤ} {d : α → ℤ}

/-! ## The order of two members -/

/-- A member comes before another. -/
def Ahead (l : List α) (j i : α) : Prop := l.idxOf j < l.idxOf i

instance (l : List α) (j i : α) : Decidable (Ahead l j i) := inferInstanceAs (Decidable (_ < _))

theorem ahead_append (hi : i ∈ l) (hj : j ∈ l) (r : List α) : Ahead (l ++ r) j i ↔ Ahead l j i := by
  rw [Ahead, List.idxOf_append_of_mem hi, List.idxOf_append_of_mem hj, Ahead]

theorem ahead_cons (hi : k ≠ i) (hj : k ≠ j) : Ahead (k :: l) j i ↔ Ahead l j i := by
  rw [Ahead, List.idxOf_cons_ne l hi, List.idxOf_cons_ne l hj, Nat.succ_lt_succ_iff, Ahead]

theorem ahead_front (hij : i ≠ j) : Ahead (j :: l) j i := by
  rw [Ahead, List.idxOf_cons_self, List.idxOf_cons_ne l hij.symm]
  exact Nat.succ_pos _

theorem not_ahead_front : ¬ Ahead (i :: l) j i := by
  rw [Ahead, List.idxOf_cons_self]
  exact Nat.not_lt_zero _

theorem ahead_back (hj : j ∈ l) (hi : i ∉ l) : Ahead (l ++ [i]) j i := by
  rw [Ahead, List.idxOf_append_of_mem hj, List.idxOf_append_of_notMem hi]
  exact (List.idxOf_lt_length_of_mem hj).trans_le (Nat.le_add_right _ _)

theorem not_ahead_back (hi : i ∈ l) (hj : j ∉ l) : ¬ Ahead (l ++ [j]) j i := by
  rw [Ahead, List.idxOf_append_of_mem hi, List.idxOf_append_of_notMem hj, not_lt]
  exact (List.idxOf_lt_length_of_mem hi).le.trans (Nat.le_add_right _ _)

/-! ## The lead -/

/-- How far a member is ahead of another in what it has been served. -/
def lead (q : ℤ) (d : α → ℤ) (l : List α) (i j : α) : ℤ :=
  d j - d i + if Ahead l j i then q else 0

theorem lead_congr {d' : α → ℤ} {l' : List α} (hi : d' i = d i) (hj : d' j = d j)
    (hl : Ahead l' j i ↔ Ahead l j i) : lead q d' l' i j = lead q d l i j := by
  rw [lead, hi, hj, if_congr hl rfl rfl, lead]

/-- **The member in front goes to the back with a quantum**, and nobody's lead changes. -/
theorem lead_rotate (hnodup : (k :: l).Nodup) (hi : i ∈ k :: l) (hj : j ∈ k :: l) (hij : i ≠ j) :
    lead q (Function.update d k (d k + q)) (l ++ [k]) i j = lead q d (k :: l) i j := by
  obtain ⟨hk, -⟩ := List.nodup_cons.mp hnodup
  rcases eq_or_ne k i with rfl | hki
  · have hj' : j ∈ l := (List.mem_cons.mp hj).resolve_left hij.symm
    rw [lead, lead, if_pos (ahead_back hj' hk), if_neg not_ahead_front, Function.update_self,
      Function.update_of_ne hij.symm]
    ring
  · have hi' : i ∈ l := (List.mem_cons.mp hi).resolve_left hki.symm
    rcases eq_or_ne k j with rfl | hkj
    · rw [lead, lead, if_neg (not_ahead_back hi' hk), if_pos (ahead_front hij),
        Function.update_self, Function.update_of_ne hij]
      ring
    · have hj' : j ∈ l := (List.mem_cons.mp hj).resolve_left hkj.symm
      exact lead_congr (Function.update_of_ne hki.symm _ _) (Function.update_of_ne hkj.symm _ _)
        ((ahead_append hi' hj' [k]).trans (ahead_cons hki hkj).symm)

/-- **A member is served**, and leads by as much more. -/
theorem lead_serve (n : ℤ) (hij : i ≠ j) : lead q (Function.update d k (d k - n)) l i j =
    lead q d l i j + ((if k = i then n else 0) - if k = j then n else 0) := by
  unfold lead
  rcases eq_or_ne k i with rfl | hki
  · rw [if_pos rfl, if_neg hij, Function.update_self, Function.update_of_ne hij.symm]
    ring
  · rw [if_neg hki, Function.update_of_ne hki.symm]
    rcases eq_or_ne k j with rfl | hkj
    · rw [if_pos rfl, Function.update_self]
      ring
    · rw [if_neg hkj, Function.update_of_ne hkj.symm]
      ring

/-- **Fairness.** Over any time, two leads differ by no more than the deficits and the order allow. -/
theorem abs_lead_sub_le {d' : α → ℤ} {l' : List α} {lo : ℤ} (hq : 0 ≤ q) (hd : ∀ k, -lo ≤ d k ∧ d k ≤ q)
    (hd' : ∀ k, -lo ≤ d' k ∧ d' k ≤ q) :
    |lead q d' l' i j - lead q d l i j| ≤ 3 * q + 2 * lo := by
  obtain ⟨hi, hi'⟩ := hd i
  obtain ⟨hj, hj'⟩ := hd j
  obtain ⟨gi, gi'⟩ := hd' i
  obtain ⟨gj, gj'⟩ := hd' j
  unfold lead
  rw [abs_le]
  split_ifs <;> constructor <;> linarith

end RoundRobin

end Ns3
