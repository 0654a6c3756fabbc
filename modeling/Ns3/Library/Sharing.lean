import Mathlib

/-!
# Counting references

Handles in a finite set `live` each refer to one block. `refs` counts the handles of a block, and the
lemmas say how it changes when a handle is created, destroyed, or moved to another block.
-/

section Sharing

variable {live : Finset ℕ} {owner : ℕ → ℕ} {b c d e : ℕ}

/-- The number of handles that refer to block `d`. -/
def refs (live : Finset ℕ) (owner : ℕ → ℕ) (d : ℕ) : ℕ := (live.filter fun b ↦ owner b = d).card

theorem refs_pos (hb : b ∈ live) : 0 < refs live owner (owner b) :=
  Finset.card_pos.mpr ⟨b, Finset.mem_filter.mpr ⟨hb, rfl⟩⟩

theorem refs_eq_zero_iff : refs live owner d = 0 ↔ ∀ b ∈ live, owner b ≠ d := by
  rw [refs, Finset.card_eq_zero, Finset.filter_eq_empty_iff]

theorem eq_of_refs_eq_one (h : refs live owner d = 1) (hb : b ∈ live) (hbd : owner b = d)
    (hc : c ∈ live) (hcd : owner c = d) : b = c := by
  obtain ⟨a, ha⟩ := Finset.card_eq_one.mp h
  have hb' : b ∈ ({a} : Finset ℕ) := ha ▸ Finset.mem_filter.mpr ⟨hb, hbd⟩
  have hc' : c ∈ ({a} : Finset ℕ) := ha ▸ Finset.mem_filter.mpr ⟨hc, hcd⟩
  rw [Finset.mem_singleton.mp hb', Finset.mem_singleton.mp hc']

theorem refs_congr {owner' : ℕ → ℕ} (h : ∀ b ∈ live, owner' b = owner b) (d : ℕ) :
    refs live owner' d = refs live owner d := by
  rw [refs, refs]
  congr 1
  exact Finset.filter_congr fun b hb ↦ by rw [h b hb]

/-- A new handle of block `d`. -/
theorem refs_insert (hb : b ∉ live) :
    refs (insert b live) (Function.update owner b d) e =
      refs live owner e + if e = d then 1 else 0 := by
  have hold : refs live (Function.update owner b d) e = refs live owner e :=
    refs_congr (fun c hc ↦ Function.update_of_ne (ne_of_mem_of_not_mem hc hb) _ _) e
  rw [← hold, refs, Finset.filter_insert, Function.update_self]
  by_cases h : d = e
  · rw [if_pos h, if_pos h.symm, Finset.card_insert_of_notMem fun hmem ↦
      hb (Finset.mem_of_mem_filter b hmem)]
    rfl
  · rw [if_neg h, if_neg (Ne.symm h)]
    rfl

theorem refs_erase (hb : b ∈ live) :
    refs (live.erase b) owner e + (if e = owner b then 1 else 0) = refs live owner e := by
  rw [refs, Finset.filter_erase]
  by_cases h : e = owner b
  · have hmem : b ∈ live.filter fun b ↦ owner b = e := Finset.mem_filter.mpr ⟨hb, h.symm⟩
    rw [if_pos h, Finset.card_erase_add_one hmem]
    rfl
  · rw [if_neg h, Finset.erase_eq_of_notMem fun hmem ↦ h (Finset.mem_filter.mp hmem).2.symm]
    rfl

/-- A handle moves to block `d`. -/
theorem refs_update (hb : b ∈ live) :
    refs live (Function.update owner b d) e + (if e = owner b then 1 else 0) =
      refs live owner e + if e = d then 1 else 0 := by
  have hins : refs (insert b (live.erase b)) (Function.update owner b d) e =
      refs (live.erase b) owner e + if e = d then 1 else 0 := refs_insert (Finset.notMem_erase b live)
  rw [Finset.insert_erase hb] at hins
  rw [hins, ← refs_erase hb (e := e)]
  ring

end Sharing
