import Mathlib

/-!
# Tables whose entries own the pending events

A scheduler keeps a list of pending events, told apart by their numbers, and a table keeps entries of
which each holds at most one event. The two agree when the pending events are those that the entries
hold, each once and in whatever order. The agreement is kept when an entry lets its event go, when it
takes up one with a new number, and by every change of what the entries say besides.
-/

/-- The pending events are those that the entries of the table hold, and their numbers are different and
below `next`. -/
structure OwnedEvents {ρ ε : Type*} (own : ρ → Option ε) (uid : ε → ℕ) (pending : List ε)
    (table : List ρ) (next : ℕ) : Prop where
  /-- What is pending is what is held. -/
  perm : pending.Perm (table.filterMap own)
  /-- No two events have one number. -/
  nodup : (pending.map uid).Nodup
  /-- The numbers given out so far. -/
  lt : ∀ e ∈ pending, uid e < next

namespace OwnedEvents

variable {ρ ε : Type*} {own : ρ → Option ε} {uid : ε → ℕ} {pending : List ε}
  {pre post table : List ρ} {next : ℕ} {r : ρ} {e : ε}

theorem empty (next : ℕ) : OwnedEvents own uid [] [] next where
  perm := List.Perm.refl []
  nodup := List.nodup_nil
  lt _ he := absurd he List.not_mem_nil

theorem mem_iff (h : OwnedEvents own uid pending table next) :
    e ∈ pending ↔ ∃ r ∈ table, own r = some e := by
  rw [h.perm.mem_iff, List.mem_filterMap]

theorem idle_iff (hr : own r = none) : OwnedEvents own uid pending (pre ++ r :: post) next ↔
    OwnedEvents own uid pending (pre ++ post) next := by
  have hsame : (pre ++ r :: post).filterMap own = (pre ++ post).filterMap own := by
    rw [List.filterMap_append, List.filterMap_cons_none hr, ← List.filterMap_append]
  constructor
  · intro h
    exact ⟨hsame ▸ h.perm, h.nodup, h.lt⟩
  · intro h
    exact ⟨hsame ▸ h.perm, h.nodup, h.lt⟩

/-- **An entry lets its event go**: what stays pending is what the others hold. -/
theorem release (h : OwnedEvents own uid pending (pre ++ r :: post) next) (hr : own r = some e) :
    OwnedEvents own uid (pending.filter (uid · ≠ uid e)) (pre ++ post) next := by
  have hsplit : ((pre ++ r :: post).filterMap own).Perm (e :: (pre ++ post).filterMap own) := by
    rw [List.filterMap_append, List.filterMap_cons_some hr, List.filterMap_append]
    exact List.perm_middle
  have hperm := h.perm.trans hsplit
  have hnodup := (hperm.map uid).nodup_iff.mp h.nodup
  rw [List.map_cons, List.nodup_cons] at hnodup
  refine ⟨?_, h.nodup.sublist (List.filter_sublist.map uid), ?_⟩
  · refine (hperm.filter _).trans ?_
    rw [List.filter_cons_of_neg (by simp), List.filter_eq_self.mpr]
    intro x hx
    refine decide_eq_true ?_
    intro hxe
    exact hnodup.1 (hxe ▸ List.mem_map_of_mem hx)
  · intro x hx
    exact h.lt x (List.mem_of_mem_filter hx)

/-- **An entry takes up an event** with the next number. -/
theorem acquire (h : OwnedEvents own uid pending (pre ++ post) next) (hr : own r = some e)
    (huid : uid e = next) : OwnedEvents own uid (pending ++ [e]) (pre ++ r :: post) (next + 1) := by
  refine ⟨?_, ?_, ?_⟩
  · rw [List.filterMap_append, List.filterMap_cons_some hr]
    refine (List.perm_append_singleton e pending).trans ((h.perm.cons e).trans ?_)
    rw [List.filterMap_append]
    exact List.perm_middle.symm
  · rw [List.map_append, List.map_singleton, List.nodup_append]
    refine ⟨h.nodup, List.nodup_singleton _, ?_⟩
    intro u hu v hv
    obtain ⟨x, hx, rfl⟩ := List.mem_map.mp hu
    rw [List.mem_singleton.mp hv, huid]
    exact (h.lt x hx).ne
  · intro x hx
    rcases List.mem_append.mp hx with hx | hx
    · exact Nat.lt_succ_of_lt (h.lt x hx)
    · rw [List.mem_singleton.mp hx, huid]
      exact Nat.lt_succ_self next

/-- The pending events with a property that only the event of `r` has. -/
theorem filter_eq (h : OwnedEvents own uid pending table next) {p : ε → Bool} (he : e ∈ pending)
    (hp : ∀ x ∈ pending, p x = true ↔ x = e) : pending.filter p = [e] := by
  have hnodup : pending.Nodup := h.nodup.of_map uid
  have hmem : ∀ x, x ∈ pending.filter p ↔ x ∈ [e] := by
    intro x
    rw [List.mem_filter, List.mem_singleton]
    constructor
    · rintro ⟨hx, hpx⟩
      exact (hp x hx).mp hpx
    · rintro rfl
      exact ⟨he, (hp x he).mpr rfl⟩
  exact List.perm_singleton.mp
    ((List.perm_ext_iff_of_nodup (hnodup.filter p) (List.nodup_singleton e)).mpr hmem)

end OwnedEvents
