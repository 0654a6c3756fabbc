import Mathlib

/-!
# Searching a graph level by level

A table gives some vertices a distance, and a pass over the list of edges at level `h` gives the distance
`h + 1` to each vertex that has none and that an edge reaches from one at distance `h`. Passes are made for
one level after the other, until one adds nothing.

Vertices that are *blocked* have a distance from the beginning that is below the first level, so no pass
starts from them or changes them. Of the others the search finds those that a walk reaches from the start,
with the length of a shortest walk (`levels_isLeast`); that a single pass may use the edges in any order,
and each as often as it occurs, is the content of `pass_apply`.
-/

namespace Ns3

namespace LevelSearch

variable {α : Type*}

/-- A walk of some length from the start, over vertices that are not blocked. -/
inductive Walk (start blocked : α → Prop) (E : List (α × α)) : ℕ → α → Prop
  | start {v : α} (hv : start v) : Walk start blocked E 0 v
  | step {n : ℕ} {u v : α} (hu : Walk start blocked E n u) (he : (u, v) ∈ E) (hv : ¬ blocked v) :
    Walk start blocked E (n + 1) v

theorem Walk.not_blocked {start blocked : α → Prop} {E : List (α × α)} {n : ℕ} {v : α}
    (hstart : ∀ v, start v → ¬ blocked v) (h : Walk start blocked E n v) : ¬ blocked v := by
  cases h with
  | start hv => exact hstart v hv
  | step _ _ hv => exact hv

variable [DecidableEq α]

/-- A pass over the edges at level `h`, and whether it has added something. -/
def pass (h : ℕ) : List (α × α) → (α → Option ℕ) × Bool → (α → Option ℕ) × Bool
  | [], r => r
  | (u, v) :: es, (d, added) =>
    if d v = none ∧ d u = some h then pass h es (Function.update d v (some (h + 1)), true)
    else pass h es (d, added)

/-- The passes from level `h`; `none` where `fuel` of them are not enough. -/
def levels (E : List (α × α)) : ℕ → ℕ → (α → Option ℕ) → Option (α → Option ℕ)
  | 0, _, _ => none
  | fuel + 1, h, d =>
    match pass h E (d, false) with
    | (d, true) => levels E fuel (h + 1) d
    | (d, false) => some d

/-! ## One pass -/

section Pass

variable {h : ℕ} {E : List (α × α)} {d : α → Option ℕ} {added : Bool} {v : α}

theorem update_eq_some_iff {w : α} (hv : d v = none) :
    Function.update d v (some (h + 1)) w = some h ↔ d w = some h := by
  by_cases hw : w = v
  · rw [hw, Function.update_self, hv]
    simp
  · rw [Function.update_of_ne hw]

theorem pass_apply : (pass h E (d, added)).1 v =
    if d v = none ∧ ∃ e ∈ E, e.2 = v ∧ d e.1 = some h then some (h + 1) else d v := by
  induction E generalizing d added with
  | nil => simp [pass]
  | cons e es ih =>
    obtain ⟨x, y⟩ := e
    rw [pass]
    by_cases hadd : d y = none ∧ d x = some h
    · rw [if_pos hadd, ih]
      simp only [update_eq_some_iff hadd.1, List.exists_mem_cons_iff]
      by_cases hv : v = y
      · subst hv
        rw [Function.update_self, if_neg (by simp), if_pos ⟨hadd.1, Or.inl ⟨rfl, hadd.2⟩⟩]
      · have hne : ¬ (y = v ∧ d x = some h) := fun heq ↦ hv heq.1.symm
        simp only [Function.update_of_ne hv, hne, false_or]
    · rw [if_neg hadd, ih]
      -- the edge adds nothing, so it may be left out of the condition
      refine if_congr (and_congr_right fun hnone ↦ ?_) rfl rfl
      rw [List.exists_mem_cons_iff]
      constructor
      · exact Or.inr
      · rintro (⟨rfl, hu⟩ | he)
        · exact absurd ⟨hnone, hu⟩ hadd
        · exact he

theorem pass_of_some {k : ℕ} (hv : d v = some k) : (pass h E (d, added)).1 v = some k := by
  rw [pass_apply, if_neg (by simp [hv]), hv]

theorem pass_added : (pass h E (d, added)).2 = true ↔
    added = true ∨ ∃ e ∈ E, d e.2 = none ∧ d e.1 = some h := by
  induction E generalizing d added with
  | nil => simp [pass]
  | cons e es ih =>
    obtain ⟨x, y⟩ := e
    rw [pass]
    by_cases hadd : d y = none ∧ d x = some h
    · rw [if_pos hadd, ih]
      simp [hadd.1, hadd.2]
    · rw [if_neg hadd, ih]
      simp [hadd]

theorem pass_added_of_edge (added : Bool) {e : α × α} (he : e ∈ E) (hnone : d e.2 = none)
    (hd : d e.1 = some h) : (pass h E (d, added)).2 = true :=
  pass_added.mpr (Or.inr ⟨e, he, hnone, hd⟩)

theorem countP_pass_lt (hadded : (pass h E (d, false)).2 = true) :
    E.countP (fun e ↦ (pass h E (d, false)).1 e.2 = none) < E.countP fun e ↦ d e.2 = none := by
  obtain ⟨⟨u, v⟩, he, hnone, hu⟩ := (pass_added.mp hadded).resolve_left Bool.false_ne_true
  rw [List.countP_eq_length_filter, List.countP_eq_length_filter]
  have hsub : (E.filter fun e ↦ (pass h E (d, false)).1 e.2 = none) =
      (E.filter fun e ↦ d e.2 = none).filter fun e ↦ (pass h E (d, false)).1 e.2 = none := by
    rw [List.filter_filter]
    refine List.filter_congr fun e _ ↦ ?_
    by_cases hd : d e.2 = none
    · simp [hd]
    · obtain ⟨k, hk⟩ := Option.ne_none_iff_exists'.mp hd
      simp [hk, pass_of_some hk]
  rw [hsub]
  refine List.length_filter_lt_length_iff_exists.mpr
    ⟨(u, v), List.mem_filter.mpr ⟨he, decide_eq_true hnone⟩, ?_⟩
  rw [pass_apply, if_pos ⟨hnone, (u, v), he, rfl, hu⟩]
  simp

end Pass

/-! ## The levels -/

/-- **The search ends**, whatever the table says: each pass but the last gives a distance to the end of an
edge. -/
theorem exists_levels {E : List (α × α)} {fuel : ℕ} (h : ℕ) {d : α → Option ℕ}
    (hfuel : E.countP (fun e ↦ d e.2 = none) < fuel) : ∃ d', levels E fuel h d = some d' := by
  induction fuel generalizing h d with
  | zero => exact absurd hfuel (Nat.not_lt_zero _)
  | succ fuel ih =>
    rw [levels, ← Prod.mk.eta (p := LevelSearch.pass h E (d, false))]
    cases hadded : (LevelSearch.pass h E (d, false)).2 with
    | true =>
      have hless := countP_pass_lt hadded
      exact ih (h + 1) (by omega)
    | false => exact ⟨_, rfl⟩

/-- What the table says when the levels up to `base + n` have been filled. -/
structure Levels (start blocked : α → Prop) (E : List (α × α)) (base n : ℕ) (d : α → Option ℕ) :
    Prop where
  low : ∀ v, blocked v → ∃ k < base, d v = some k
  sound : ∀ v k, ¬ blocked v → d v = some k → ∃ m ≤ n, k = base + m ∧ Walk start blocked E m v
  complete : ∀ m v, Walk start blocked E m v → m ≤ n → ∃ k ≤ m, d v = some (base + k)

section Levels

variable {start blocked : α → Prop} {E : List (α × α)} {base n : ℕ} {d : α → Option ℕ}

omit [DecidableEq α] in
theorem Levels.walk (h : Levels start blocked E base n d) {v : α} {k : ℕ} (hv : ¬ blocked v)
    (hd : d v = some (base + k)) : k ≤ n ∧ Walk start blocked E k v := by
  obtain ⟨m, hm, hkm, hwalk⟩ := h.sound v _ hv hd
  obtain rfl : k = m := by omega
  exact ⟨hm, hwalk⟩

theorem Levels.next (h : Levels start blocked E base n d) {u v : α} {k : ℕ} (hu : ¬ blocked u)
    (hd : d u = some (base + k)) (he : (u, v) ∈ E) (hv : ¬ blocked v) :
    (∃ k' ≤ k + 1, d v = some (base + k')) ∨ (d v = none ∧ k = n) := by
  obtain ⟨hkn, hwalk⟩ := h.walk hu hd
  rcases Nat.lt_or_eq_of_le hkn with hlt | rfl
  · exact Or.inl (h.complete (k + 1) v (hwalk.step he hv) hlt)
  · cases hdv : d v with
    | none => exact Or.inr ⟨rfl, rfl⟩
    | some k' =>
      obtain ⟨m, hm, rfl, -⟩ := h.sound v k' hv hdv
      exact Or.inl ⟨m, by omega, rfl⟩

/-- **A pass fills the next level.** -/
theorem Levels.pass (h : Levels start blocked E base n d) (hstart : ∀ v, start v → ¬ blocked v)
    (added : Bool) : Levels start blocked E base (n + 1) (pass (base + n) E (d, added)).1 where
  low v hv := by
    obtain ⟨k, hk, hd⟩ := h.low v hv
    exact ⟨k, hk, pass_of_some hd⟩
  sound v k hv hd := by
    rw [pass_apply] at hd
    split_ifs at hd with hnew
    · obtain ⟨-, ⟨u, w⟩, he, rfl, hu⟩ := hnew
      rw [Option.some_inj] at hd
      have hublocked : ¬ blocked u := fun hb ↦ by
        obtain ⟨k', hk', hd'⟩ := h.low u hb
        rw [hu, Option.some_inj] at hd'
        omega
      exact ⟨n + 1, le_refl _, hd.symm, (h.walk hublocked hu).2.step he hv⟩
    · obtain ⟨m, hm, hk, hwalk⟩ := h.sound v k hv hd
      exact ⟨m, by omega, hk, hwalk⟩
  complete m v hwalk hm := by
    rcases Nat.lt_or_eq_of_le hm with hlt | rfl
    · obtain ⟨k, hk, hd⟩ := h.complete m v hwalk (Nat.lt_succ_iff.mp hlt)
      exact ⟨k, hk, pass_of_some hd⟩
    · cases hwalk with
      | step hu he hv =>
        rename_i u
        obtain ⟨k, hk, hd⟩ := h.complete n u hu (le_refl n)
        rcases h.next (hu.not_blocked hstart) hd he hv with ⟨k', hk', hd'⟩ | ⟨hnone, rfl⟩
        · exact ⟨k', by omega, pass_of_some hd'⟩
        · exact ⟨k + 1, le_refl _, by
            rw [pass_apply, if_pos ⟨hnone, (u, v), he, rfl, hd⟩, Nat.add_assoc]⟩

theorem Levels.complete_of_not_added (h : Levels start blocked E base n d)
    (hstart : ∀ v, start v → ¬ blocked v) (hadded : (LevelSearch.pass (base + n) E (d, false)).2 = false)
    {m : ℕ} {v : α} (hwalk : Walk start blocked E m v) : ∃ k ≤ m, d v = some (base + k) := by
  induction hwalk with
  | start hv => exact h.complete 0 _ (.start hv) (Nat.zero_le n)
  | step hu he hv ih =>
    obtain ⟨k, hk, hd⟩ := ih
    rcases h.next (hu.not_blocked hstart) hd he hv with ⟨k', hk', hd'⟩ | ⟨hnone, rfl⟩
    · exact ⟨k', by omega, hd'⟩
    · have htrue := pass_added_of_edge false he hnone hd
      exact absurd (hadded.symm.trans htrue) Bool.false_ne_true

/-- **The search ends with the length of a shortest walk** for each vertex that a walk reaches, and what is
blocked keeps its distance. -/
theorem levels_isLeast (h : Levels start blocked E base n d)
    (hstart : ∀ v, start v → ¬ blocked v) :
    ∃ d', (∀ fuel, E.countP (fun e ↦ d e.2 = none) < fuel → levels E fuel (base + n) d = some d') ∧
      (∀ v k, d v = some k → d' v = some k) ∧
      (∀ v k, ¬ blocked v → d' v = some k →
        ∃ m, k = base + m ∧ IsLeast {m | Walk start blocked E m v} m) ∧
      ∀ m v, Walk start blocked E m v → ∃ k ≤ m, d' v = some (base + k) := by
  -- each pass but the last gives a distance to the end of an edge
  induction hcount : E.countP (fun e ↦ d e.2 = none) using Nat.strong_induction_on
    generalizing n d with
  | _ c ih =>
    cases hadded : (LevelSearch.pass (base + n) E (d, false)).2 with
    | true =>
      obtain ⟨d', hloop, hkept, hsound, hcomplete⟩ :=
        ih _ (hcount ▸ countP_pass_lt hadded) (h.pass hstart false) rfl
      refine ⟨d', fun fuel hfuel ↦ ?_, fun v k hd ↦ hkept v k (pass_of_some hd), hsound, hcomplete⟩
      cases fuel with
      | zero => exact absurd hfuel (Nat.not_lt_zero _)
      | succ fuel =>
        have hless := countP_pass_lt hadded
        rw [levels, ← Prod.mk.eta (p := LevelSearch.pass (base + n) E (d, false)), hadded]
        exact hloop fuel (by omega)
    | false =>
      have hsame : (LevelSearch.pass (base + n) E (d, false)).1 = d := by
        funext v
        rw [pass_apply, if_neg]
        rintro ⟨hnone, e, he, rfl, hu⟩
        have htrue := pass_added_of_edge false he hnone hu
        exact Bool.false_ne_true (hadded.symm.trans htrue)
      refine ⟨d, fun fuel hfuel ↦ ?_, fun v k hd ↦ hd, fun v k hv hd ↦ ?_, fun m v hwalk ↦
        h.complete_of_not_added hstart hadded hwalk⟩
      · cases fuel with
        | zero => exact absurd hfuel (Nat.not_lt_zero _)
        | succ fuel =>
          rw [levels, ← Prod.mk.eta (p := LevelSearch.pass (base + n) E (d, false)), hadded, hsame]
      · obtain ⟨m, -, rfl, hwalk⟩ := h.sound v k hv hd
        refine ⟨m, rfl, hwalk, fun m' hwalk' ↦ ?_⟩
        obtain ⟨k', hk', hd'⟩ := h.complete_of_not_added hstart hadded hwalk'
        rw [hd, Option.some_inj] at hd'
        omega

end Levels

end LevelSearch

end Ns3
