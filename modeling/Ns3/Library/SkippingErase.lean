import Mathlib

/-!
# Duplicates that are erased while a list is scanned

For each entry of a list, the later ones of its key are erased, from the first to the last. After an
erasure the entry that has moved to its place is skipped. So the one after an erased entry is never
looked at, and if that is of the same key, it stays.

What is left has every key, and it has each once if a key's entries, from the second one on, are kept
apart: between two of them there is one whose key comes up after the first of them.
-/

namespace Ns3

namespace SkippingErase

variable {α κ : Type*} {k k' : κ} {ks : List κ}

/-! ## Keys that are kept apart -/

/-- The entries of each key, from the second one on, are kept apart by one that comes up after the first. -/
def Spaced (ks : List κ) : Prop :=
  ∀ s k m₁ m₂ t, ks = s ++ k :: (m₁ ++ k :: (m₂ ++ k :: t)) → k ∉ s → ¬ m₂ ⊆ s

/-- No two entries of a key are next to each other. -/
def Apart (k : κ) (ks : List κ) : Prop := ∀ s t, ks ≠ s ++ k :: k :: t

theorem apart_cons_of_ne (h : k' ≠ k) : Apart k (k' :: ks) ↔ Apart k ks := by
  constructor
  · rintro hap s t rfl
    exact hap (k' :: s) t rfl
  · rintro hap (_ | ⟨j, s⟩) t heq
    · exact h (List.cons.inj heq).1
    · exact hap s t (List.cons.inj heq).2

theorem apart_cons_cons : Apart k (k :: k' :: ks) ↔ k' ≠ k ∧ Apart k ks := by
  constructor
  · intro hap
    refine ⟨?_, fun s t heq ↦ hap (k :: k' :: s) t (congrArg (k :: k' :: ·) heq)⟩
    rintro rfl
    exact hap [] ks rfl
  · rintro ⟨hne, hap⟩ (_ | ⟨j, _ | ⟨j', s⟩⟩) t heq
    · exact hne (List.cons.inj (List.cons.inj heq).2).1
    · exact hne (List.cons.inj (List.cons.inj heq).2).1
    · exact hap s t (List.cons.inj (List.cons.inj heq).2).2

theorem apart_singleton : Apart k [k'] := by
  intro s t h
  have := congrArg List.length h
  rw [List.length_append, List.length_singleton, List.length_cons, List.length_cons] at this
  omega

theorem spaced_nil : Spaced ([] : List κ) := by
  intro s k m₁ m₂ t h
  simp at h

theorem exists_of_filter_eq {p : κ → Bool} {s r : List κ} (h : ks.filter p = s ++ k :: r) :
    ∃ s' r', ks = s' ++ k :: r' ∧ s'.filter p = s ∧ r'.filter p = r := by
  obtain ⟨s', q, rfl, hs', hq⟩ := List.filter_eq_append_iff.mp h
  obtain ⟨u, r', rfl, hu, -, hr'⟩ := List.filter_eq_cons_iff.mp hq
  refine ⟨s' ++ u, r', (List.append_assoc _ _ _).symm, ?_, hr'⟩
  rw [List.filter_append, hs', List.filter_eq_nil_iff.mpr hu, List.append_nil]

section

variable [DecidableEq κ]

/-- The condition for the first entry, and that for the others without those of its key. -/
theorem spaced_cons :
    Spaced (k :: ks) ↔ Apart k ks ∧ Spaced (ks.filter fun k' ↦ decide (k' ≠ k)) := by
  constructor
  · intro h
    refine ⟨fun s t heq ↦ ?_, fun s j m₁ m₂ t heq hs hm ↦ ?_⟩
    · exact h [] k s [] t (congrArg (k :: ·) heq) List.not_mem_nil (List.Subset.refl _)
    · have hj : j ≠ k := by
        have hmem : j ∈ ks.filter fun k' ↦ decide (k' ≠ k) :=
          heq ▸ List.mem_append_right s List.mem_cons_self
        exact of_decide_eq_true (List.mem_filter.mp hmem).2
      obtain ⟨s', r, rfl, rfl, hr⟩ := exists_of_filter_eq heq
      obtain ⟨m₁', r', rfl, rfl, hr'⟩ := exists_of_filter_eq hr
      obtain ⟨m₂', t', rfl, rfl, -⟩ := exists_of_filter_eq hr'
      have hs' : j ∉ k :: s' := by
        rw [List.mem_cons, not_or]
        exact ⟨hj, fun hmem ↦ hs (List.mem_filter.mpr ⟨hmem, decide_eq_true hj⟩)⟩
      refine h (k :: s') j m₁' m₂' t' rfl hs' fun i hi ↦ ?_
      by_cases hik : i = k
      · exact hik ▸ List.mem_cons_self
      · have := hm (List.mem_filter.mpr ⟨hi, decide_eq_true hik⟩)
        exact List.mem_cons_of_mem _ (List.mem_filter.mp this).1
  · rintro ⟨hap, h⟩ (_ | ⟨k₀, s⟩) j m₁ m₂ t heq hs hm
    · obtain ⟨rfl, rfl⟩ := List.cons.inj heq
      rw [List.subset_nil.mp hm] at hap
      exact hap m₁ t rfl
    · obtain ⟨rfl, rfl⟩ := List.cons.inj heq
      rw [List.mem_cons, not_or] at hs
      refine h (s.filter fun k' ↦ decide (k' ≠ k)) j (m₁.filter fun k' ↦ decide (k' ≠ k))
        (m₂.filter fun k' ↦ decide (k' ≠ k)) (t.filter fun k' ↦ decide (k' ≠ k)) ?_
        (fun hmem ↦ hs.2 (List.mem_filter.mp hmem).1) fun i hi ↦ ?_
      · have hkeep := decide_eq_true hs.1
        rw [List.append_eq, List.filter_append, List.filter_cons, hkeep, if_pos rfl, List.filter_append,
          List.filter_cons, hkeep, if_pos rfl, List.filter_append, List.filter_cons, hkeep, if_pos rfl]
      · obtain ⟨hi, hik⟩ := List.mem_filter.mp hi
        exact List.mem_filter.mpr ⟨(List.mem_cons.mp (hm hi)).resolve_left (of_decide_eq_true hik), hik⟩

end

/-! ## One pass -/

variable [DecidableEq κ] {f : α → κ} {l : List α}

/-- One pass: entries of a key are erased, and the entry after an erased one is skipped. -/
def pass (f : α → κ) (k : κ) : List α → List α
  | [] => []
  | [x] => if f x = k then [] else [x]
  | x :: y :: l => if f x = k then y :: pass f k l else x :: pass f k (y :: l)

theorem pass_sublist : (pass f k l).Sublist l := by
  fun_induction pass f k l with
  | case1 => exact List.Sublist.slnil
  | case2 x hx => exact List.nil_sublist _
  | case3 x hx => exact List.Sublist.refl _
  | case4 x y l hx ih => exact (ih.cons_cons y).cons x
  | case5 x y l hx ih => exact ih.cons_cons x

/-- A pass for each entry. -/
def scan (f : α → κ) : List α → List α
  | [] => []
  | x :: l => x :: scan f (pass f (f x) l)
  termination_by l => l.length
  decreasing_by exact Nat.lt_succ_of_le pass_sublist.length_le

theorem filter_pass : (pass f k l).filter (fun x ↦ decide (f x ≠ k)) = l.filter fun x ↦ decide (f x ≠ k) := by
  fun_induction pass f k l with
  | case1 => rfl
  | case2 x hx =>
    rw [List.filter_cons, decide_eq_false (not_not.mpr hx)]
    rfl
  | case3 x hx => rfl
  | case4 x y l hx ih =>
    rw [List.filter_cons (x := x), decide_eq_false (not_not.mpr hx), if_neg Bool.false_ne_true,
      List.filter_cons, List.filter_cons, ih]
  | case5 x y l hx ih => rw [List.filter_cons, List.filter_cons (x := x), ih]

theorem not_mem_pass : k ∉ (pass f k l).map f ↔ Apart k (l.map f) := by
  fun_induction pass f k l with
  | case1 => exact iff_of_true List.not_mem_nil fun s t h ↦ by simp at h
  | case2 x hx => exact iff_of_true List.not_mem_nil apart_singleton
  | case3 x hx => exact iff_of_true (fun h ↦ hx (List.mem_singleton.mp h).symm) apart_singleton
  | case4 x y l hx ih =>
    rw [List.map_cons, List.mem_cons, not_or, ih, List.map_cons, List.map_cons, hx, apart_cons_cons,
      ne_comm]
  | case5 x y l hx ih =>
    rw [List.map_cons, List.mem_cons, not_or, ih, List.map_cons (a := x), apart_cons_of_ne hx]
    exact and_iff_right (Ne.symm hx)

theorem pass_eq_filter (h : Apart k (l.map f)) : pass f k l = l.filter fun x ↦ decide (f x ≠ k) := by
  rw [← filter_pass, eq_comm, List.filter_eq_self]
  intro x hx
  rw [decide_eq_true_iff]
  rintro rfl
  exact not_mem_pass.mpr h (List.mem_map_of_mem hx)

/-! ## All passes -/

theorem scan_sublist (l : List α) : (scan f l).Sublist l := by
  fun_induction scan f l with
  | case1 => exact List.Sublist.slnil
  | case2 x l ih => exact (ih.trans pass_sublist).cons_cons x

theorem mem_map_scan (l : List α) : k ∈ (scan f l).map f ↔ k ∈ l.map f := by
  fun_induction scan f l with
  | case1 => rfl
  | case2 x l ih =>
    rw [List.map_cons, List.mem_cons, ih, List.map_cons, List.mem_cons]
    by_cases hk : k = f x
    · exact iff_of_true (Or.inl hk) (Or.inl hk)
    · rw [or_iff_right hk, or_iff_right hk]
      have hfilter : ∀ l : List α, k ∈ l.map f ↔ k ∈ (l.filter fun y ↦ decide (f y ≠ f x)).map f := by
        intro l
        rw [List.mem_map, List.mem_map]
        refine exists_congr fun y ↦ ⟨fun ⟨hy, hf⟩ ↦ ⟨List.mem_filter.mpr ⟨hy, ?_⟩, hf⟩,
          fun ⟨hy, hf⟩ ↦ ⟨(List.mem_filter.mp hy).1, hf⟩⟩
        rw [decide_eq_true_iff, hf]
        exact hk
      rw [hfilter, filter_pass, ← hfilter]

/-- **Every key is left once** if and only if the entries of each key are kept apart. -/
theorem nodup_scan_iff (l : List α) : ((scan f l).map f).Nodup ↔ Spaced (l.map f) := by
  fun_induction scan f l with
  | case1 => exact iff_of_true List.nodup_nil spaced_nil
  | case2 x l ih =>
    rw [List.map_cons, List.nodup_cons, mem_map_scan, not_mem_pass, ih, List.map_cons, spaced_cons]
    refine and_congr_right fun h ↦ ?_
    rw [pass_eq_filter h, List.filter_map]
    rfl

end SkippingErase

end Ns3
