import Mathlib

/-!
# Maps as sorted lists

A map over ordered keys is kept as the list of its entries, sorted by their keys. An insertion
replaces what is there under the key.
-/

namespace Ns3

namespace OrderedMap

variable {κ α β : Type*} {k k' : κ} {a : α} {l : List (κ × α)}

/-- The keys, in order. -/
def keys (l : List (κ × α)) : List κ := l.map Prod.fst

theorem mem_keys : k ∈ keys l ↔ ∃ x ∈ l, x.1 = k := List.mem_map

@[simp] theorem keys_nil : keys ([] : List (κ × α)) = [] := rfl

@[simp] theorem keys_cons (x : κ × α) (l : List (κ × α)) : keys (x :: l) = x.1 :: keys l := rfl

theorem mem_keys_filter {p : κ → Bool} : k ∈ keys (l.filter fun x ↦ p x.1) ↔ k ∈ keys l ∧ p k := by
  rw [mem_keys, mem_keys]
  constructor
  · rintro ⟨x, hx, rfl⟩
    obtain ⟨hx, hp⟩ := List.mem_filter.mp hx
    exact ⟨⟨x, hx, rfl⟩, hp⟩
  · rintro ⟨⟨x, hx, rfl⟩, hp⟩
    exact ⟨x, List.mem_filter.mpr ⟨hx, hp⟩, rfl⟩

/-- Each value is changed, or its entry removed. -/
def update (f : κ → α → Option β) (l : List (κ × α)) : List (κ × β) :=
  l.filterMap fun x ↦ (f x.1 x.2).map fun a ↦ (x.1, a)

theorem mem_update {f : κ → α → Option β} {x : κ × β} :
    x ∈ update f l ↔ ∃ a, (x.1, a) ∈ l ∧ f x.1 a = some x.2 := by
  rw [update, List.mem_filterMap]
  constructor
  · rintro ⟨y, hy, hx⟩
    obtain ⟨a, ha, rfl⟩ := Option.map_eq_some_iff.mp hx
    exact ⟨y.2, hy, ha⟩
  · rintro ⟨a, ha, hx⟩
    exact ⟨(x.1, a), ha, Option.map_eq_some_iff.mpr ⟨x.2, hx, rfl⟩⟩

variable [LinearOrder κ]

/-- Whether there is an entry. -/
def contains (k : κ) (l : List (κ × α)) : Bool := decide (k ∈ keys l)

/-- What is found under a key. -/
def find (k : κ) : List (κ × α) → Option α
  | [] => none
  | x :: l => if k = x.1 then some x.2 else find k l

/-- The entry of a key is set. -/
def insert (k : κ) (a : α) : List (κ × α) → List (κ × α)
  | [] => [(k, a)]
  | x :: l =>
    if k < x.1 then (k, a) :: x :: l else if k = x.1 then (k, a) :: l else x :: insert k a l

/-- The entry of a key is removed. -/
def erase (k : κ) (l : List (κ × α)) : List (κ × α) := l.filter fun x ↦ decide (x.1 ≠ k)

/-- The keys are in order. -/
def Sorted (l : List (κ × α)) : Prop := (keys l).Pairwise (· < ·)

instance : DecidablePred (Sorted (κ := κ) (α := α)) := fun l ↦
  inferInstanceAs (Decidable ((keys l).Pairwise (· < ·)))

theorem contains_iff : contains k l = true ↔ k ∈ keys l := decide_eq_true_iff

theorem contains_eq_false : contains k l = false ↔ k ∉ keys l := decide_eq_false_iff_not

@[simp] theorem sorted_nil : Sorted ([] : List (κ × α)) := List.Pairwise.nil

theorem sorted_cons {x : κ × α} : Sorted (x :: l) ↔ (∀ k ∈ keys l, x.1 < k) ∧ Sorted l :=
  List.pairwise_cons

theorem Sorted.nodup (h : Sorted l) : (keys l).Nodup := List.Pairwise.imp ne_of_lt h

theorem Sorted.filter {p : κ × α → Bool} (h : Sorted l) : Sorted (l.filter p) :=
  List.Pairwise.sublist (List.filter_sublist.map _) h

/-! ## Insertion -/

theorem mem_keys_insert (k : κ) (a : α) (l : List (κ × α)) :
    k' ∈ keys (insert k a l) ↔ k' = k ∨ k' ∈ keys l := by
  induction l with
  | nil => exact List.mem_cons
  | cons x l ih =>
    rw [insert]
    split_ifs with hlt heq
    · exact List.mem_cons
    · rw [heq, keys_cons, keys_cons, List.mem_cons]
      exact or_self_left.symm
    · rw [keys_cons, keys_cons, List.mem_cons, List.mem_cons, ih, or_left_comm]

theorem Sorted.insert (h : Sorted l) (k : κ) (a : α) : Sorted (insert k a l) := by
  induction l with
  | nil => exact List.pairwise_singleton _ _
  | cons x l ih =>
    obtain ⟨hx, hl⟩ := sorted_cons.mp h
    rw [OrderedMap.insert]
    split_ifs with hlt heq
    · refine sorted_cons.mpr ⟨fun k' hk' ↦ ?_, h⟩
      rcases List.mem_cons.mp hk' with rfl | hk'
      · exact hlt
      · exact hlt.trans (hx k' hk')
    · subst heq
      exact sorted_cons.mpr ⟨hx, hl⟩
    · refine sorted_cons.mpr ⟨fun k' hk' ↦ ?_, ih hl⟩
      rcases (mem_keys_insert k a l).mp hk' with rfl | hk'
      · exact lt_of_le_of_ne (not_lt.mp hlt) (Ne.symm heq)
      · exact hx k' hk'

theorem keys_insert_perm (a : α) (h : k ∉ keys l) : (keys (insert k a l)).Perm (k :: keys l) := by
  induction l with
  | nil => exact List.Perm.refl _
  | cons x l ih =>
    rw [keys_cons, List.mem_cons, not_or] at h
    rw [insert, if_neg h.1]
    split_ifs
    · exact List.Perm.refl _
    · exact ((ih h.2).cons x.1).trans (List.Perm.swap k x.1 _)

/-- Setting an entry that is there leaves the keys. -/
theorem Sorted.keys_insert (h : Sorted l) (a : α) (hk : k ∈ keys l) : keys (OrderedMap.insert k a l) = keys l := by
  induction l with
  | nil => exact absurd hk List.not_mem_nil
  | cons x l ih =>
    obtain ⟨hx, hl⟩ := sorted_cons.mp h
    rw [OrderedMap.insert]
    rcases List.mem_cons.mp hk with rfl | hk
    · rw [if_neg (lt_irrefl _), if_pos rfl]
      rfl
    · have hlt := hx k hk
      rw [if_neg (lt_asymm hlt), if_neg hlt.ne', keys_cons, ih hl hk, keys_cons]

theorem length_insert (a : α) (h : k ∉ keys l) : (insert k a l).length = l.length + 1 := by
  induction l with
  | nil => rfl
  | cons x l ih =>
    rw [keys_cons, List.mem_cons, not_or] at h
    rw [insert, if_neg h.1]
    split_ifs
    · rfl
    · exact congrArg (· + 1) (ih h.2)

/-! ## Removal -/

theorem mem_keys_erase (k : κ) (l : List (κ × α)) :
    k' ∈ keys (erase k l) ↔ k' ∈ keys l ∧ k' ≠ k := by
  rw [erase]
  exact (mem_keys_filter (p := fun k' ↦ decide (k' ≠ k))).trans
    (and_congr_right fun _ ↦ decide_eq_true_iff)

theorem Sorted.erase (h : Sorted l) (k : κ) : Sorted (erase k l) := h.filter

/-- Removing an entry that is there takes its key out. -/
theorem Sorted.keys_erase_perm (h : Sorted l) (hk : k ∈ keys l) :
    (keys l).Perm (k :: keys (OrderedMap.erase k l)) := by
  have hkeys : keys (OrderedMap.erase k l) = (keys l).erase k := by
    rw [h.nodup.erase_eq_filter, OrderedMap.erase, keys, keys, List.filter_map]
    refine congrArg _ (List.filter_congr fun x _ ↦ ?_)
    rw [Function.comp_apply, Bool.eq_iff_iff, decide_eq_true_iff, bne_iff_ne]
  rw [hkeys]
  exact List.perm_cons_erase hk

/-! ## What is found -/

@[simp] theorem find_nil (k : κ) : find k ([] : List (κ × α)) = none := rfl

theorem find_cons (k : κ) (x : κ × α) (l : List (κ × α)) :
    find k (x :: l) = if k = x.1 then some x.2 else find k l := rfl

theorem find_eq_none : find k l = none ↔ k ∉ keys l := by
  induction l with
  | nil => exact iff_of_true rfl List.not_mem_nil
  | cons x l ih =>
    rw [find_cons, keys_cons, List.mem_cons, not_or]
    by_cases hk : k = x.1
    · rw [if_pos hk]
      exact iff_of_false (Option.some_ne_none _) fun h ↦ h.1 hk
    · rw [if_neg hk]
      exact ih.trans (and_iff_right hk).symm

/-- An entry is found under its key. -/
theorem Sorted.find_eq_some (h : Sorted l) : find k l = some a ↔ (k, a) ∈ l := by
  induction l with
  | nil => exact iff_of_false (Option.some_ne_none _).symm List.not_mem_nil
  | cons x l ih =>
    obtain ⟨hx, hl⟩ := sorted_cons.mp h
    rw [find_cons, List.mem_cons]
    split_ifs with hk
    · subst hk
      rw [Option.some_inj]
      constructor
      · rintro rfl
        exact Or.inl rfl
      · rintro (heq | hmem)
        · rw [← heq]
        · exact absurd (hx x.1 (mem_keys.mpr ⟨_, hmem, rfl⟩)) (lt_irrefl _)
    · rw [ih hl]
      exact (or_iff_right fun heq ↦ hk (congrArg Prod.fst heq)).symm

theorem find_insert (k k' : κ) (a : α) (l : List (κ × α)) :
    find k' (insert k a l) = if k' = k then some a else find k' l := by
  induction l with
  | nil => rfl
  | cons x l ih =>
    rw [insert]
    by_cases hlt : k < x.1
    · rw [if_pos hlt]
      rfl
    rw [if_neg hlt]
    by_cases heq : k = x.1
    · rw [if_pos heq, find_cons, find_cons]
      by_cases hk : k' = k
      · rw [if_pos hk, if_pos hk]
      · rw [if_neg hk, if_neg hk, if_neg (heq ▸ hk)]
    · rw [if_neg heq, find_cons, find_cons, ih]
      by_cases hk : k' = x.1
      · rw [if_pos hk, if_pos hk, if_neg (hk.trans_ne (Ne.symm heq))]
      · rw [if_neg hk, if_neg hk]

theorem find_erase (k k' : κ) (l : List (κ × α)) :
    find k' (erase k l) = if k' = k then none else find k' l := by
  by_cases hk : k' = k
  · rw [if_pos hk, find_eq_none, mem_keys_erase]
    exact fun h ↦ h.2 hk
  rw [if_neg hk]
  induction l with
  | nil => rfl
  | cons x l ih =>
    rw [erase, List.filter_cons, find_cons]
    by_cases hx : x.1 = k
    · rw [decide_eq_false (not_not.mpr hx), if_neg Bool.false_ne_true, if_neg (hx ▸ hk)]
      exact ih
    · rw [decide_eq_true hx, if_pos rfl, find_cons, ← erase, ih]

/-! ## Changes of the values -/

theorem Sorted.update (f : κ → α → Option β) (h : Sorted l) : Sorted (update f l) := by
  refine List.Pairwise.map _ (fun _ _ hlt ↦ hlt) (List.Pairwise.filterMap _ ?_ (List.pairwise_map.mp h))
  intro x y hxy x' hx' y' hy'
  obtain ⟨_, -, rfl⟩ := Option.map_eq_some_iff.mp hx'
  obtain ⟨_, -, rfl⟩ := Option.map_eq_some_iff.mp hy'
  exact hxy

theorem Sorted.find_update (f : κ → α → Option β) (h : Sorted l) (k : κ) :
    find k (OrderedMap.update f l) = (find k l).bind (f k) := by
  apply Option.ext
  intro a
  rw [(h.update f).find_eq_some, mem_update, Option.bind_eq_some_iff]
  exact exists_congr fun b ↦ and_congr_left fun _ ↦ h.find_eq_some.symm

/-! ## The first entries -/

/-- The first entries with a property are all entries with it, if they are below the others. -/
theorem dropWhile_eq_filter {p : κ → Bool} (h : Sorted l)
    (hp : ∀ k ∈ keys l, p k = true → ∀ k' ∈ keys l, p k' = false → k < k') :
    (l.dropWhile fun x ↦ p x.1) = l.filter fun x ↦ !p x.1 := by
  induction l with
  | nil => rfl
  | cons x l ih =>
    obtain ⟨hx, hl⟩ := sorted_cons.mp h
    by_cases hpx : p x.1 = true
    · rw [List.dropWhile_cons, if_pos hpx, List.filter_cons, hpx]
      exact ih hl fun k hk hpk k' hk' ↦ hp k (List.mem_cons_of_mem _ hk) hpk k'
        (List.mem_cons_of_mem _ hk')
    · rw [List.dropWhile_cons, if_neg hpx, List.filter_eq_self.mpr]
      intro y hy
      rw [Bool.not_eq_true] at hpx
      rw [Bool.not_eq_true']
      by_contra hpy
      rw [Bool.not_eq_false] at hpy
      have hmem : y.1 ∈ keys (x :: l) := List.mem_map_of_mem hy
      rcases List.mem_cons.mp hy with rfl | hyl
      · rw [hpx] at hpy
        exact Bool.false_ne_true hpy
      · exact lt_asymm (hx y.1 (List.mem_map_of_mem hyl)) (hp y.1 hmem hpy x.1 List.mem_cons_self hpx)

end OrderedMap

end Ns3
