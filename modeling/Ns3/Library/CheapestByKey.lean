import Mathlib

/-!
# The cheapest of each key

A list holds at most one element of each key. An element that is offered to it is added at the end if there is
none of its key, or comes in place of that one if it is cheaper than it.

Read as a map from keys the list takes a step of `List.argmin` at the key of what is offered (`find?_offer`).
So after a whole list of offers it has for each key the first of the cheapest among what it held and what was
offered (`find?_foldl_offer`): an element that it held stays for good where no offer is cheaper.
-/

namespace Ns3

namespace CheapestByKey

variable {α κ β : Type*} [DecidableEq κ] [LinearOrder β] {key : α → κ} {cost : α → β}
variable {l : List α} {a b : α} {k : κ}

/-- An element is offered to the list. -/
def offer (key : α → κ) (cost : α → β) (l : List α) (a : α) : List α :=
  match l.find? fun b ↦ key b = key a with
  | none => l ++ [a]
  | some b => if cost a < cost b then l.eraseP (fun b ↦ key b = key a) ++ [a] else l

theorem offer_eq_findIdx? (key : α → κ) (cost : α → β) (l : List α) (a : α) :
    offer key cost l a = match l.findIdx? fun b ↦ key b = key a with
      | none => l ++ [a]
      | some i => if ∃ b ∈ l[i]?, cost a < cost b then l.eraseIdx i ++ [a] else l := by
  rw [offer, List.find?_eq_bind_findIdx?_getElem?, List.eraseP_eq_eraseIdx]
  cases hindex : l.findIdx? fun b ↦ key b = key a with
  | none => rfl
  | some i =>
    obtain ⟨hi, -⟩ := List.findIdx?_eq_some_iff_getElem.mp hindex
    simp [List.getElem?_eq_getElem hi]

/-! ## Lists with at most one element of each key -/

theorem filter_eq_toList (hl : (l.map key).Nodup) (k : κ) :
    l.filter (fun b ↦ key b = k) = (l.find? fun b ↦ key b = k).toList := by
  induction l with
  | nil => rfl
  | cons b l ih =>
    rw [List.map_cons, List.nodup_cons] at hl
    by_cases hb : key b = k
    · have hnone : l.filter (fun c ↦ key c = k) = [] :=
        List.filter_eq_nil_iff.mpr fun c hc hck ↦
          hl.1 (List.mem_map.mpr ⟨c, hc, (of_decide_eq_true hck).trans hb.symm⟩)
      simp [hb, hnone]
    · simp [hb, ih hl.2]

theorem find?_eq_some_of_mem (hl : (l.map key).Nodup) (ha : a ∈ l) :
    l.find? (fun b ↦ key b = key a) = some a := by
  have hmem : a ∈ l.filter fun b ↦ key b = key a :=
    List.mem_filter.mpr ⟨ha, decide_eq_true rfl⟩
  rw [filter_eq_toList hl] at hmem
  exact Option.mem_toList.mp hmem

theorem find?_eraseP_of_ne {k' : κ} (hk : k' ≠ k) :
    (l.eraseP fun b ↦ key b = k').find? (fun b ↦ key b = k) = l.find? fun b ↦ key b = k := by
  induction l with
  | nil => rfl
  | cons b l ih =>
    by_cases hb : key b = k'
    · simp [hb, hk]
    · simp [hb, List.find?_cons, ih]

theorem key_not_mem_eraseP (hl : (l.map key).Nodup) (k : κ) :
    k ∉ (l.eraseP fun b ↦ key b = k).map key := by
  induction l with
  | nil => exact List.not_mem_nil
  | cons b l ih =>
    rw [List.map_cons, List.nodup_cons] at hl
    by_cases hb : key b = k
    · rw [List.eraseP_cons, decide_eq_true hb, cond_true, ← hb]
      exact hl.1
    · rw [List.eraseP_cons, decide_eq_false hb, cond_false, List.map_cons, List.mem_cons]
      exact not_or.mpr ⟨fun h ↦ hb h.symm, ih hl.2⟩

/-! ## One offer -/

theorem nodup_offer (hl : (l.map key).Nodup) (a : α) : ((offer key cost l a).map key).Nodup := by
  have happend : ∀ l' : List α, (l'.map key).Nodup → key a ∉ l'.map key →
      ((l' ++ [a]).map key).Nodup := fun l' hl' ha ↦ by
    rw [List.map_append, List.map_singleton]
    exact List.nodup_append.mpr ⟨hl', List.nodup_singleton _, fun x hx y hy ↦ by
      rw [List.mem_singleton.mp hy]
      exact ne_of_mem_of_not_mem hx ha⟩
  rw [offer]
  split
  · rename_i hnone
    refine happend l hl fun ha ↦ ?_
    obtain ⟨b, hb, hba⟩ := List.mem_map.mp ha
    exact List.find?_eq_none.mp hnone b hb (decide_eq_true hba)
  · split_ifs
    · exact happend _ (hl.sublist (List.Sublist.map key List.eraseP_sublist)) (key_not_mem_eraseP hl _)
    · exact hl

/-- **An offer** is a step of the search for a minimum among the elements of its key. -/
theorem find?_offer (hl : (l.map key).Nodup) (a : α) (k : κ) :
    (offer key cost l a).find? (fun b ↦ key b = k) =
      if key a = k then List.argAux (fun b c ↦ cost b < cost c) (l.find? fun b ↦ key b = k) a
      else l.find? fun b ↦ key b = k := by
  by_cases hk : key a = k
  · subst hk
    rw [if_pos rfl, offer]
    cases hfind : l.find? fun b ↦ key b = key a with
    | none =>
      dsimp only
      rw [List.find?_append, hfind, Option.none_or, List.find?_singleton, if_pos (decide_eq_true rfl)]
      rfl
    | some b =>
      have hgone : (l.eraseP fun b ↦ key b = key a).find? (fun b ↦ key b = key a) = none :=
        List.find?_eq_none.mpr fun c hc hca ↦ key_not_mem_eraseP hl (key a)
          (List.mem_map.mpr ⟨c, hc, of_decide_eq_true hca⟩)
      dsimp only [List.argAux]
      split_ifs
      · rw [List.find?_append, hgone, Option.none_or, List.find?_singleton, if_pos (decide_eq_true rfl)]
      · exact hfind
  · have hlast : [a].find? (fun b ↦ key b = k) = none := by
      rw [List.find?_singleton, if_neg fun h ↦ hk (of_decide_eq_true h)]
    rw [if_neg hk, offer]
    split
    · rw [List.find?_append, hlast, Option.or_none]
    · split_ifs
      · rw [List.find?_append, hlast, Option.or_none, find?_eraseP_of_ne hk]
      · rfl

/-! ## A list of offers -/

theorem nodup_foldl_offer (hl : (l.map key).Nodup) (as : List α) :
    ((as.foldl (offer key cost) l).map key).Nodup := by
  induction as generalizing l with
  | nil => exact hl
  | cons a as ih => exact ih (nodup_offer hl a)

variable (cost) in
/-- **After the offers** the list has the first of the cheapest of each key. -/
theorem find?_foldl_offer (hl : (l.map key).Nodup) (as : List α) (k : κ) :
    (as.foldl (offer key cost) l).find? (fun b ↦ key b = k) =
      ((l.find? fun b ↦ key b = k).toList ++ as.filter fun b ↦ key b = k).argmin cost := by
  have hstart : ∀ (o : Option α) (as : List α), (o.toList ++ as).argmin cost =
      as.foldl (List.argAux fun b c ↦ cost b < cost c) o := by
    rintro (_ | b) as <;> rfl
  rw [hstart]
  induction as generalizing l with
  | nil => rfl
  | cons a as ih =>
    rw [List.foldl_cons, ih (nodup_offer hl a), find?_offer hl]
    by_cases hk : key a = k
    · simp [hk]
    · simp [hk]

omit [DecidableEq κ] in
theorem argmin_cons_of_forall_le {as : List α} (h : ∀ a ∈ as, cost b ≤ cost a) :
    (b :: as).argmin cost = some b := by
  rw [List.argmin_cons]
  cases hmin : as.argmin cost with
  | none => rfl
  | some a => exact if_neg (not_lt_of_ge (h a (List.argmin_mem hmin)))

theorem mem_foldl_offer_of_forall_le (hl : (l.map key).Nodup) {as : List α} (hb : b ∈ l)
    (h : ∀ a ∈ as, key a = key b → cost b ≤ cost a) : b ∈ as.foldl (offer key cost) l := by
  have hfind := find?_foldl_offer cost hl as (key b)
  rw [find?_eq_some_of_mem hl hb, Option.toList_some, List.singleton_append,
    argmin_cons_of_forall_le fun a ha ↦ ?_] at hfind
  · exact List.mem_of_find?_eq_some hfind
  · obtain ⟨ha, hak⟩ := List.mem_filter.mp ha
    exact h a ha (of_decide_eq_true hak)

theorem le_of_mem_foldl_offer (hl : (l.map key).Nodup) {as : List α}
    (hb : b ∈ as.foldl (offer key cost) l) : (b ∈ l ∨ b ∈ as) ∧
      (∀ a ∈ l, key a = key b → cost b ≤ cost a) ∧ ∀ a ∈ as, key a = key b → cost b ≤ cost a := by
  have hfind := find?_eq_some_of_mem (nodup_foldl_offer hl as) hb
  rw [find?_foldl_offer cost hl, ← filter_eq_toList hl, ← List.filter_append] at hfind
  have hle : ∀ a ∈ l ++ as, key a = key b → cost b ≤ cost a := fun a ha hak ↦
    List.le_of_mem_argmin (List.mem_filter.mpr ⟨ha, decide_eq_true hak⟩) hfind
  exact ⟨List.mem_append.mp (List.mem_filter.mp (List.argmin_mem hfind)).1,
    fun a ha ↦ hle a (List.mem_append_left _ ha), fun a ha ↦ hle a (List.mem_append_right _ ha)⟩

variable (cost) in
theorem exists_mem_foldl_offer (hl : (l.map key).Nodup) {as : List α} (ha : a ∈ l ∨ a ∈ as) :
    ∃ b ∈ as.foldl (offer key cost) l, key b = key a := by
  have hfind := find?_foldl_offer cost hl as (key a)
  rw [← filter_eq_toList hl, ← List.filter_append] at hfind
  cases hmin : ((l ++ as).filter fun b ↦ key b = key a).argmin cost with
  | none =>
    rw [List.argmin_eq_none, List.filter_eq_nil_iff] at hmin
    exact absurd (decide_eq_true rfl) (hmin a (List.mem_append.mpr ha))
  | some b =>
    rw [hmin] at hfind
    have hkey := List.find?_some hfind
    exact ⟨b, List.mem_of_find?_eq_some hfind, of_decide_eq_true hkey⟩

end CheapestByKey

end Ns3
