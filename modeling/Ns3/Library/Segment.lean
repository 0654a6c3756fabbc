import Mathlib

/-!
# Segments of a sequence of lists

Lists are cut into segments and joined again. A segment says of itself whether it has the first and
the last element of the list that it was cut from, and nothing else: `join` goes through segments from
left to right, keeps what it has of a list that is not finished, and drops the rest of a list whose
beginning it does not have.

Cutting a segment in two does not change what is joined (`join_cut`), so that for segments that are
sent from a queue, what has been joined and what will be joined of the queue are together always the
lists that were put into it.
-/

/-- A segment of a list, and whether it has the first and the last element. -/
structure Segment (α : Type*) where
  data : List α
  first : Bool
  last : Bool
  deriving DecidableEq

namespace Segment

variable {α : Type*} {kept : Option (List α)} {s : Segment α} {ss ts : List (Segment α)}
  {n : ℕ} {ls rest : List (List α)}

/-! ## Joining -/

/-- What there is of a list after one more segment. -/
def extend (kept : Option (List α)) (s : Segment α) : Option (List α) :=
  if s.first then some s.data else kept.map (· ++ s.data)

/-- The lists that segments finish, and what they leave unfinished. -/
def join : Option (List α) → List (Segment α) → List (List α) × Option (List α)
  | kept, [] => ([], kept)
  | kept, s :: ss =>
    if s.last then ((extend kept s).toList ++ (join none ss).1, (join none ss).2)
    else join (extend kept s) ss

@[simp] theorem join_nil : join kept [] = ([], kept) := rfl

theorem join_cons_last (h : s.last = true) :
    join kept (s :: ss) = ((extend kept s).toList ++ (join none ss).1, (join none ss).2) := if_pos h

theorem join_cons_not_last (h : s.last = false) : join kept (s :: ss) = join (extend kept s) ss := by
  rw [join, h]
  rfl

theorem join_append : ∀ (kept : Option (List α)) (ss ts : List (Segment α)),
    join kept (ss ++ ts) =
      ((join kept ss).1 ++ (join (join kept ss).2 ts).1, (join (join kept ss).2 ts).2)
  | _, [], _ => rfl
  | kept, s :: ss, ts => by
    rw [List.cons_append]
    cases h : s.last with
    | true =>
      rw [join_cons_last h, join_cons_last h, join_append none ss ts]
      exact Prod.ext (List.append_assoc _ _ _).symm rfl
    | false =>
      rw [join_cons_not_last h, join_cons_not_last h]
      exact join_append _ ss ts

/-- **Cutting a segment in two does not change what is joined.** -/
theorem join_cut (kept : Option (List α)) (a b : List α) (f l : Bool) (ss : List (Segment α)) :
    join kept (⟨a, f, false⟩ :: ⟨b, false, l⟩ :: ss) = join kept (⟨a ++ b, f, l⟩ :: ss) := by
  have hextend : extend (extend kept ⟨a, f, false⟩) ⟨b, false, l⟩ = extend kept ⟨a ++ b, f, l⟩ := by
    cases f with
    | true => rfl
    | false =>
      cases kept with
      | none => rfl
      | some x => exact congrArg some (List.append_assoc x a b)
  rw [join_cons_not_last rfl]
  cases l with
  | true => rw [join_cons_last rfl, join_cons_last rfl, hextend]
  | false => rw [join_cons_not_last rfl, join_cons_not_last rfl, hextend]

/-! ## Segments of which only the first and the last can be incomplete -/

/-- Lists are finished, all but the last one if that is not `complete`. -/
def finish (complete : Bool) (lists : List (List α)) : List (List α) × Option (List α) :=
  if complete then (lists, none) else (lists.dropLast, lists.getLast?)

theorem finish_append {complete : Bool} {lists : List (List α)} (h : rest ≠ []) :
    finish complete (lists ++ rest) =
      (lists ++ (finish complete rest).1, (finish complete rest).2) := by
  cases complete with
  | true => rfl
  | false =>
    change ((lists ++ rest).dropLast, (lists ++ rest).getLast?) = _
    rw [List.dropLast_append_of_ne_nil h, List.getLast?_append_of_ne_nil _ h]
    rfl

/-- **All but the first continue nothing, and all but the last leave nothing open.** -/
theorem join_block (kept : Option (List α)) (s : Segment α) (ss : List (Segment α))
    (hfirst : ∀ t ∈ ss, t.first = true) (hlast : ∀ t ∈ (s :: ss).dropLast, t.last = true) :
    join kept (s :: ss) = finish ((s :: ss).getLast (List.cons_ne_nil _ _)).last
      ((extend kept s).toList ++ ss.map data) := by
  induction ss generalizing kept s with
  | nil =>
    rw [List.getLast_singleton, List.map_nil, List.append_nil]
    cases hs : s.last with
    | true =>
      rw [join_cons_last hs, join_nil, List.append_nil]
      rfl
    | false =>
      rw [join_cons_not_last hs, join_nil]
      cases extend kept s with
      | none => rfl
      | some x => rfl
  | cons t ss ih =>
    rw [List.forall_mem_cons] at hfirst
    rw [List.dropLast_cons_of_ne_nil (List.cons_ne_nil _ _), List.forall_mem_cons] at hlast
    have hextend : extend none t = some t.data := if_pos hfirst.1
    rw [join_cons_last hlast.1, ih none t hfirst.2 hlast.2, hextend, List.map_cons,
      finish_append (List.cons_ne_nil _ _), List.getLast_cons (List.cons_ne_nil _ _)]
    rfl

/-! ## Segments in sequence -/

/-- Each segment goes on where the one before it has stopped; `isOpen` says whether a list is
unfinished at the start. -/
def Consecutive : Bool → List (Segment α) → Prop
  | _, [] => True
  | isOpen, s :: ss => s.first = !isOpen ∧ Consecutive (!s.last) ss

/-- Whether a list is unfinished at the end. -/
def openAfter : Bool → List (Segment α) → Bool
  | isOpen, [] => isOpen
  | _, s :: ss => openAfter (!s.last) ss

theorem consecutive_append {isOpen : Bool} : Consecutive isOpen (ss ++ ts) ↔
    Consecutive isOpen ss ∧ Consecutive (openAfter isOpen ss) ts := by
  induction ss generalizing isOpen with
  | nil => exact ⟨fun h ↦ ⟨trivial, h⟩, And.right⟩
  | cons s ss ih =>
    rw [List.cons_append, Consecutive, ih, Consecutive, openAfter, and_assoc]

theorem consecutive_cut {isOpen : Bool} {a b : List α} {f l : Bool} :
    Consecutive isOpen (⟨a, f, false⟩ :: ⟨b, false, l⟩ :: ss) ↔
      Consecutive isOpen (⟨a ++ b, f, l⟩ :: ss) := by
  rw [Consecutive, Consecutive, Consecutive]
  exact and_congr_right fun _ ↦ and_iff_right rfl

theorem first_of_consecutive {isOpen : Bool} (h : Consecutive isOpen (s :: ss))
    (hlast : ∀ t ∈ (s :: ss).dropLast, t.last = true) : ∀ t ∈ ss, t.first = true := by
  induction ss generalizing isOpen s with
  | nil => exact fun t ht ↦ absurd ht List.not_mem_nil
  | cons t ss ih =>
    rw [List.dropLast_cons_of_ne_nil (List.cons_ne_nil _ _), List.forall_mem_cons] at hlast
    have hnext := h.2
    rw [hlast.1] at hnext
    exact List.forall_mem_cons.mpr ⟨hnext.1, ih hnext hlast.2⟩

theorem isSome_extend (h : s.first = !kept.isSome) : (extend kept s).isSome = true := by
  rw [extend]
  split_ifs with hfirst
  · rfl
  · rw [Option.isSome_map, ← Bool.not_eq_false, ← Bool.not_eq_true', ← h]
    exact hfirst

theorem isSome_join (kept : Option (List α)) (h : Consecutive kept.isSome ss) :
    (join kept ss).2.isSome = openAfter kept.isSome ss := by
  induction ss generalizing kept with
  | nil => rfl
  | cons s ss ih =>
    cases hlast : s.last with
    | true =>
      rw [join_cons_last hlast, openAfter, hlast]
      refine ih none ?_
      have := h.2
      rwa [hlast] at this
    | false =>
      rw [join_cons_not_last hlast, openAfter, hlast, ih]
      · rw [isSome_extend h.1]
        rfl
      · have := h.2
        rw [hlast] at this
        rw [isSome_extend h.1]
        exact this

theorem getD_extend (h : s.first = !kept.isSome) :
    (extend kept s).getD [] = kept.getD [] ++ s.data := by
  cases kept with
  | none =>
    rw [extend, if_pos (show s.first = true from h)]
    rfl
  | some x =>
    rw [extend, if_neg (by rw [h]; exact Bool.false_ne_true)]
    rfl

theorem join_flatten (kept : Option (List α)) (h : Consecutive kept.isSome ss) :
    (join kept ss).1.flatten ++ (join kept ss).2.getD [] =
      kept.getD [] ++ (ss.map data).flatten := by
  induction ss generalizing kept with
  | nil => rw [join_nil, List.map_nil, List.flatten_nil, List.nil_append, List.append_nil]
  | cons s ss ih =>
    rw [List.map_cons, List.flatten_cons, ← List.append_assoc, ← getD_extend h.1]
    obtain ⟨x, hx⟩ := Option.isSome_iff_exists.mp (isSome_extend h.1)
    have hnext := h.2
    cases hlast : s.last with
    | true =>
      rw [hlast] at hnext
      rw [join_cons_last hlast, List.flatten_append, List.append_assoc,
        ih none hnext, hx]
      simp
    | false =>
      rw [hlast] at hnext
      rw [join_cons_not_last hlast]
      exact ih _ (by rw [isSome_extend h.1]; exact hnext)

/-! ## The lists of which everything has been sent -/

/-- The lists that end within the first `n` elements. -/
def endingWithin : ℕ → List (List α) → List (List α)
  | _, [] => []
  | n, l :: ls => if l.length ≤ n then l :: endingWithin (n - l.length) ls else []

theorem endingWithin_append (ls rest : List (List α)) (n : ℕ) :
    endingWithin (ls.flatten.length + n) (ls ++ rest) = ls ++ endingWithin n rest := by
  induction ls with
  | nil => rw [List.flatten_nil, List.length_nil, Nat.zero_add, List.nil_append, List.nil_append]
  | cons l ls ih =>
    rw [List.cons_append, endingWithin, List.flatten_cons, List.length_append, add_assoc,
      if_pos (Nat.le_add_right _ _), Nat.add_sub_cancel_left, ih, List.cons_append]

theorem join_some {x : List α} (h : Consecutive true ss) (hnone : (join (some x) ss).2 = none) :
    ∃ y rest, (join (some x) ss).1 = (x ++ y) :: rest := by
  induction ss generalizing x with
  | nil => cases hnone
  | cons s ss ih =>
    have hextend : extend (some x) s = some (x ++ s.data) :=
      if_neg (by rw [h.1]; exact Bool.false_ne_true)
    have hnext := h.2
    cases hlast : s.last with
    | true =>
      rw [join_cons_last hlast, hextend]
      exact ⟨s.data, (join none ss).1, rfl⟩
    | false =>
      rw [hlast] at hnext
      rw [join_cons_not_last hlast, hextend] at hnone ⊢
      obtain ⟨y, rest, hjoin⟩ := ih hnext hnone
      exact ⟨s.data ++ y, rest, by rw [hjoin, List.append_assoc]⟩

theorem join_cons (h : Consecutive kept.isSome (s :: ss)) (hnone : (join kept (s :: ss)).2 = none) :
    ∃ y rest, (join kept (s :: ss)).1 = (kept.getD [] ++ s.data ++ y) :: rest := by
  rw [← getD_extend h.1]
  obtain ⟨x, hx⟩ := Option.isSome_iff_exists.mp (isSome_extend h.1)
  have hnext := h.2
  cases hlast : s.last with
  | true =>
    rw [join_cons_last hlast, hx]
    exact ⟨[], (join none ss).1, by simp⟩
  | false =>
    rw [hlast] at hnext
    rw [join_cons_not_last hlast, hx] at hnone ⊢
    exact join_some hnext hnone

/-- **What has been joined is what ends within the elements that were sent**, where the segments that
are left finish the lists that were put in, and none of them is empty. -/
theorem join_eq_endingWithin (hjoin : join none (ss ++ ts) = (ls, none))
    (hconsecutive : Consecutive false (ss ++ ts)) (hdata : ∀ t ∈ ts, t.data ≠ []) :
    (join none ss).1 = endingWithin (ss.map data).flatten.length ls := by
  rw [consecutive_append] at hconsecutive
  have hflatten := join_flatten none hconsecutive.1
  have hopen := isSome_join none hconsecutive.1
  rw [Option.getD_none, List.nil_append] at hflatten
  rw [join_append, Prod.mk.injEq] at hjoin
  rw [← hflatten, List.length_append, ← hjoin.1, endingWithin_append]
  suffices hend : endingWithin ((join none ss).2.getD []).length
      (join (join none ss).2 ts).1 = [] by
    rw [hend, List.append_nil]
  cases ts with
  | nil =>
    rw [join_nil, endingWithin]
  | cons t ts =>
    have hnext := hconsecutive.2
    rw [show openAfter false ss = (join none ss).2.isSome from hopen.symm] at hnext
    obtain ⟨y, rest, hrest⟩ := join_cons hnext hjoin.2
    have hpos := List.length_pos_iff.mpr (hdata t List.mem_cons_self)
    rw [hrest, endingWithin, if_neg]
    rw [List.length_append, List.length_append]
    omega

end Segment
