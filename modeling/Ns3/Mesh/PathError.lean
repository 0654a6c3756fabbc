import Ns3.Library.SkippingErase
import Ns3.Mesh.HwmpRtable

/-!
# Path errors

When destinations have failed, their paths are deleted, and the precursors of the paths are told. A
neighbour may be a precursor of several of the paths, and it is to be told once: the entries of its
address but the first one are erased, in a loop over the indices that goes on behind the entry that
has moved to the place of the erased one.

So a neighbour is told more than once when it is a precursor of three of the destinations that follow
each other. What is counted, and the traces of the changes, are left out.
-/

namespace Ns3

namespace Hwmp

/-- The inner loop over the duplicates of an entry; its first argument bounds the rounds. -/
def innerLoop (i : ℕ) : ℕ → ℕ → PrecursorList → PrecursorList
  | 0, _, retval => retval
  | n + 1, j, retval =>
    if j < retval.length then
      innerLoop i n (j + 1) (if (retval[i]?).map Prod.snd = (retval[j]?).map Prod.snd then
        retval.eraseIdx j else retval)
    else retval

/-- The loop over the entries. -/
def outerLoop : ℕ → ℕ → PrecursorList → PrecursorList
  | 0, _, retval => retval
  | n + 1, i, retval =>
    if i < retval.length then outerLoop n (i + 1) (innerLoop i retval.length (i + 1) retval) else retval

namespace HwmpRtable

/-- The loop of `GetPerrReceivers` over the destinations. -/
def perrLoop (now : ℤ) : List FailedDestination → HwmpRtable → PrecursorList × HwmpRtable
  | [], t => ([], t)
  | failed :: failedDest, t =>
    let precursors := t.getPrecursors now failed.destination
    let t := (t.deleteReactivePath failed.destination).deleteProactivePathTo now failed.destination
    let r := perrLoop now failedDest t
    (precursors ++ r.1, r.2)

/-- `HwmpProtocol::GetPerrReceivers`, with the table that it leaves. -/
def getPerrReceivers (t : HwmpRtable) (now : ℤ) (failedDest : List FailedDestination) :
    PrecursorList × HwmpRtable :=
  let r := perrLoop now failedDest t
  (outerLoop r.1.length 0 r.1, r.2)

end HwmpRtable

/-- `HwmpProtocol::PathError`. -/
structure PathError where
  destinations : List FailedDestination
  receivers : PrecursorList
  deriving DecidableEq

namespace HwmpRtable

/-- `HwmpProtocol::MakePathError`, with the table that it leaves. -/
def makePathError (t : HwmpRtable) (now : ℤ) (destinations : List FailedDestination) :
    PathError × HwmpRtable :=
  let r := t.getPerrReceivers now destinations
  if r.1.length = 0 then (⟨[], r.1⟩, r.2)
  else (⟨destinations, r.1⟩, destinations.foldl (fun t failed ↦ t.deleteReactivePath failed.destination) r.2)

/-! ## What the receivers are -/

/-- An interface and the address of a precursor of the path to a destination that has not expired. -/
def IsPrecursor (t : HwmpRtable) (now : ℤ) (destination : Mac48Address) (r : UInt32 × Mac48Address) :
    Prop :=
  ∃ route p, OrderedMap.find destination t.m_routes = some route ∧ p ∈ route.precursors ∧
    p.whenExpire > now ∧ r = (p.interface, p.address)

/-- The receivers are the precursors of the destinations, and the address of each is there once. -/
structure OnceEach (t : HwmpRtable) (now : ℤ) (failedDest : List FailedDestination)
    (receivers : PrecursorList) : Prop where
  nodup : (receivers.map Prod.snd).Nodup
  all : ∀ failed ∈ failedDest, ∀ r, t.IsPrecursor now failed.destination r → r.2 ∈ receivers.map Prod.snd
  only : ∀ r ∈ receivers, ∃ failed ∈ failedDest, t.IsPrecursor now failed.destination r

/-- There is no reactive path to a destination, and the proactive path, if there is one, does not lead to it. -/
def NoPath (t : HwmpRtable) (now : ℤ) (destination : Mac48Address) : Prop :=
  OrderedMap.find destination t.m_routes = none ∧
    ¬ (t.m_root.root = destination ∧ (t.lookupProactiveExpired now).isValid = true)

/-- The precursors of the destinations, of each where it is listed first. -/
def listed (t : HwmpRtable) (now : ℤ) : List Mac48Address → List FailedDestination → PrecursorList
  | _, [] => []
  | seen, failed :: failedDest =>
    (if failed.destination ∈ seen then [] else t.getPrecursors now failed.destination) ++
      t.listed now (failed.destination :: seen) failedDest

end HwmpRtable

/-! ## The loops -/

section Loops

variable {i n : ℕ} {pre rest : PrecursorList} {x y : UInt32 × Mac48Address}

theorem innerLoop_of_le {j : ℕ} (hj : rest.length ≤ j) : innerLoop i n j rest = rest := by
  cases n with
  | zero => rfl
  | succ n => rw [innerLoop, if_neg (not_lt.mpr hj)]

theorem innerLoop_cons (hx : pre[i]? = some x) :
    innerLoop i (n + 1) pre.length (pre ++ y :: rest) =
      innerLoop i n (pre.length + 1) (if y.2 = x.2 then pre ++ rest else pre ++ y :: rest) := by
  have hi : i < pre.length := (List.getElem?_eq_some_iff.mp hx).1
  have hy : (pre ++ y :: rest)[pre.length]? = some y := by
    rw [List.getElem?_append_right (le_refl _), Nat.sub_self, List.getElem?_cons_zero]
  have herase : (pre ++ y :: rest).eraseIdx pre.length = pre ++ rest := by
    rw [List.eraseIdx_append_of_length_le (le_refl _), Nat.sub_self, List.eraseIdx_cons_zero]
  have hj : pre.length < (pre ++ y :: rest).length := by
    rw [List.length_append, List.length_cons]
    omega
  rw [innerLoop, if_pos hj, List.getElem?_append_left hi, hx, hy, herase, Option.map_some, Option.map_some]
  by_cases hxy : y.2 = x.2
  · rw [if_pos hxy, if_pos (congrArg some hxy.symm)]
  · rw [if_neg hxy, if_neg fun h ↦ hxy (Option.some_inj.mp h).symm]

/-- The loop over the indices is the pass over the entries behind them. -/
theorem innerLoop_eq (hx : pre[i]? = some x) (hn : rest.length ≤ n) :
    innerLoop i n pre.length (pre ++ rest) = pre ++ SkippingErase.pass Prod.snd x.2 rest := by
  have hpush : ∀ (pre : PrecursorList) y, pre[i]? = some x → (pre ++ [y])[i]? = some x := by
    intro pre y hx
    rw [List.getElem?_append_left (List.getElem?_eq_some_iff.mp hx).1, hx]
  induction rest using SkippingErase.pass.induct Prod.snd x.2 generalizing n pre with
  | case1 =>
    rw [List.append_nil, innerLoop_of_le (le_refl _), SkippingErase.pass, List.append_nil]
  | case2 y hy =>
    obtain ⟨n, rfl⟩ := Nat.exists_eq_add_of_le' hn
    rw [List.length_singleton, innerLoop_cons hx, if_pos hy, SkippingErase.pass, if_pos hy, List.append_nil,
      innerLoop_of_le (Nat.le_succ _)]
  | case3 y hy =>
    obtain ⟨n, rfl⟩ := Nat.exists_eq_add_of_le' hn
    rw [List.length_singleton, innerLoop_cons hx, if_neg hy, SkippingErase.pass, if_neg hy,
      innerLoop_of_le (by rw [List.length_append, List.length_singleton])]
  | case4 y z l hy ih =>
    obtain ⟨n, rfl⟩ := Nat.exists_eq_add_of_le' hn
    have hrest : pre ++ z :: l = (pre ++ [z]) ++ l := by rw [List.append_assoc, List.singleton_append]
    have hlen : pre.length + 1 = (pre ++ [z]).length := by rw [List.length_append, List.length_singleton]
    rw [List.length_cons, ← Nat.add_assoc, innerLoop_cons hx, if_pos hy, SkippingErase.pass, if_pos hy,
      hrest, hlen, ih (hpush pre z hx) (by rw [List.length_cons]; omega),
      List.append_assoc, List.singleton_append]
  | case5 y z l hy ih =>
    obtain ⟨n, rfl⟩ := Nat.exists_eq_add_of_le' hn
    have hrest : pre ++ y :: z :: l = (pre ++ [y]) ++ z :: l := by
      rw [List.append_assoc, List.singleton_append]
    have hlen : pre.length + 1 = (pre ++ [y]).length := by rw [List.length_append, List.length_singleton]
    rw [List.length_cons, ← Nat.add_assoc, innerLoop_cons hx, if_neg hy, SkippingErase.pass, if_neg hy,
      hrest, hlen, ih (hpush pre y hx) (Nat.le_add_left _ _), List.append_assoc, List.singleton_append]

theorem outerLoop_eq (hn : rest.length ≤ n) :
    outerLoop n pre.length (pre ++ rest) = pre ++ SkippingErase.scan Prod.snd rest := by
  induction n generalizing pre rest with
  | zero =>
    rw [List.length_eq_zero_iff.mp (Nat.le_zero.mp hn), SkippingErase.scan]
    rfl
  | succ n ih =>
    cases rest with
    | nil =>
      rw [List.append_nil, outerLoop, if_neg (lt_irrefl _), SkippingErase.scan, List.append_nil]
    | cons x rest =>
      have hj : pre.length < (pre ++ x :: rest).length := by
        rw [List.length_append, List.length_cons]
        omega
      have hx : (pre ++ [x])[pre.length]? = some x := by
        rw [List.getElem?_append_right (le_refl _), Nat.sub_self, List.getElem?_cons_zero]
      have hlen : pre.length + 1 = (pre ++ [x]).length := by rw [List.length_append, List.length_singleton]
      have hle : rest.length ≤ (pre ++ x :: rest).length := by
        rw [List.length_append, List.length_cons]
        omega
      have hpass : (SkippingErase.pass Prod.snd x.2 rest).length ≤ n :=
        SkippingErase.pass_sublist.length_le.trans (Nat.le_of_succ_le_succ hn)
      have hinner := innerLoop_eq hx hle
      rw [← hlen, List.append_assoc, List.singleton_append] at hinner
      rw [outerLoop, if_pos hj, hinner, hlen, ih hpass, SkippingErase.scan, List.append_assoc,
        List.singleton_append]

end Loops

namespace HwmpRtable

variable {t t' : HwmpRtable} {now : ℤ} {d d' : Mac48Address} {failedDest : List FailedDestination}
  {r : UInt32 × Mac48Address}

/-! ## The precursors -/

theorem mem_getPrecursors : r ∈ t.getPrecursors now d ↔ t.IsPrecursor now d r := by
  rw [getPrecursors, IsPrecursor]
  cases OrderedMap.find d t.m_routes with
  | none => exact iff_of_false List.not_mem_nil fun ⟨_, _, h, _⟩ ↦ nomatch h
  | some route =>
    dsimp only
    rw [List.mem_map]
    constructor
    · rintro ⟨p, hp, rfl⟩
      obtain ⟨hp, hexpire⟩ := List.mem_filter.mp hp
      exact ⟨route, p, rfl, hp, of_decide_eq_true hexpire, rfl⟩
    · rintro ⟨_, p, hroute, hp, hexpire, rfl⟩
      obtain rfl := Option.some_inj.mp hroute
      exact ⟨p, List.mem_filter.mpr ⟨hp, decide_eq_true hexpire⟩, rfl⟩

@[simp] theorem m_routes_deleteProactivePathTo : (t.deleteProactivePathTo now d).m_routes = t.m_routes := by
  rw [deleteProactivePathTo]
  split_ifs <;> rfl

/-- The paths to a destination are deleted. -/
def deletePaths (t : HwmpRtable) (now : ℤ) (d : Mac48Address) : HwmpRtable :=
  (t.deleteReactivePath d).deleteProactivePathTo now d

theorem find_deletePaths : OrderedMap.find d' (t.deletePaths now d).m_routes =
    if d' = d then none else OrderedMap.find d' t.m_routes := by
  rw [deletePaths, m_routes_deleteProactivePathTo, deleteReactivePath, OrderedMap.find_erase]

theorem getPrecursors_deletePaths : (t.deletePaths now d).getPrecursors now d' =
    if d' = d then [] else t.getPrecursors now d' := by
  rw [getPrecursors, find_deletePaths]
  by_cases h : d' = d
  · rw [if_pos h, if_pos h]
  · rw [if_neg h, if_neg h, getPrecursors]

theorem perrLoop_fst {seen : List Mac48Address} (h : ∀ d, t'.getPrecursors now d =
    if d ∈ seen then [] else t.getPrecursors now d) :
    (perrLoop now failedDest t').1 = t.listed now seen failedDest := by
  induction failedDest generalizing t' seen with
  | nil => rfl
  | cons failed failedDest ih =>
    rw [perrLoop, listed, h]
    refine congrArg _ (ih fun d ↦ ?_)
    rw [← deletePaths, getPrecursors_deletePaths, h]
    by_cases hd : d = failed.destination
    · rw [if_pos hd, if_pos (hd ▸ List.mem_cons_self)]
    · rw [if_neg hd]
      simp only [List.mem_cons, hd, false_or]

theorem mem_listed {seen : List Mac48Address} : r ∈ t.listed now seen failedDest ↔
    ∃ failed ∈ failedDest, failed.destination ∉ seen ∧ t.IsPrecursor now failed.destination r := by
  induction failedDest generalizing seen with
  | nil => exact iff_of_false List.not_mem_nil fun ⟨_, h, _⟩ ↦ absurd h List.not_mem_nil
  | cons failed failedDest ih =>
    rw [listed, List.mem_append, ih, List.exists_mem_cons_iff]
    by_cases hseen : failed.destination ∈ seen
    · rw [if_pos hseen, or_iff_right List.not_mem_nil, or_iff_right fun h ↦ h.1 hseen]
      refine exists_congr fun failed' ↦ and_congr_right fun _ ↦ and_congr_left fun _ ↦ not_congr ?_
      rw [List.mem_cons]
      exact or_iff_right_of_imp fun h ↦ h ▸ hseen
    · rw [if_neg hseen, mem_getPrecursors]
      constructor
      · rintro (hr | ⟨failed', hmem, hnot, hr⟩)
        · exact Or.inl ⟨hseen, hr⟩
        · exact Or.inr ⟨failed', hmem, fun h ↦ hnot (List.mem_cons_of_mem _ h), hr⟩
      · rintro (⟨-, hr⟩ | ⟨failed', hmem, hnot, hr⟩)
        · exact Or.inl hr
        · by_cases heq : failed'.destination = failed.destination
          · exact Or.inl (heq ▸ hr)
          · refine Or.inr ⟨failed', hmem, fun h ↦ ?_, hr⟩
            exact (List.mem_cons.mp h).elim heq hnot

theorem getPerrReceivers_fst : (t.getPerrReceivers now failedDest).1 =
    SkippingErase.scan Prod.snd (t.listed now [] failedDest) := by
  have hlisted : (perrLoop now failedDest t).1 = t.listed now [] failedDest :=
    perrLoop_fst fun d ↦ (if_neg List.not_mem_nil).symm
  rw [getPerrReceivers]
  dsimp only
  rw [hlisted]
  exact @outerLoop_eq _ [] _ (le_refl _)

theorem onceEach_iff : t.OnceEach now failedDest (t.getPerrReceivers now failedDest).1 ↔
    SkippingErase.Spaced ((t.listed now [] failedDest).map Prod.snd) := by
  rw [getPerrReceivers_fst, ← SkippingErase.nodup_scan_iff]
  refine ⟨fun h ↦ h.nodup, fun h ↦ ⟨h, fun failed hmem r hr ↦ ?_, fun r hr ↦ ?_⟩⟩
  · rw [SkippingErase.mem_map_scan]
    exact List.mem_map_of_mem (mem_listed.mpr ⟨failed, hmem, List.not_mem_nil, hr⟩)
  · obtain ⟨failed, hmem, -, hr⟩ := mem_listed.mp ((SkippingErase.scan_sublist _).subset hr)
    exact ⟨failed, hmem, hr⟩

/-! ## The paths -/

theorem NoPath.deletePaths (h : t.NoPath now d) : (t.deletePaths now d').NoPath now d := by
  refine ⟨?_, ?_⟩
  · rw [find_deletePaths, h.1, ite_self]
  · rw [HwmpRtable.deletePaths, deleteProactivePathTo]
    split_ifs with hroot
    · exact fun hvalid ↦ nomatch hvalid.2
    · exact h.2

theorem noPath_deletePaths : (t.deletePaths now d).NoPath now d := by
  refine ⟨?_, ?_⟩
  · rw [find_deletePaths, if_pos rfl]
  · rw [HwmpRtable.deletePaths, deleteProactivePathTo]
    split_ifs with hroot
    · exact fun hvalid ↦ nomatch hvalid.2
    · exact fun hvalid ↦ hroot hvalid.1

theorem NoPath.perrLoop (h : t.NoPath now d) : (perrLoop now failedDest t).2.NoPath now d := by
  induction failedDest generalizing t with
  | nil => exact h
  | cons failed failedDest ih => exact ih h.deletePaths

theorem noPath_perrLoop {failed : FailedDestination} (hmem : failed ∈ failedDest) :
    (HwmpRtable.perrLoop now failedDest t).2.NoPath now failed.destination := by
  induction failedDest generalizing t with
  | nil => cases hmem
  | cons first failedDest ih =>
    rcases List.mem_cons.mp hmem with rfl | hmem
    · exact noPath_deletePaths.perrLoop
    · exact ih hmem

theorem NoPath.deleteReactivePaths (h : t.NoPath now d) :
    (failedDest.foldl (fun t failed ↦ t.deleteReactivePath failed.destination) t).NoPath now d := by
  induction failedDest generalizing t with
  | nil => exact h
  | cons failed failedDest ih =>
    refine ih ⟨?_, h.2⟩
    change OrderedMap.find d (OrderedMap.erase failed.destination t.m_routes) = none
    rw [OrderedMap.find_erase, h.1, ite_self]

theorem noPath_makePathError {failed : FailedDestination} (hmem : failed ∈ failedDest) :
    (t.makePathError now failedDest).2.NoPath now failed.destination := by
  have h : (t.getPerrReceivers now failedDest).2.NoPath now failed.destination := noPath_perrLoop hmem
  rw [makePathError]
  split_ifs
  · exact h
  · exact h.deleteReactivePaths

/-- **Each precursor is told once**, and no path is left, if and only if the entries of each precursor,
from the second one on, are kept apart by one that is listed after the first of them. -/
theorem tells_iff (t : HwmpRtable) (now : ℤ) (failedDest : List FailedDestination) :
    (t.OnceEach now failedDest (t.getPerrReceivers now failedDest).1 ∧
      ∀ failed ∈ failedDest, (t.makePathError now failedDest).2.NoPath now failed.destination) ↔
    SkippingErase.Spaced ((t.listed now [] failedDest).map Prod.snd) :=
  (and_iff_left fun _ hmem ↦ noPath_makePathError hmem).trans onceEach_iff

/-- The address whose bytes are all the same. -/
def sameBytes (n : UInt8) : Mac48Address := List.Vector.replicate 6 n

/-- A table with three paths over one neighbour that another one uses. -/
def threePaths : HwmpRtable :=
  ⟨[1, 2, 3].map fun n ↦ (sameBytes n, ⟨sameBytes 8, 1, 10, 50, 1, [⟨sameBytes 9, 1, 50⟩]⟩),
    ⟨sameBytes 0, Mac48Address.getBroadcast, interfaceAny, maxMetric, 0, 0⟩⟩

/-- When the three destinations fail, the neighbour that uses the paths is told twice. -/
theorem not_onceEach : ¬ threePaths.OnceEach 5 ([1, 2, 3].map fun n ↦ ⟨sameBytes n, 2⟩)
    (threePaths.getPerrReceivers 5 ([1, 2, 3].map fun n ↦ ⟨sameBytes n, 2⟩)).1 := by
  intro h
  exact absurd h.nodup (by decide +kernel)

end HwmpRtable

end Hwmp

end Ns3
