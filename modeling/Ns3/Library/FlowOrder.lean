import Mathlib

/-!
# The order of the items of a flow

Items are numbered as they arrive and each one belongs to a flow. They wait in queues, from which they are
returned, or lost. Each queue is in the order of arrival, so the items of a flow are returned in that order
as long as those of them that wait are all in one queue. A flow may move to another queue only when none
of its items are left.
-/

namespace Ns3

/-- Items that have arrived, those that wait in each queue, and those that have been returned: the flows
keep their order. -/
structure FlowOrder {κ ι : Type*} (flows : List κ) (queues : ι → List ℕ) (returned : List ℕ) : Prop where
  queued_lt : ∀ i, ∀ n ∈ queues i, n < flows.length
  returned_lt : ∀ n ∈ returned, n < flows.length
  increasing : ∀ i, (queues i).Pairwise (· < ·)
  together : ∀ i, ∀ m ∈ queues i, ∀ j, ∀ n ∈ queues j, flows[m]? = flows[n]? → i = j
  before : ∀ m ∈ returned, ∀ i, ∀ n ∈ queues i, flows[m]? = flows[n]? → m < n
  inOrder : returned.Pairwise fun m n ↦ flows[m]? = flows[n]? → m < n

namespace FlowOrder

variable {κ ι : Type*} {flows : List κ} {queues queues' : ι → List ℕ} {returned : List ℕ}

theorem nil : FlowOrder ([] : List κ) (fun _ : ι ↦ []) [] where
  queued_lt _ _ hn := absurd hn List.not_mem_nil
  returned_lt _ hn := absurd hn List.not_mem_nil
  increasing _ := List.Pairwise.nil
  together _ _ hm := absurd hm List.not_mem_nil
  before _ hm := absurd hm List.not_mem_nil
  inOrder := List.Pairwise.nil

theorem arrive (h : FlowOrder flows queues returned) (f : κ) :
    FlowOrder (flows ++ [f]) queues returned := by
  have hlength : flows.length < (flows ++ [f]).length := by
    rw [List.length_append, List.length_singleton]
    exact Nat.lt_succ_self _
  have hsame : ∀ n < flows.length, (flows ++ [f])[n]? = flows[n]? :=
    fun n hn ↦ List.getElem?_append_left hn
  refine ⟨fun i n hn ↦ (h.queued_lt i n hn).trans hlength,
    fun n hn ↦ (h.returned_lt n hn).trans hlength, h.increasing, ?_, ?_, ?_⟩
  · rintro i m hm j n hn heq
    rw [hsame m (h.queued_lt i m hm), hsame n (h.queued_lt j n hn)] at heq
    exact h.together i m hm j n hn heq
  · rintro m hm i n hn heq
    rw [hsame m (h.returned_lt m hm), hsame n (h.queued_lt i n hn)] at heq
    exact h.before m hm i n hn heq
  · refine h.inOrder.imp_of_mem ?_
    rintro m n hm hn hlt heq
    rw [hsame m (h.returned_lt m hm), hsame n (h.returned_lt n hn)] at heq
    exact hlt heq

/-- **An item arrives in a queue** in which all items of its flow are. -/
theorem enqueue [DecidableEq ι] (h : FlowOrder flows queues returned) {f : κ} {i : ι}
    (hside : ∀ j, ∀ n ∈ queues j, flows[n]? = some f → j = i) :
    FlowOrder (flows ++ [f]) (Function.update queues i (queues i ++ [flows.length])) returned := by
  have harrive := h.arrive f
  have hnew : (flows ++ [f])[flows.length]? = some f := by simp
  -- An item of a queue was there before or is the new one.
  have hmem : ∀ j, ∀ n ∈ Function.update queues i (queues i ++ [flows.length]) j,
      n ∈ queues j ∨ j = i ∧ n = flows.length := by
    rintro j n hn
    rcases eq_or_ne j i with rfl | hne
    · rw [Function.update_self, List.mem_append, List.mem_singleton] at hn
      exact hn.imp id fun heq ↦ ⟨rfl, heq⟩
    · rw [Function.update_of_ne hne] at hn
      exact Or.inl hn
  have hflow : ∀ j, ∀ n ∈ queues j, (flows ++ [f])[n]? = some f → j = i := by
    rintro j n hn heq
    rw [List.getElem?_append_left (h.queued_lt j n hn)] at heq
    exact hside j n hn heq
  refine ⟨?_, harrive.returned_lt, ?_, ?_, ?_, harrive.inOrder⟩
  · rintro j n hn
    rcases hmem j n hn with hn | ⟨-, rfl⟩
    · exact harrive.queued_lt j n hn
    · simp
  · intro j
    rcases eq_or_ne j i with rfl | hne
    · rw [Function.update_self, List.pairwise_append]
      refine ⟨h.increasing j, List.pairwise_singleton _ _, ?_⟩
      rintro m hm n hn
      rw [List.mem_singleton.mp hn]
      exact h.queued_lt j m hm
    · rw [Function.update_of_ne hne]
      exact h.increasing j
  · rintro j m hm k n hn heq
    rcases hmem j m hm with hm' | ⟨rfl, rfl⟩
    · rcases hmem k n hn with hn' | ⟨rfl, rfl⟩
      · exact harrive.together j m hm' k n hn' heq
      · exact hflow j m hm' (heq.trans hnew)
    · rcases hmem k n hn with hn' | ⟨rfl, -⟩
      · exact (hflow k n hn' (heq.symm.trans hnew)).symm
      · rfl
  · rintro m hm j n hn heq
    rcases hmem j n hn with hn | ⟨-, rfl⟩
    · exact harrive.before m hm j n hn heq
    · exact h.returned_lt m hm

theorem shrink (h : FlowOrder flows queues returned) (hsub : ∀ i, (queues' i).Sublist (queues i)) :
    FlowOrder flows queues' returned where
  queued_lt i n hn := h.queued_lt i n ((hsub i).subset hn)
  returned_lt := h.returned_lt
  increasing i := (h.increasing i).sublist (hsub i)
  together i m hm j n hn := h.together i m ((hsub i).subset hm) j n ((hsub j).subset hn)
  before m hm i n hn := h.before m hm i n ((hsub i).subset hn)
  inOrder := h.inOrder

/-- **An item is returned**, and those in front of it are lost. -/
theorem dequeue (h : FlowOrder flows queues returned) {i : ι} {n : ℕ}
    (hfront : (n :: queues' i).Sublist (queues i))
    (hsub : ∀ j, (queues' j).Sublist (queues j)) : FlowOrder flows queues' (returned ++ [n]) := by
  have hn : n ∈ queues i := hfront.subset List.mem_cons_self
  have hlt := (List.pairwise_cons.mp ((h.increasing i).sublist hfront)).1
  have hshrink := h.shrink hsub
  refine ⟨hshrink.queued_lt, ?_, hshrink.increasing, hshrink.together, ?_, ?_⟩
  · rintro m hm
    rcases List.mem_append.mp hm with hm | hm
    · exact h.returned_lt m hm
    · rw [List.mem_singleton.mp hm]
      exact h.queued_lt i n hn
  · rintro m hm j k hk heq
    rcases List.mem_append.mp hm with hm | hm
    · exact hshrink.before m hm j k hk heq
    · rw [List.mem_singleton.mp hm] at heq ⊢
      -- The other items of the flow are behind it in the same queue.
      obtain rfl := h.together i n hn j k ((hsub j).subset hk) heq
      exact hlt k hk
  · rw [List.pairwise_append]
    refine ⟨h.inOrder, List.pairwise_singleton _ _, ?_⟩
    rintro m hm k hk heq
    rw [List.mem_singleton.mp hk] at heq ⊢
    exact h.before m hm i n hn heq

end FlowOrder

end Ns3
