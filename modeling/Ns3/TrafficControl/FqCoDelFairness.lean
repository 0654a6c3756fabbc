import Ns3.Library.RoundRobin
import Ns3.TrafficControl.FqCoDelQueueDisc

/-!
# The fairness of FQ-CoDel

The old flows are served by deficit round robin: a flow in front that has no deficit left gets a quantum
and goes to the back. What two flows with packets have been served therefore differs by their deficits and
their order in the list, whatever else happens to the other flows.

A deficit is a signed number of 32 bits, and so is the size of the packet that is taken from it. A packet of
more than `2 ^ 31` bytes counts as a negative number, and its flow has a greater deficit after it.
-/

namespace Ns3

namespace TrafficControl

open FqCoDel CoDelQueueDisc RoundRobin

namespace FqCoDelQueueDisc

/-! ## What flows are served -/

/-- A flow is old and has a packet. -/
def Backlogged (s : FqCoDelQueueDisc) (i : ℕ) : Prop := s.status i = .OLD_FLOW ∧ s.queue i ≠ []

instance (s : FqCoDelQueueDisc) (i : ℕ) : Decidable (s.Backlogged i) :=
  inferInstanceAs (Decidable (_ ∧ _))

/-- The bytes that a call returns from a flow. -/
def bytesOf (i : ℕ) : Option (ℕ × Packet) → ℕ
  | some (k, p) => if k = i then p.size else 0
  | none => 0

/-- The bytes that calls return from two flows, if both stay old and have packets. -/
def backloggedBytes (cfg : Attributes) (i j : ℕ) : List Op → FqCoDelQueueDisc → Option (ℕ × ℕ)
  | [], s => if s.Backlogged i ∧ s.Backlogged j then some (0, 0) else none
  | op :: ops, s =>
    if s.Backlogged i ∧ s.Backlogged j then do
      let r ← s.step cfg op
      let b ← backloggedBytes cfg i j ops r.1
      pure (bytesOf i r.2 + b.1, bytesOf j r.2 + b.2)
    else none

/-- The packets that arrive have at most `M` bytes. -/
def SizeLe (M : ℕ) (_ : FqCoDelQueueDisc) : Op → Prop
  | .enqueue p _ _ => p.size ≤ M
  | .dequeue _ _ => True

instance (M : ℕ) (s : FqCoDelQueueDisc) : ∀ op, Decidable (SizeLe M s op)
  | .enqueue _ _ _ => inferInstanceAs (Decidable (_ ≤ _))
  | .dequeue _ _ => inferInstanceAs (Decidable True)

/-! ## Bounded deficits -/

/-- The deficits of the flows. -/
def deficit (s : FqCoDelQueueDisc) (i : ℕ) : ℤ := (s.flow i).m_deficit

/-- Packets have at most `M` bytes, and no deficit is more than a quantum or less than a packet. -/
structure Bounded (cfg : Attributes) (M : ℕ) (s : FqCoDelQueueDisc) : Prop where
  inv : Inv s
  size : ∀ i, ∀ item ∈ s.queue i, item.packet.size ≤ M
  deficit : ∀ i, -(M : ℤ) ≤ s.deficit i ∧ s.deficit i ≤ cfg.m_quantum

section Bounded

variable {cfg : Attributes} {M : ℕ} {s s' : FqCoDelQueueDisc} {i j : ℕ}

theorem bounded_create : Bounded cfg M create where
  inv := inv_create
  size _ _ h := absurd h List.not_mem_nil
  deficit _ := ⟨neg_nonpos.mpr (Nat.cast_nonneg M), Nat.cast_nonneg _⟩

theorem deficit_setFlow (s : FqCoDelQueueDisc) (i : ℕ) (f : FqCoDelFlow) :
    (s.setFlow i f).deficit = Function.update s.deficit i f.m_deficit := by
  funext j
  rcases eq_or_ne j i with rfl | hne
  · simp [FqCoDelQueueDisc.deficit, setFlow]
  · simp [FqCoDelQueueDisc.deficit, setFlow, hne]

/-- **One flow changes.** -/
theorem Bounded.update (h : Bounded cfg M s) {f : FqCoDelFlow} (hinv : Inv s')
    (hflow : s'.flow = (s.setFlow i f).flow)
    (hsize : ∀ item ∈ f.m_queueDisc.queue, item.packet.size ≤ M)
    (hdeficit : -(M : ℤ) ≤ f.m_deficit ∧ f.m_deficit ≤ cfg.m_quantum) : Bounded cfg M s' where
  inv := hinv
  size j item hitem := by
    have hqueue : s'.queue j = (s.setFlow i f).queue j := by rw [queue, hflow, queue]
    rw [hqueue, queue_setFlow] at hitem
    rcases eq_or_ne j i with rfl | hne
    · rw [Function.update_self] at hitem
      exact hsize item hitem
    · rw [Function.update_of_ne hne] at hitem
      exact h.size j item hitem
  deficit j := by
    have heq : s'.deficit j = (s.setFlow i f).deficit j := by
      rw [FqCoDelQueueDisc.deficit, hflow, FqCoDelQueueDisc.deficit]
    rw [heq, deficit_setFlow]
    rcases eq_or_ne j i with rfl | hne
    · rwa [Function.update_self]
    · rw [Function.update_of_ne hne]
      exact h.deficit j

theorem Bounded.increaseDeficit (h : Bounded cfg M s) (hq : QuantumFits cfg)
    (hle : (s.flow i).m_deficit ≤ 0) :
    ((s.flow i).increaseDeficit cfg.m_quantum).m_deficit = s.deficit i + cfg.m_quantum ∧
      -(M : ℤ) ≤ s.deficit i + cfg.m_quantum ∧ s.deficit i + cfg.m_quantum ≤ cfg.m_quantum := by
  obtain ⟨hlow, -⟩ := h.deficit i
  refine ⟨hq.increaseDeficit (h.inv.deficit i) hle, ?_, ?_⟩
  · exact hlow.trans (le_add_of_nonneg_right (Nat.cast_nonneg _))
  · exact add_le_of_nonpos_left hle

theorem Bounded.decreaseDeficit (h : Bounded cfg M s) (hM : M ≤ 2 ^ 31) {n : ℕ} (hn : n ≤ M)
    (hpos : 0 < (s.flow i).m_deficit) :
    ((s.flow i).increaseDeficit (-n)).m_deficit = s.deficit i - n ∧
      -(M : ℤ) ≤ s.deficit i - n ∧ s.deficit i - n ≤ cfg.m_quantum := by
  obtain ⟨-, hhigh⟩ := h.deficit i
  obtain ⟨-, hlt⟩ := h.inv.deficit i
  have hsize : FqCoDelFlow.toInt32 (-n : ℤ) = -n := toInt32_eq ⟨by omega, by omega⟩
  change 0 < s.deficit i at hpos
  change s.deficit i < _ at hlt
  refine ⟨?_, by omega, by omega⟩
  change FqCoDelFlow.toInt32 (s.deficit i + _) = _
  rw [hsize, ← sub_eq_add_neg]
  exact toInt32_eq ⟨by omega, by omega⟩

theorem Bounded.next (h : Bounded cfg M s) (hq : QuantumFits cfg)
    (hturn : TurnSpec cfg s (.next s')) : Bounded cfg M s' := by
  have hinv := (hturn.next hq h.inv).1
  cases hturn with
  | newDebt k newFlows hnew hdeficit =>
    obtain ⟨heq, hbounds⟩ := h.increaseDeficit hq hdeficit
    rw [← heq] at hbounds
    exact h.update hinv rfl (h.size k) hbounds
  | oldDebt k oldFlows hnew hold hdeficit =>
    obtain ⟨heq, hbounds⟩ := h.increaseDeficit hq hdeficit
    rw [← heq] at hbounds
    exact h.update hinv rfl (h.size k) hbounds
  | newEmpty k newFlows qd hnew hempty hqd =>
    refine h.update (f := { s.flow k with m_queueDisc := qd, m_status := .OLD_FLOW }) hinv rfl
      (fun item hitem ↦ ?_) (h.deficit k)
    rw [hqd] at hitem
    exact absurd hitem List.not_mem_nil
  | oldEmpty k oldFlows qd hnew hold hempty hqd =>
    refine h.update (f := { s.flow k with m_queueDisc := qd, m_status := .INACTIVE }) hinv rfl
      (fun item hitem ↦ ?_) (h.deficit k)
    rw [hqd] at hitem
    exact absurd hitem List.not_mem_nil

theorem Bounded.stop (h : Bounded cfg M s) (hM : M ≤ 2 ^ 31) {events : List Event}
    {item : Option (ℕ × Packet)} (hturn : TurnSpec cfg s (.stop s' events item)) :
    Bounded cfg M s' := by
  have hinv := (hturn.stop h.inv).1
  cases hturn with
  | packet k qd item events hk hdeficit hmem hsuffix =>
    obtain ⟨heq, hbounds⟩ := h.decreaseDeficit hM (h.size k item hmem) hdeficit
    rw [← heq] at hbounds
    refine h.update (f := { s.flow k with
      m_queueDisc := qd
      m_deficit := ((s.flow k).increaseDeficit (-item.packet.size)).m_deficit }) hinv rfl
      (fun item hitem ↦ ?_) hbounds
    exact h.size k item (List.mem_of_mem_tail (hsuffix.subset hitem))
  | nothing hnew hold => exact h

/-! ## The lead of a flow -/

/-- How far a flow is ahead of another in the bytes it has been served. -/
def flowLead (cfg : Attributes) (s : FqCoDelQueueDisc) (i j : ℕ) : ℤ :=
  lead cfg.m_quantum s.deficit s.m_oldFlows i j

theorem Backlogged.mem (hi : s.Backlogged i) (h : Inv s) : i ∈ s.m_oldFlows :=
  (h.listed.old_iff i).mpr hi.1

theorem Backlogged.ne_of_new {k : ℕ} (hi : s.Backlogged i) (h : Inv s) (hk : k ∈ s.m_newFlows) :
    k ≠ i := by
  rintro rfl
  exact h.listed.not_mem_old hk (hi.mem h)

theorem Backlogged.ne_of_empty {k : ℕ} (hi : s.Backlogged i) (hk : s.queue k = []) : k ≠ i := by
  rintro rfl
  exact hi.2 hk

theorem Backlogged.next (hi : s.Backlogged i) (h : Inv s) (hq : QuantumFits cfg)
    (hturn : TurnSpec cfg s (.next s')) : s'.Backlogged i := by
  obtain ⟨-, hqueue, -, -⟩ := hturn.next hq h
  refine ⟨?_, hqueue ▸ hi.2⟩
  cases hturn with
  | newDebt k newFlows hnew hdeficit =>
    change (s.setFlow k _).status i = _
    rw [status_setFlow, Function.update_of_ne (hi.ne_of_new h (hnew ▸ List.mem_cons_self)).symm]
    exact hi.1
  | oldDebt k oldFlows hnew hold hdeficit =>
    change (s.setFlow k _).status i = _
    rw [status_setFlow]
    exact (congrFun (Function.update_eq_self k s.status) i).trans hi.1
  | newEmpty k newFlows qd hnew hempty hqd =>
    change (s.setFlow k _).status i = _
    rw [status_setFlow, Function.update_of_ne (hi.ne_of_empty hempty).symm]
    exact hi.1
  | oldEmpty k oldFlows qd hnew hold hempty hqd =>
    change (s.setFlow k _).status i = _
    rw [status_setFlow, Function.update_of_ne (hi.ne_of_empty hempty).symm]
    exact hi.1

/-- **Nobody's lead changes** while the loops go on. -/
theorem flowLead_next (h : Bounded cfg M s) (hq : QuantumFits cfg)
    (hturn : TurnSpec cfg s (.next s')) (hij : i ≠ j) (hi : s.Backlogged i) (hj : s.Backlogged j) :
    s'.flowLead cfg i j = s.flowLead cfg i j := by
  have hmemi := hi.mem h.inv
  have hmemj := hj.mem h.inv
  cases hturn with
  | newDebt k newFlows hnew hdeficit =>
    have hk : k ∈ s.m_newFlows := hnew ▸ List.mem_cons_self
    refine lead_congr ?_ ?_ (ahead_append hmemi hmemj [k])
    · refine (congrFun (deficit_setFlow s k _) i).trans ?_
      exact Function.update_of_ne (hi.ne_of_new h.inv hk).symm _ _
    · refine (congrFun (deficit_setFlow s k _) j).trans ?_
      exact Function.update_of_ne (hj.ne_of_new h.inv hk).symm _ _
  | oldDebt k oldFlows hnew hold hdeficit =>
    obtain ⟨heq, -⟩ := h.increaseDeficit hq hdeficit
    have hnodup := h.inv.listed.nodup_old
    rw [hold] at hmemi hmemj hnodup
    rw [flowLead, flowLead, hold, ← lead_rotate hnodup hmemi hmemj hij, ← heq]
    exact congrArg (fun d ↦ lead _ d _ i j) (deficit_setFlow s k _)
  | newEmpty k newFlows qd hnew hempty hqd =>
    have hkeep := (deficit_setFlow s k { s.flow k with
      m_queueDisc := qd
      m_status := .OLD_FLOW }).trans (Function.update_eq_self k s.deficit)
    exact lead_congr (congrFun hkeep i) (congrFun hkeep j) (ahead_append hmemi hmemj [k])
  | oldEmpty k oldFlows qd hnew hold hempty hqd =>
    have hkeep := (deficit_setFlow s k { s.flow k with
      m_queueDisc := qd
      m_status := .INACTIVE }).trans (Function.update_eq_self k s.deficit)
    refine lead_congr (congrFun hkeep i) (congrFun hkeep j) ?_
    rw [hold, ahead_cons (hi.ne_of_empty hempty) (hj.ne_of_empty hempty)]

/-- **The flow that is served leads by more**, when the loops end. -/
theorem flowLead_stop (h : Bounded cfg M s) (hM : M ≤ 2 ^ 31) {events : List Event}
    {item : Option (ℕ × Packet)} (hturn : TurnSpec cfg s (.stop s' events item)) (hij : i ≠ j) :
    s'.flowLead cfg i j = s.flowLead cfg i j + ((bytesOf i item : ℤ) - bytesOf j item) := by
  cases hturn with
  | packet k qd item events hk hdeficit hmem hsuffix =>
    obtain ⟨heq, -⟩ := h.decreaseDeficit hM (h.size k item hmem) hdeficit
    have hserve := lead_serve (q := cfg.m_quantum) (d := s.deficit) (l := s.m_oldFlows) (k := k)
      (item.packet.size : ℤ) hij
    rw [← heq] at hserve
    rw [bytesOf, bytesOf, Nat.cast_ite, Nat.cast_ite, Nat.cast_zero]
    refine Eq.trans ?_ hserve
    exact congrArg (fun d ↦ lead _ d _ i j) (deficit_setFlow s k _)
  | nothing hnew hold => rw [bytesOf, bytesOf, sub_self, add_zero]

/-- **`DoDequeue`**: the lead of a flow grows by what it is served, less what the other is. -/
theorem Bounded.doDequeue (h : Bounded cfg M s) (hq : QuantumFits cfg) (hM : M ≤ 2 ^ 31) {t fuel : ℕ}
    {events : List Event} {item : Option (ℕ × Packet)}
    (hdone : s.doDequeue cfg t fuel = .done (s', events, item)) :
    Bounded cfg M s' ∧ ∀ i j, i ≠ j → s.Backlogged i → s.Backlogged j →
      s'.flowLead cfg i j = s.flowLead cfg i j + ((bytesOf i item : ℤ) - bytesOf j item) := by
  induction fuel generalizing s with
  | zero => cases hdone
  | succ fuel ih =>
    have hspec := turnSpec cfg s t
    rw [FqCoDelQueueDisc.doDequeue] at hdone
    cases hturn : s.turn cfg t with
    | next s₁ =>
      rw [hturn] at hspec hdone
      obtain ⟨hbounded, hlead⟩ := ih (h.next hq hspec) hdone
      refine ⟨hbounded, fun i j hij hi hj ↦ ?_⟩
      rw [← flowLead_next h hq hspec hij hi hj]
      exact hlead i j hij (hi.next h.inv hq hspec) (hj.next h.inv hq hspec)
    | stop s₁ events₁ item₁ =>
      rw [hturn] at hspec hdone
      cases hdone
      exact ⟨h.stop hM hspec, fun i j hij _ _ ↦ flowLead_stop h hM hspec hij⟩
    | nullPointer =>
      rw [hturn] at hdone
      cases hdone

/-! ## Arrivals -/

/-- The old flows keep their places and their deficits. -/
structure Keeps (s s' : FqCoDelQueueDisc) : Prop where
  oldFlows : s'.m_oldFlows = s.m_oldFlows
  status : ∀ i, s.status i = .OLD_FLOW → s'.status i = .OLD_FLOW
  deficit : ∀ i, s.status i = .OLD_FLOW → s'.deficit i = s.deficit i

theorem Keeps.trans {s'' : FqCoDelQueueDisc} (h : Keeps s s') (h' : Keeps s' s'') : Keeps s s'' where
  oldFlows := h'.oldFlows.trans h.oldFlows
  status i hi := h'.status i (h.status i hi)
  deficit i hi := (h'.deficit i (h.status i hi)).trans (h.deficit i hi)

theorem Keeps.flowLead (h : Keeps s s') (hi : s.Backlogged i) (hj : s.Backlogged j) :
    s'.flowLead cfg i j = s.flowLead cfg i j :=
  lead_congr (h.deficit i hi.1) (h.deficit j hj.1) (by rw [h.oldFlows])

theorem keeps_setFlow {k : ℕ} {f : FqCoDelFlow} (hold : s'.m_oldFlows = s.m_oldFlows)
    (hflow : s'.flow = (s.setFlow k f).flow)
    (hk : s.status k ≠ .OLD_FLOW ∨ f.m_status = s.status k ∧ f.m_deficit = s.deficit k) :
    Keeps s s' := by
  have hstatus : s'.status = Function.update s.status k f.m_status := by
    rw [← status_setFlow]
    funext i
    rw [status, hflow, status]
  have hdeficit : s'.deficit = Function.update s.deficit k f.m_deficit := by
    rw [← deficit_setFlow]
    funext i
    rw [FqCoDelQueueDisc.deficit, hflow, FqCoDelQueueDisc.deficit]
  rcases hk with hk | ⟨hst, hd⟩
  · have hne : ∀ i, s.status i = .OLD_FLOW → i ≠ k := fun i hi hik ↦ hk (hik ▸ hi)
    refine ⟨hold, fun i hi ↦ ?_, fun i hi ↦ ?_⟩
    · rw [hstatus, Function.update_of_ne (hne i hi)]
      exact hi
    · rw [hdeficit, Function.update_of_ne (hne i hi)]
  · rw [hst, Function.update_eq_self] at hstatus
    rw [hd, Function.update_eq_self] at hdeficit
    refine ⟨hold, fun i hi ↦ ?_, fun i _ ↦ ?_⟩
    · rwa [hstatus]
    · rw [hdeficit]

theorem Bounded.hash (h : Bounded cfg M s) (flowHash : ℕ) :
    Bounded cfg M (s.hash cfg flowHash).2 ∧ Keeps s (s.hash cfg flowHash).2 := by
  have hinv := (h.inv.hash cfg flowHash).1
  revert hinv
  unfold FqCoDelQueueDisc.hash setAssociativeHash
  split_ifs
  · intro hinv
    exact ⟨⟨hinv, h.size, h.deficit⟩, ⟨rfl, fun _ hi ↦ hi, fun _ _ ↦ rfl⟩⟩
  · intro _
    exact ⟨h, ⟨rfl, fun _ hi ↦ hi, fun _ _ ↦ rfl⟩⟩

theorem Bounded.getFlow (h : Bounded cfg M s) (index : ℕ) :
    Bounded cfg M (s.getFlow index).2 ∧ Keeps s (s.getFlow index).2 := by
  obtain ⟨hinv, -, -⟩ := h.inv.getFlow index
  revert hinv
  unfold FqCoDelQueueDisc.getFlow
  cases s.m_flowsIndices index with
  | some i =>
    intro _
    exact ⟨h, ⟨rfl, fun _ hi ↦ hi, fun _ _ ↦ rfl⟩⟩
  | none =>
    intro hinv
    refine ⟨h.update (i := s.nClasses) (f := FqCoDelFlow.create index) hinv rfl
      (fun _ hitem ↦ absurd hitem List.not_mem_nil) ?_, keeps_setFlow rfl rfl (Or.inl ?_)⟩
    · exact ⟨neg_nonpos.mpr (Nat.cast_nonneg M), Nat.cast_nonneg _⟩
    · rw [(h.inv.fresh s.nClasses le_rfl).2]
      decide

theorem Bounded.activate (h : Bounded cfg M s) (hq : QuantumFits cfg) (hi : i < s.nClasses) :
    Bounded cfg M (s.activate cfg i) ∧ Keeps s (s.activate cfg i) := by
  obtain ⟨hinv, -, -⟩ := h.inv.activate cfg hi
  revert hinv
  unfold FqCoDelQueueDisc.activate
  split_ifs with hinactive
  · intro hinv
    have hset : (((s.flow i).setStatus .NEW_FLOW).setDeficit cfg.m_quantum).m_deficit =
        cfg.m_quantum := by
      have hquantum : IsInt32 cfg.m_quantum := ⟨by omega, by exact_mod_cast hq.2⟩
      unfold FqCoDelFlow.setDeficit
      dsimp only
      rw [toInt32_eq hquantum]
    refine ⟨h.update (f := ((s.flow i).setStatus .NEW_FLOW).setDeficit cfg.m_quantum) hinv rfl
      (h.size i) ?_, keeps_setFlow rfl rfl (Or.inl ?_)⟩
    · rw [hset]
      exact ⟨(neg_nonpos.mpr (Nat.cast_nonneg M)).trans (Nat.cast_nonneg _), le_rfl⟩
    · change (s.flow i).m_status ≠ _
      rw [hinactive]
      decide
  · intro _
    exact ⟨h, ⟨rfl, fun _ hi ↦ hi, fun _ _ ↦ rfl⟩⟩

theorem size_doEnqueue {cd : CoDel.Attributes} {qd : CoDelQueueDisc} {p : Packet} {t : ℕ}
    (hqd : ∀ item ∈ qd.queue, item.packet.size ≤ M) (hp : p.size ≤ M) :
    ∀ item ∈ (qd.doEnqueue cd p t).1.queue, item.packet.size ≤ M := by
  unfold CoDelQueueDisc.doEnqueue
  split_ifs
  · exact hqd
  · intro item hitem
    rcases List.mem_append.mp hitem with hitem | hitem
    · exact hqd item hitem
    · rw [List.mem_singleton.mp hitem]
      exact hp

theorem Bounded.enqueueFlow (h : Bounded cfg M s) {p : Packet} {t : ℕ} (hp : p.size ≤ M)
    (hi : s.status i ≠ .INACTIVE) : Bounded cfg M (s.enqueueFlow cfg i p t).1 ∧
      Keeps s (s.enqueueFlow cfg i p t).1 := by
  refine ⟨h.update (i := i) (f := { s.flow i with
    m_queueDisc := ((s.flow i).m_queueDisc.doEnqueue cfg.codel p t).1 })
    (h.inv.enqueueFlow cfg hi p t).1 rfl ?_ (h.deficit i), keeps_setFlow rfl rfl (Or.inr ⟨rfl, rfl⟩)⟩
  exact size_doEnqueue (h.size i) hp

theorem Bounded.beforeDrop (h : Bounded cfg M s) (hq : QuantumFits cfg) {p : Packet}
    (flowHash t : ℕ) (hp : p.size ≤ M) : Bounded cfg M (s.beforeDrop cfg p flowHash t).1 ∧
      Keeps s (s.beforeDrop cfg p flowHash t).1 := by
  obtain ⟨hhash, hkeep₁⟩ := h.hash flowHash
  obtain ⟨hflow, hkeep₂⟩ := hhash.getFlow (s.hash cfg flowHash).1
  obtain ⟨-, hlt, -⟩ := hhash.inv.getFlow (s.hash cfg flowHash).1
  obtain ⟨hactive, hkeep₃⟩ := hflow.activate hq hlt
  obtain ⟨-, hstatus, -⟩ := hflow.inv.activate cfg hlt
  obtain ⟨hflow, hkeep₄⟩ := hactive.enqueueFlow (t := t) hp hstatus
  exact ⟨hflow, ((hkeep₁.trans hkeep₂).trans hkeep₃).trans hkeep₄⟩

theorem Bounded.fqCoDelDrop (h : Bounded cfg M s) {r : FqCoDelQueueDisc × List Event}
    (hr : s.fqCoDelDrop cfg = some r) : Bounded cfg M r.1 ∧ Keeps s r.1 := by
  have hinv := (h.inv.fqCoDelDrop hr).1
  rw [FqCoDelQueueDisc.fqCoDelDrop, Option.map_eq_some_iff] at hr
  obtain ⟨⟨events, queue⟩, hbatch, rfl⟩ := hr
  obtain ⟨item, rest, hqueue, hsuffix⟩ := dropBatch_suffix cfg hbatch
  refine ⟨h.update (i := s.fatFlow.2) (f := { s.flow s.fatFlow.2 with
    m_queueDisc := { (s.flow s.fatFlow.2).m_queueDisc with queue } }) hinv rfl (fun item hitem ↦ ?_)
    (h.deficit _), keeps_setFlow rfl rfl (Or.inr ⟨rfl, rfl⟩)⟩
  refine h.size s.fatFlow.2 item ?_
  rw [hqueue]
  exact List.mem_cons_of_mem _ (hsuffix.subset hitem)

/-- **`DoEnqueue`**, which changes nobody's lead. -/
theorem Bounded.doEnqueue (h : Bounded cfg M s) (hq : QuantumFits cfg) {p : Packet}
    {flowHash : Option ℕ} {t : ℕ} (hp : p.size ≤ M) {r : FqCoDelQueueDisc × List Event}
    (hdone : s.doEnqueue cfg p flowHash t = .done r) : Bounded cfg M r.1 ∧ Keeps s r.1 := by
  unfold FqCoDelQueueDisc.doEnqueue at hdone
  cases flowHash with
  | none =>
    cases hdone
    exact ⟨h, ⟨rfl, fun _ hi ↦ hi, fun _ _ ↦ rfl⟩⟩
  | some flowHash =>
    obtain ⟨hbefore, hkeep⟩ := h.beforeDrop hq flowHash t hp
    dsimp only at hdone
    split_ifs at hdone with hzero hover
    · cases hr : (s.beforeDrop cfg p flowHash t).1.fqCoDelDrop cfg with
      | none =>
        rw [hr] at hdone
        cases hdone
      | some r' =>
        rw [hr] at hdone
        cases hdone
        obtain ⟨hdrop, hkeep'⟩ := hbefore.fqCoDelDrop hr
        exact ⟨hdrop, hkeep.trans hkeep'⟩
    · cases hdone
      exact ⟨hbefore, hkeep⟩

/-! ## Runs -/

/-- **A call**: the lead of a flow grows by what it is served, less what the other is. -/
theorem Bounded.step (h : Bounded cfg M s) (hq : QuantumFits cfg) (hM : M ≤ 2 ^ 31) {op : Op}
    (hop : SizeLe M s op) {r : FqCoDelQueueDisc × Option (ℕ × Packet)} (hr : s.step cfg op = some r) :
    Bounded cfg M r.1 ∧ ∀ i j, i ≠ j → s.Backlogged i → s.Backlogged j →
      r.1.flowLead cfg i j = s.flowLead cfg i j + ((bytesOf i r.2 : ℤ) - bytesOf j r.2) := by
  cases op with
  | enqueue p flowHash t =>
    rw [FqCoDelQueueDisc.step] at hr
    cases hres : s.doEnqueue cfg p flowHash t with
    | done r' =>
      rw [hres] at hr
      cases hr
      obtain ⟨hbounded, hkeep⟩ := h.doEnqueue hq hop hres
      refine ⟨hbounded, fun i j _ hi hj ↦ ?_⟩
      rw [bytesOf, bytesOf, sub_self, add_zero]
      exact hkeep.flowLead hi hj
    | nullPointer => rw [hres] at hr; cases hr
    | divisionByZero => rw [hres] at hr; cases hr
    | unfinished => rw [hres] at hr; cases hr
  | dequeue t fuel =>
    rw [FqCoDelQueueDisc.step] at hr
    cases hres : s.doDequeue cfg t fuel with
    | done r' =>
      obtain ⟨s₁, events, item⟩ := r'
      rw [hres] at hr
      cases hr
      exact h.doDequeue hq hM hres
    | nullPointer => rw [hres] at hr; cases hr
    | divisionByZero => rw [hres] at hr; cases hr
    | unfinished => rw [hres] at hr; cases hr

theorem bounded_of_run (hq : QuantumFits cfg) (hM : M ≤ 2 ^ 31) {ops : List Op}
    (hr : Machine.Run (machine cfg) (SizeLe M) ops s) : Bounded cfg M s := by
  refine hr.invariant (I := Bounded cfg M) bounded_create ?_
  intro s op s' h hop hstep
  obtain ⟨r, hdone, rfl⟩ := Option.map_eq_some_iff.mp hstep
  exact (h.step hq hM hop hdone).1

/-- **The bytes of two backlogged flows** are what one leads by more at the end than at first. -/
theorem Bounded.exists_lead (h : Bounded cfg M s) (hq : QuantumFits cfg) (hM : M ≤ 2 ^ 31)
    {ops : List Op} (hops : ∀ op ∈ ops, ∀ s, SizeLe M s op) (hij : i ≠ j) {b : ℕ × ℕ}
    (hb : s.backloggedBytes cfg i j ops = some b) :
    ∃ s', Bounded cfg M s' ∧ (b.1 : ℤ) - b.2 = s'.flowLead cfg i j - s.flowLead cfg i j := by
  induction ops generalizing s b with
  | nil =>
    rw [backloggedBytes] at hb
    split_ifs at hb
    cases hb
    exact ⟨s, h, by simp⟩
  | cons op ops ih =>
    rw [backloggedBytes] at hb
    split_ifs at hb with hback
    obtain ⟨r, hr, hb⟩ := Option.bind_eq_some_iff.mp hb
    obtain ⟨b', hb', hb⟩ := Option.bind_eq_some_iff.mp hb
    cases hb
    obtain ⟨hbounded, hlead⟩ := h.step hq hM (hops op List.mem_cons_self s) hr
    obtain ⟨s', hs', heq⟩ := ih hbounded (fun op' hop' ↦ hops op' (List.mem_cons_of_mem _ hop')) hb'
    refine ⟨s', hs', ?_⟩
    have hnow := hlead i j hij hback.1 hback.2
    push_cast
    linarith

/-- **Fairness.** While two flows stay old and have packets, the bytes that are returned from them differ by
at most three quanta and two packets. -/
theorem fair_of_run (hq : QuantumFits cfg) (hM : M ≤ 2 ^ 31) {ops ops' : List Op}
    (hr : Machine.Run (machine cfg) (SizeLe M) ops s) (hops : ∀ op ∈ ops', ∀ s, SizeLe M s op)
    (hij : i ≠ j) {b : ℕ × ℕ} (hb : s.backloggedBytes cfg i j ops' = some b) :
    |(b.1 : ℤ) - b.2| ≤ 3 * cfg.m_quantum + 2 * M := by
  have h := bounded_of_run hq hM hr
  obtain ⟨s', h', heq⟩ := h.exists_lead hq hM hops hij hb
  rw [heq]
  exact abs_lead_sub_le (Nat.cast_nonneg _) h.deficit h'.deficit

end Bounded

/-- Two old flows of packets of 1500 bytes. -/
def twoOld : List Op :=
  [.enqueue ⟨0, 1500, false⟩ (some 0) 0, .enqueue ⟨1, 1500, false⟩ (some 1) 0,
    .enqueue ⟨2, 1500, false⟩ (some 0) 0, .enqueue ⟨3, 1500, false⟩ (some 1) 0,
    .enqueue ⟨4, 1500, false⟩ (some 0) 0, .enqueue ⟨5, 1500, false⟩ (some 1) 0,
    .dequeue 0 3, .dequeue 0 3, .enqueue ⟨6, 1500, false⟩ (some 0) 0, .dequeue 0 3]

/-- The first of two flows is served while both stay old. -/
theorem fair_of_run_two : ∃ s, Machine.Run (machine (defaults 1500)) (SizeLe 1500) twoOld s ∧
    s.backloggedBytes (defaults 1500) 0 1 [.dequeue 0 3] = some (0, 1500) ∧
      |(0 : ℤ) - 1500| ≤ 3 * 1500 + 2 * 1500 := by
  refine Machine.exists_run_and_allowed
    (p := fun s : FqCoDelQueueDisc ↦ s.backloggedBytes (defaults 1500) 0 1 [.dequeue 0 3] =
      some (0, 1500))
    (by decide +kernel) (by decide +kernel) fun s hr hb ↦ ?_
  exact ⟨hb, fair_of_run (by decide) (by decide) hr (by simp [SizeLe]) (by decide) hb⟩

/-- A packet of `2 ^ 32 - 16` bytes has left the first of two flows. -/
def hugePacket : List Op :=
  [.enqueue ⟨0, 1, false⟩ (some 0) 0, .enqueue ⟨1, 1, false⟩ (some 1) 0,
    .enqueue ⟨2, 2 ^ 32 - 16, false⟩ (some 0) 0, .enqueue ⟨3, 1, false⟩ (some 1) 0,
    .enqueue ⟨4, 1, false⟩ (some 0) 0, .dequeue 0 4, .dequeue 0 4, .dequeue 0 4]

/-- More of them come one at a time, each behind a packet of one byte. -/
def oneHugeAtATime : List Op :=
  [.enqueue ⟨5, 2 ^ 32 - 16, false⟩ (some 0) 0, .dequeue 0 1, .enqueue ⟨6, 1, false⟩ (some 0) 0,
    .dequeue 0 1, .enqueue ⟨7, 2 ^ 32 - 16, false⟩ (some 0) 0, .dequeue 0 1,
    .enqueue ⟨8, 1, false⟩ (some 0) 0, .dequeue 0 1, .enqueue ⟨9, 2 ^ 32 - 16, false⟩ (some 0) 0,
    .dequeue 0 1, .enqueue ⟨10, 1, false⟩ (some 0) 0, .dequeue 0 1]

/-- The flow goes on being served with a quantum of one byte, while another waits. -/
theorem unfair_of_huge : ∃ s, Machine.Run (machine (defaults 1)) (SizeLe (2 ^ 32 - 16)) hugePacket s ∧
    s.backloggedBytes (defaults 1) 0 1 oneHugeAtATime = some (3 * (2 ^ 32 - 16) + 3, 0) ∧
      3 * 1 + 2 * (2 ^ 32 - 16) < 3 * (2 ^ 32 - 16) + 3 := by
  refine Machine.exists_run_and_allowed
    (p := fun s : FqCoDelQueueDisc ↦ s.backloggedBytes (defaults 1) 0 1 oneHugeAtATime =
      some (3 * (2 ^ 32 - 16) + 3, 0))
    (by decide +kernel) (by decide +kernel) fun s hr hb ↦ ?_
  exact ⟨hb, by decide⟩

end FqCoDelQueueDisc

end TrafficControl

end Ns3
