import Ns3.Library.FlowOrder
import Ns3.TrafficControl.CoDelDequeue
import Ns3.TrafficControl.FqCoDelQueueDisc

/-!
# The order of the packets of a flow in FQ-CoDel

Each queue is served in its order, and without the set-associative hash a flow has one queue. With it, the
index for a packet is the first one of its set without a queue, or whose queue has the tag of the flow or is
inactive, and a tag may be overwritten when all queues of a set are in use. So the search stops at an
inactive queue although a later one has the tag of the flow, and packets that are still in the later one are
overtaken.

The flows keep their order in the runs in which a flow with packets in a queue stays there: the queue has
its tag and each queue of the set before it is active with another tag, or it is the first queue of a set
whose queues are all active with other tags.
-/

namespace Ns3

namespace TrafficControl

namespace FqCoDelQueueDisc

open FqCoDel CoDelQueueDisc

/-- The numbers of the packets of a queue. -/
def uids (s : FqCoDelQueueDisc) (i : ℕ) : List ℕ := (s.queue i).map fun item ↦ item.packet.uid

/-! ## The classes of a disc -/

/-- A disc with the same classes for the same indices. -/
structure SameClasses (s s' : FqCoDelQueueDisc) : Prop where
  nClasses : s'.nClasses = s.nClasses
  flowsIndices : s'.m_flowsIndices = s.m_flowsIndices
  index : ∀ i, (s'.flow i).m_index = (s.flow i).m_index

theorem SameClasses.refl (s : FqCoDelQueueDisc) : SameClasses s s := ⟨rfl, rfl, fun _ ↦ rfl⟩

theorem SameClasses.trans {s s' s'' : FqCoDelQueueDisc} (h : SameClasses s s')
    (h' : SameClasses s' s'') : SameClasses s s'' where
  nClasses := h'.nClasses.trans h.nClasses
  flowsIndices := h'.flowsIndices.trans h.flowsIndices
  index i := (h'.index i).trans (h.index i)

theorem SameClasses.of_update {s s' : FqCoDelQueueDisc} {i : ℕ} {f : FqCoDelFlow}
    (hclasses : s'.nClasses = s.nClasses) (hindices : s'.m_flowsIndices = s.m_flowsIndices)
    (hflow : s'.flow = Function.update s.flow i f) (hf : f.m_index = (s.flow i).m_index) :
    SameClasses s s' where
  nClasses := hclasses
  flowsIndices := hindices
  index j := by
    rw [hflow]
    rcases eq_or_ne j i with rfl | hne
    · rw [Function.update_self, hf]
    · rw [Function.update_of_ne hne]

/-- The classes are numbered from zero on, and each is that of its index. -/
structure Classes (s : FqCoDelQueueDisc) : Prop where
  fresh : ∀ i, s.nClasses ≤ i → s.queue i = []
  indices : ∀ h i, s.m_flowsIndices h = some i → i < s.nClasses
  index : ∀ i < s.nClasses, s.m_flowsIndices (s.flow i).m_index = some i

theorem classes_create : Classes create where
  fresh _ _ := rfl
  indices _ _ h := by cases h
  index _ hi := absurd hi (Nat.not_lt_zero _)

theorem Classes.congr {s s' : FqCoDelQueueDisc} (h : Classes s) (hsame : SameClasses s s')
    (hfresh : ∀ i, s.nClasses ≤ i → s'.queue i = []) : Classes s' where
  fresh i hi := hfresh i (hsame.nClasses ▸ hi)
  indices k i hk := by
    rw [hsame.flowsIndices] at hk
    rw [hsame.nClasses]
    exact h.indices k i hk
  index i hi := by
    rw [hsame.nClasses] at hi
    rw [hsame.flowsIndices, hsame.index]
    exact h.index i hi

theorem Classes.shrink {s s' : FqCoDelQueueDisc} (h : Classes s) (hsame : SameClasses s s')
    (hsub : ∀ i, (s'.queue i).Sublist (s.queue i)) : Classes s' := by
  refine h.congr hsame fun i hi ↦ ?_
  have hempty := hsub i
  rw [h.fresh i hi] at hempty
  exact List.sublist_nil.mp hempty

/-! ## Dequeueing -/

/-- What is left in the queues when a packet is returned, or nothing is. -/
def Leaves (s s' : FqCoDelQueueDisc) : Option (ℕ × Packet) → Prop
  | none => s'.queue = s.queue
  | some (i, p) =>
    (∃ item, item.packet = p ∧ item :: s'.queue i <:+ s.queue i) ∧ ∀ j ≠ i, s'.queue j = s.queue j

theorem TurnSpec.keeps {cfg : Attributes} {s s' : FqCoDelQueueDisc}
    (hturn : TurnSpec cfg s (.next s')) : SameClasses s s' ∧ s'.queue = s.queue := by
  cases hturn with
  | newDebt i newFlows hnew hdeficit =>
    exact ⟨SameClasses.of_update rfl rfl rfl rfl,
      (queue_setFlow s i _).trans (Function.update_eq_self i s.queue)⟩
  | oldDebt i oldFlows hnew hold hdeficit =>
    exact ⟨SameClasses.of_update rfl rfl rfl rfl,
      (queue_setFlow s i _).trans (Function.update_eq_self i s.queue)⟩
  | newEmpty i newFlows qd hnew hempty hqd =>
    refine ⟨SameClasses.of_update rfl rfl rfl rfl, (queue_setFlow s i _).trans ?_⟩
    rw [hqd, ← hempty, Function.update_eq_self]
  | oldEmpty i oldFlows qd hnew hold hempty hqd =>
    refine ⟨SameClasses.of_update rfl rfl rfl rfl, (queue_setFlow s i _).trans ?_⟩
    rw [hqd, ← hempty, Function.update_eq_self]

/-- **A flow is served** from the front of its queue. -/
theorem serve_stop {cfg : Attributes} {s s' : FqCoDelQueueDisc} {i t : ℕ} {events : List Event}
    {item : Option (ℕ × Packet)} (hserve : s.serve cfg i t = .stop s' events item) :
    SameClasses s s' ∧ Leaves s s' item := by
  unfold serve at hserve
  cases hcall : (s.flow i).m_queueDisc.doDequeue cfg.codel t with
  | none =>
    rw [hcall] at hserve
    cases hserve
  | some r =>
    obtain ⟨qd, before⟩ := r
    rw [hcall] at hserve
    dsimp only at hserve
    cases hreturned : returned before with
    | none =>
      rw [hreturned] at hserve
      cases hserve
    | some p =>
      rw [hreturned] at hserve
      dsimp only at hserve
      rw [setFlow_setQueueDisc s i qd fun f ↦ f.increaseDeficit (-p.size)] at hserve
      cases hserve
      have hne : s.queue i ≠ [] := by
        rintro hnil
        rw [doDequeue_nil hnil] at hcall
        cases hcall
        cases hreturned
      obtain ⟨it, hit, hsuffix⟩ := doDequeue_takes hne hcall
      have hpacket : it.packet = p := Option.some.inj (hit.symm.trans hreturned)
      have hqueue := queue_setFlow s i
        (({ s.flow i with m_queueDisc := qd } : FqCoDelFlow).increaseDeficit (-p.size))
      refine ⟨SameClasses.of_update rfl rfl rfl rfl, ⟨it, hpacket, ?_⟩, fun j hj ↦ ?_⟩
      · change it :: (s.setFlow i _).queue i <:+ _
        rw [hqueue, Function.update_self]
        exact hsuffix
      · change (s.setFlow i _).queue j = _
        rw [hqueue, Function.update_of_ne hj]

theorem turn_stop {cfg : Attributes} {s s' : FqCoDelQueueDisc} {t : ℕ} {events : List Event}
    {item : Option (ℕ × Packet)} (hturn : s.turn cfg t = .stop s' events item) :
    SameClasses s s' ∧ Leaves s s' item := by
  unfold turn at hturn
  split at hturn
  · split_ifs at hturn
    exact serve_stop hturn
  · split_ifs at hturn
    exact serve_stop hturn
  · cases hturn
    exact ⟨SameClasses.refl s, rfl⟩

theorem Leaves.congr {s s₁ s' : FqCoDelQueueDisc} (hqueue : s₁.queue = s.queue)
    {item : Option (ℕ × Packet)} (h : Leaves s₁ s' item) : Leaves s s' item := by
  cases item with
  | none => exact h.trans hqueue
  | some x =>
    unfold Leaves at h ⊢
    rw [hqueue] at h
    exact h

/-- **`DoDequeue` takes packets from the front of one queue.** -/
theorem doDequeue_leaves {cfg : Attributes} {t fuel : ℕ} {s s' : FqCoDelQueueDisc}
    {events : List Event} {item : Option (ℕ × Packet)}
    (hdone : s.doDequeue cfg t fuel = .done (s', events, item)) :
    SameClasses s s' ∧ Leaves s s' item := by
  induction fuel generalizing s with
  | zero => cases hdone
  | succ fuel ih =>
    have hspec := turnSpec cfg s t
    rw [FqCoDelQueueDisc.doDequeue] at hdone
    cases hturn : s.turn cfg t with
    | next s₁ =>
      rw [hturn] at hspec hdone
      obtain ⟨hsame, hqueue⟩ := hspec.keeps
      obtain ⟨hsame', hleaves⟩ := ih hdone
      exact ⟨hsame.trans hsame', hleaves.congr hqueue⟩
    | stop s₁ events₁ item₁ =>
      rw [hturn] at hdone
      cases hdone
      exact turn_stop hturn
    | nullPointer =>
      rw [hturn] at hdone
      cases hdone

/-! ## Enqueueing -/

theorem setQueueDisc_keeps (s : FqCoDelQueueDisc) (i : ℕ) (qd : CoDelQueueDisc) :
    SameClasses s (s.setQueueDisc i qd) ∧
      (s.setQueueDisc i qd).queue = Function.update s.queue i qd.queue :=
  ⟨SameClasses.of_update rfl rfl rfl rfl, queue_setFlow s i { s.flow i with m_queueDisc := qd }⟩

theorem hash_keeps (cfg : Attributes) (s : FqCoDelQueueDisc) (flowHash : ℕ) :
    SameClasses s (s.hash cfg flowHash).2 ∧ (s.hash cfg flowHash).2.queue = s.queue := by
  unfold FqCoDelQueueDisc.hash setAssociativeHash
  split_ifs
  · exact ⟨⟨rfl, rfl, fun _ ↦ rfl⟩, rfl⟩
  · exact ⟨SameClasses.refl s, rfl⟩

theorem activate_keeps (cfg : Attributes) (s : FqCoDelQueueDisc) (i : ℕ) :
    SameClasses s (s.activate cfg i) ∧ (s.activate cfg i).queue = s.queue := by
  unfold FqCoDelQueueDisc.activate
  split_ifs
  · have hindex : (((s.flow i).setStatus .NEW_FLOW).setDeficit cfg.m_quantum).m_index =
        (s.flow i).m_index := by rw [FqCoDelFlow.setDeficit, FqCoDelFlow.setStatus]
    have hsame : SameClasses s (s.setFlow i (((s.flow i).setStatus .NEW_FLOW).setDeficit
        cfg.m_quantum)) := SameClasses.of_update rfl rfl rfl hindex
    refine ⟨⟨hsame.nClasses, hsame.flowsIndices, hsame.index⟩, (queue_setFlow s i _).trans ?_⟩
    exact Function.update_eq_self i s.queue
  · exact ⟨SameClasses.refl s, rfl⟩

theorem enqueueFlow_keeps (cfg : Attributes) (s : FqCoDelQueueDisc) (i : ℕ) (p : Packet) (t : ℕ) :
    SameClasses s (s.enqueueFlow cfg i p t).1 ∧ ∀ j, ((s.enqueueFlow cfg i p t).1.queue j).Sublist
      (Function.update s.queue i (s.queue i ++ [⟨p, t⟩]) j) := by
  obtain ⟨hsame, hqueue⟩ := setQueueDisc_keeps s i
    ((s.flow i).m_queueDisc.doEnqueue cfg.codel p t).1
  refine ⟨hsame, fun j ↦ ?_⟩
  change ((s.setQueueDisc i _).queue j).Sublist _
  rw [hqueue]
  rcases eq_or_ne j i with rfl | hne
  · rw [Function.update_self, Function.update_self, CoDelQueueDisc.doEnqueue]
    split_ifs
    · exact List.sublist_append_left _ _
    · exact List.Sublist.refl _
  · rw [Function.update_of_ne hne, Function.update_of_ne hne]

theorem fqCoDelDrop_keeps {cfg : Attributes} {s : FqCoDelQueueDisc}
    {r : FqCoDelQueueDisc × List Event} (hr : s.fqCoDelDrop cfg = some r) :
    SameClasses s r.1 ∧ ∀ j, (r.1.queue j).Sublist (s.queue j) := by
  rw [FqCoDelQueueDisc.fqCoDelDrop, Option.map_eq_some_iff] at hr
  obtain ⟨⟨events, queue⟩, hbatch, rfl⟩ := hr
  obtain ⟨item, rest, hrest, hsuffix⟩ := dropBatch_suffix cfg hbatch
  obtain ⟨hsame, hqueue⟩ := setQueueDisc_keeps s s.fatFlow.2
    { (s.flow s.fatFlow.2).m_queueDisc with queue }
  refine ⟨hsame, fun j ↦ ?_⟩
  dsimp only
  rw [hqueue]
  rcases eq_or_ne j s.fatFlow.2 with rfl | hne
  · rw [Function.update_self, hrest]
    exact (hsuffix.trans (List.suffix_cons _ _)).sublist
  · rw [Function.update_of_ne hne]

/-- A disc in which a packet has been enqueued in the class of an index, and packets may have been
dropped. -/
structure Enqueued (s s' : FqCoDelQueueDisc) (index i : ℕ) (item : QueueDiscItem) : Prop where
  classes : Classes s'
  indices : ∀ j k, s.m_flowsIndices j = some k → s'.m_flowsIndices j = some k
  index : s'.m_flowsIndices index = some i
  queue : ∀ j, (s'.queue j).Sublist (Function.update s.queue i (s.queue i ++ [item]) j)

theorem Classes.getFlow {s : FqCoDelQueueDisc} (h : Classes s) (index : ℕ) :
    Classes (s.getFlow index).2 ∧ (s.getFlow index).2.queue = s.queue ∧
      (s.getFlow index).2.m_flowsIndices index = some (s.getFlow index).1 ∧
      ∀ j k, s.m_flowsIndices j = some k → (s.getFlow index).2.m_flowsIndices j = some k := by
  unfold FqCoDelQueueDisc.getFlow
  cases hindex : s.m_flowsIndices index with
  | some i => exact ⟨h, rfl, hindex, fun _ _ hk ↦ hk⟩
  | none =>
    have hqueue : (s.setFlow s.nClasses (FqCoDelFlow.create index)).queue = s.queue := by
      rw [queue_setFlow, show (FqCoDelFlow.create index).m_queueDisc.queue = s.queue s.nClasses from
        (h.fresh s.nClasses le_rfl).symm, Function.update_eq_self]
    have hold : ∀ j k, s.m_flowsIndices j = some k →
        Function.update s.m_flowsIndices index (some s.nClasses) j = some k := by
      rintro j k hk
      have hne : j ≠ index := by
        rintro rfl
        rw [hindex] at hk
        cases hk
      rw [Function.update_of_ne hne]
      exact hk
    refine ⟨⟨?_, ?_, ?_⟩, hqueue, Function.update_self .., hold⟩
    · intro i hi
      change (s.setFlow s.nClasses (FqCoDelFlow.create index)).queue i = []
      rw [hqueue]
      exact h.fresh i ((Nat.le_succ _).trans hi)
    · rintro j i hj
      dsimp only at hj ⊢
      rcases eq_or_ne j index with rfl | hne
      · rw [Function.update_self, Option.some.injEq] at hj
        exact hj ▸ Nat.lt_succ_self _
      · rw [Function.update_of_ne hne] at hj
        exact (h.indices j i hj).trans (Nat.lt_succ_self _)
    · rintro i hi
      change Function.update s.m_flowsIndices index (some s.nClasses)
        (Function.update s.flow s.nClasses (FqCoDelFlow.create index) i).m_index = some i
      rcases eq_or_ne i s.nClasses with rfl | hne
      · rw [Function.update_self]
        exact Function.update_self ..
      · rw [Function.update_of_ne hne]
        exact hold _ i (h.index i (lt_of_le_of_ne (Nat.le_of_lt_succ hi) hne))

theorem Classes.beforeDrop {s : FqCoDelQueueDisc} (h : Classes s) (cfg : Attributes) (p : Packet)
    (flowHash t : ℕ) : ∃ i,
      Enqueued s (s.beforeDrop cfg p flowHash t).1 (s.hash cfg flowHash).1 i ⟨p, t⟩ := by
  obtain ⟨hsame₁, hqueue₁⟩ := hash_keeps cfg s flowHash
  have hhash : Classes (s.hash cfg flowHash).2 :=
    h.congr hsame₁ fun i hi ↦ by rw [hqueue₁]; exact h.fresh i hi
  obtain ⟨hflow, hqueue₂, hindex, hold⟩ := hhash.getFlow (s.hash cfg flowHash).1
  rw [hqueue₁] at hqueue₂
  rw [hsame₁.flowsIndices] at hold
  unfold FqCoDelQueueDisc.beforeDrop
  dsimp only
  generalize (s.hash cfg flowHash).2.getFlow (s.hash cfg flowHash).1 = g at *
  obtain ⟨i, s₂⟩ := g
  dsimp only at hflow hqueue₂ hindex hold ⊢
  obtain ⟨hsame₃, hqueue₃⟩ := activate_keeps cfg s₂ i
  obtain ⟨hsame₄, hsub⟩ := enqueueFlow_keeps cfg (s₂.activate cfg i) i p t
  have hsame := hsame₃.trans hsame₄
  rw [hqueue₃, hqueue₂] at hsub
  refine ⟨i, hflow.congr hsame ?_, ?_, ?_, hsub⟩
  · rintro j hj
    have hne : j ≠ i := ((hflow.indices _ i hindex).trans_le hj).ne'
    have hempty := hsub j
    rw [Function.update_of_ne hne, ← hqueue₂, hflow.fresh j hj] at hempty
    exact List.sublist_nil.mp hempty
  · rintro j k hk
    rw [hsame.flowsIndices]
    exact hold j k hk
  · rw [hsame.flowsIndices]
    exact hindex

/-- **`DoEnqueue` puts a packet at the end of one queue**, and may drop others. -/
theorem Classes.doEnqueue {s : FqCoDelQueueDisc} (h : Classes s) {cfg : Attributes} {p : Packet}
    {flowHash t : ℕ} {r : FqCoDelQueueDisc × List Event}
    (hdone : s.doEnqueue cfg p (some flowHash) t = .done r) :
    ∃ i, Enqueued s r.1 (s.hash cfg flowHash).1 i ⟨p, t⟩ := by
  obtain ⟨i, hbefore⟩ := h.beforeDrop cfg p flowHash t
  refine ⟨i, ?_⟩
  unfold FqCoDelQueueDisc.doEnqueue at hdone
  dsimp only at hdone
  split_ifs at hdone
  · cases hdrop : (s.beforeDrop cfg p flowHash t).1.fqCoDelDrop cfg with
    | none =>
      rw [hdrop] at hdone
      cases hdone
    | some r' =>
      rw [hdrop] at hdone
      cases hdone
      obtain ⟨hsame, hsub⟩ := fqCoDelDrop_keeps hdrop
      refine ⟨hbefore.classes.shrink hsame hsub, fun j k hk ↦ ?_, ?_,
        fun j ↦ (hsub j).trans (hbefore.queue j)⟩
      · rw [hsame.flowsIndices]
        exact hbefore.indices j k hk
      · rw [hsame.flowsIndices]
        exact hbefore.index
  · cases hdone
    exact hbefore

/-! ## The set-associative hash -/

/-- The queue of an index does not exist, has the tag of a flow or is inactive. -/
def Usable (s : FqCoDelQueueDisc) (flowHash i : ℕ) : Prop :=
  ∀ j ∈ s.m_flowsIndices i, s.m_tags i = some flowHash ∨ (s.flow j).m_status = .INACTIVE

instance (s : FqCoDelQueueDisc) (flowHash i : ℕ) : Decidable (Usable s flowHash i) :=
  inferInstanceAs (Decidable (∀ j ∈ s.m_flowsIndices i, _ ∨ _))

theorem findQueue_succ (s : FqCoDelQueueDisc) (flowHash n i : ℕ) :
    s.findQueue flowHash (n + 1) i =
      if Usable s flowHash i then some i else s.findQueue flowHash n (i + 1) := by
  cases hindex : s.m_flowsIndices i with
  | none =>
    have husable : Usable s flowHash i := fun j hj ↦ by
      rw [hindex] at hj
      cases hj
    rw [findQueue, hindex, if_pos husable]
  | some j =>
    have husable : Usable s flowHash i ↔
        s.m_tags i = some flowHash ∨ (s.flow j).m_status = .INACTIVE := by
      rw [Usable, hindex]
      exact ⟨fun h ↦ h j rfl, fun h k hk ↦ Option.mem_some_iff.mp hk ▸ h⟩
    rw [findQueue, hindex, if_congr husable rfl rfl]

theorem findQueue_eq_some {s : FqCoDelQueueDisc} {flowHash k : ℕ} (husable : Usable s flowHash k)
    (n : ℕ) {i : ℕ} (hle : i ≤ k) (hlt : k < i + n)
    (hfirst : ∀ m < k, i ≤ m → ¬ Usable s flowHash m) : s.findQueue flowHash n i = some k := by
  induction n generalizing i with
  | zero => exact absurd hlt (not_lt.mpr hle)
  | succ n ih =>
    rw [findQueue_succ]
    rcases eq_or_lt_of_le hle with rfl | hik
    · rw [if_pos husable]
    · rw [if_neg (hfirst i hik le_rfl)]
      exact ih hik (by omega) fun m hm him ↦ hfirst m hm ((Nat.le_succ i).trans him)

theorem findQueue_eq_none {s : FqCoDelQueueDisc} {flowHash : ℕ} (n : ℕ) {i : ℕ}
    (hnone : ∀ m < i + n, i ≤ m → ¬ Usable s flowHash m) : s.findQueue flowHash n i = none := by
  induction n generalizing i with
  | zero => rfl
  | succ n ih =>
    rw [findQueue_succ, if_neg (hnone i (by omega) le_rfl)]
    exact ih fun m hm him ↦ hnone m (by omega) ((Nat.le_succ i).trans him)

/-- A flow stays in the queue of an index: the queue has the tag of the flow, and those of the set before
it are not usable, or it is the first one of a set without a usable queue. -/
def InPlace (cfg : Attributes) (s : FqCoDelQueueDisc) (flowHash i : ℕ) : Prop :=
  let outerHash := flowHash % cfg.m_flows - flowHash % cfg.m_flows % cfg.m_setWays
  outerHash ≤ i ∧ i < outerHash + cfg.m_setWays ∧ s.m_tags i = some flowHash ∧
      (∀ k < i, outerHash ≤ k → ¬ Usable s flowHash k) ∨
    i = outerHash ∧ ∀ k < outerHash + cfg.m_setWays, outerHash ≤ k → ¬ Usable s flowHash k

instance (cfg : Attributes) (s : FqCoDelQueueDisc) (flowHash i : ℕ) :
    Decidable (InPlace cfg s flowHash i) :=
  inferInstanceAs (Decidable (_ ∧ _ ∧ _ ∧ _ ∨ _ ∧ _))

theorem InPlace.hash_eq {cfg : Attributes} {s : FqCoDelQueueDisc} {flowHash i : ℕ}
    (h : InPlace cfg s flowHash i) (hassoc : cfg.m_enableSetAssociativeHash = true) :
    (s.hash cfg flowHash).1 = i := by
  rw [FqCoDelQueueDisc.hash, if_pos hassoc, setAssociativeHash]
  dsimp only
  rcases h with ⟨hle, hlt, htag, hfirst⟩ | ⟨rfl, hnone⟩
  · rw [findQueue_eq_some (fun _ _ ↦ Or.inl htag) _ hle hlt hfirst]
    rfl
  · rw [findQueue_eq_none _ hnone]
    rfl

/-! ## Runs -/

/-- A disc, with the flow hash of each packet that has arrived and the numbers of those returned. -/
structure Trace where
  disc : FqCoDelQueueDisc
  flows : List (Option ℕ)
  returned : List ℕ

/-- A call, in which a packet that arrives is given the next number. -/
def Trace.step (cfg : Attributes) (s : Trace) : Op → Option Trace
  | .enqueue p flowHash t =>
    (s.disc.step cfg (.enqueue { p with uid := s.flows.length } flowHash t)).map fun r ↦
      { s with disc := r.1, flows := s.flows ++ [flowHash] }
  | .dequeue t fuel =>
    (s.disc.step cfg (.dequeue t fuel)).map fun r ↦
      { s with disc := r.1, returned := s.returned ++ (r.2.map fun x ↦ x.2.uid).toList }

/-- The runs of a disc, with what arrives and is returned. -/
def traceMachine (cfg : Attributes) : Machine Trace Op where
  init := ⟨create, [], []⟩
  next := Trace.step cfg

/-- The packets of each flow have been returned in the order in which they arrived. -/
def Trace.InOrder (s : Trace) : Prop :=
  s.returned.Pairwise fun m n ↦ s.flows[m]? = s.flows[n]? → m < n

instance (s : Trace) : Decidable s.InOrder :=
  inferInstanceAs (Decidable (List.Pairwise _ _))

/-- Every queue with packets of the flow of a packet that arrives is one in which the flow stays. -/
def Settled (cfg : Attributes) (s : Trace) : Op → Prop
  | .enqueue _ (some flowHash) _ =>
    cfg.m_enableSetAssociativeHash = true → ∀ j < s.disc.nClasses,
      (∃ n ∈ s.disc.uids j, s.flows[n]? = some (some flowHash)) →
        InPlace cfg s.disc flowHash (s.disc.flow j).m_index
  | _ => True

instance (cfg : Attributes) (s : Trace) : ∀ op, Decidable (Settled cfg s op)
  | .enqueue _ (some _) _ => inferInstanceAs (Decidable (_ → ∀ j < s.disc.nClasses, _ → _))
  | .enqueue _ none _ => inferInstanceAs (Decidable True)
  | .dequeue _ _ => inferInstanceAs (Decidable True)

/-- Without the set-associative hash, the packets of a flow are in the queue of its hash. -/
def Hashed (cfg : Attributes) (s : Trace) : Prop :=
  cfg.m_enableSetAssociativeHash = false → ∀ i, ∀ n ∈ s.disc.uids i, ∀ flowHash,
    s.flows[n]? = some (some flowHash) → s.disc.m_flowsIndices (flowHash % cfg.m_flows) = some i

/-- What holds in such a run. -/
structure Tracked (cfg : Attributes) (s : Trace) : Prop where
  classes : Classes s.disc
  hashed : Hashed cfg s
  order : FlowOrder s.flows s.disc.uids s.returned

theorem tracked_init (cfg : Attributes) : Tracked cfg (traceMachine cfg).init where
  classes := classes_create
  hashed _ _ _ hn := absurd hn List.not_mem_nil
  order := FlowOrder.nil

section Steps

variable {cfg : Attributes} {s : Trace}

theorem Tracked.together (h : Tracked cfg s) {p : Packet} {flowHash t i : ℕ}
    (hsettled : Settled cfg s (.enqueue p (some flowHash) t)) {s' : FqCoDelQueueDisc}
    {item : QueueDiscItem} (henqueued : Enqueued s.disc s' (s.disc.hash cfg flowHash).1 i item) :
    ∀ j, ∀ n ∈ s.disc.uids j, s.flows[n]? = some (some flowHash) → j = i := by
  rintro j n hn hflow
  have hindex := henqueued.index
  suffices hj : s.disc.m_flowsIndices (s.disc.hash cfg flowHash).1 = some j by
    exact Option.some.inj ((henqueued.indices _ j hj).symm.trans hindex)
  cases hassoc : cfg.m_enableSetAssociativeHash with
  | false =>
    rw [FqCoDelQueueDisc.hash, if_neg (by rw [hassoc]; decide)]
    exact h.hashed hassoc j n hn flowHash hflow
  | true =>
    have hlt : j < s.disc.nClasses := by
      by_contra hge
      rw [uids, h.classes.fresh j (Nat.le_of_not_lt hge)] at hn
      cases hn
    rw [(hsettled hassoc j hlt ⟨n, hn, hflow⟩).hash_eq hassoc]
    exact h.classes.index j hlt

theorem Tracked.enqueue (h : Tracked cfg s) {p : Packet} {flowHash t : ℕ}
    (hsettled : Settled cfg s (.enqueue p (some flowHash) t)) {r : FqCoDelQueueDisc × List Event}
    (hdone : s.disc.doEnqueue cfg { p with uid := s.flows.length } (some flowHash) t = .done r) :
    Tracked cfg { s with disc := r.1, flows := s.flows ++ [some flowHash] } := by
  obtain ⟨i, henqueued⟩ := h.classes.doEnqueue hdone
  have hsub : ∀ j, (r.1.uids j).Sublist
      (Function.update s.disc.uids i (s.disc.uids i ++ [s.flows.length]) j) := by
    intro j
    have hqueue := (henqueued.queue j).map fun item : QueueDiscItem ↦ item.packet.uid
    rcases eq_or_ne j i with rfl | hne
    · rw [Function.update_self, List.map_append] at hqueue
      rw [Function.update_self]
      exact hqueue
    · rw [Function.update_of_ne hne] at hqueue ⊢
      exact hqueue
  refine ⟨henqueued.classes, ?_, (h.order.enqueue (h.together hsettled henqueued)).shrink hsub⟩
  rintro hassoc j n hn f hflow
  have hmem := (hsub j).subset hn
  dsimp only at hflow ⊢
  rcases eq_or_ne j i with rfl | hne
  · rw [Function.update_self, List.mem_append, List.mem_singleton] at hmem
    rcases hmem with hmem | rfl
    · rw [List.getElem?_append_left (h.order.queued_lt j n hmem)] at hflow
      exact henqueued.indices _ j (h.hashed hassoc j n hmem f hflow)
    · have hindex := henqueued.index
      rw [FqCoDelQueueDisc.hash, if_neg (by rw [hassoc]; decide)] at hindex
      simp only [List.getElem?_concat_length, Option.some.injEq] at hflow
      exact hflow ▸ hindex
  · rw [Function.update_of_ne hne] at hmem
    rw [List.getElem?_append_left (h.order.queued_lt j n hmem)] at hflow
    exact henqueued.indices _ j (h.hashed hassoc j n hmem f hflow)

theorem Tracked.unclassified (h : Tracked cfg s) :
    Tracked cfg { s with flows := s.flows ++ [none] } where
  classes := h.classes
  hashed hassoc j n hn f hflow := by
    dsimp only at hn hflow
    rw [List.getElem?_append_left (h.order.queued_lt j n hn)] at hflow
    exact h.hashed hassoc j n hn f hflow
  order := h.order.arrive none

theorem Tracked.dequeue (h : Tracked cfg s) {t fuel : ℕ} {disc : FqCoDelQueueDisc}
    {events : List Event} {item : Option (ℕ × Packet)}
    (hdone : s.disc.doDequeue cfg t fuel = .done (disc, events, item)) :
    Tracked cfg
      { s with disc, returned := s.returned ++ (item.map fun x ↦ x.2.uid).toList } := by
  obtain ⟨hsame, hleaves⟩ := doDequeue_leaves hdone
  -- What is left in each queue is the end of what was there.
  have hsub : ∀ j, (disc.queue j).Sublist (s.disc.queue j) := by
    intro j
    cases item with
    | none => rw [show disc.queue = s.disc.queue from hleaves]
    | some x =>
      obtain ⟨⟨it, -, hsuffix⟩, hrest⟩ := hleaves
      rcases eq_or_ne j x.1 with rfl | hne
      · exact ((List.suffix_cons _ _).trans hsuffix).sublist
      · rw [hrest j hne]
  have huids : ∀ j, (disc.uids j).Sublist (s.disc.uids j) := fun j ↦ (hsub j).map _
  refine ⟨h.classes.shrink hsame hsub, ?_, ?_⟩
  · rintro hassoc j n hn f hflow
    dsimp only
    rw [hsame.flowsIndices]
    exact h.hashed hassoc j n ((huids j).subset hn) f hflow
  · cases item with
    | none =>
      rw [Option.map_none, Option.toList_none, List.append_nil]
      exact h.order.shrink huids
    | some x =>
      obtain ⟨⟨it, hit, hsuffix⟩, -⟩ := hleaves
      rw [Option.map_some, Option.toList_some, ← hit]
      exact h.order.dequeue (hsuffix.sublist.map fun item : QueueDiscItem ↦ item.packet.uid) huids

end Steps

/-- **What holds in a run** in which flows with packets stay in their queues. -/
theorem tracked_of_run {cfg : Attributes} {ops : List Op} {s : Trace}
    (hr : (traceMachine cfg).Run (Settled cfg) ops s) : Tracked cfg s := by
  refine hr.invariant (I := Tracked cfg) (tracked_init cfg) ?_
  rintro s op s' h hsettled hstep
  change Trace.step cfg s op = some s' at hstep
  cases op with
  | enqueue p flowHash t =>
    rw [Trace.step, FqCoDelQueueDisc.step] at hstep
    cases hdone : s.disc.doEnqueue cfg { p with uid := s.flows.length } flowHash t with
    | done r =>
      rw [hdone] at hstep
      cases hstep
      cases flowHash with
      | none =>
        cases hdone
        exact h.unclassified
      | some flowHash => exact h.enqueue hsettled hdone
    | nullPointer => rw [hdone] at hstep; cases hstep
    | divisionByZero => rw [hdone] at hstep; cases hstep
    | unfinished => rw [hdone] at hstep; cases hstep
  | dequeue t fuel =>
    rw [Trace.step, FqCoDelQueueDisc.step] at hstep
    cases hdone : s.disc.doDequeue cfg t fuel with
    | done r =>
      obtain ⟨disc, events, item⟩ := r
      rw [hdone] at hstep
      cases hstep
      exact h.dequeue hdone
    | nullPointer => rw [hdone] at hstep; cases hstep
    | divisionByZero => rw [hdone] at hstep; cases hstep
    | unfinished => rw [hdone] at hstep; cases hstep

/-- **The packets of a flow are returned in order**, with or without the set-associative hash, in a run in
which a flow with packets in a queue stays there. -/
theorem flows_inOrder {cfg : Attributes} {ops : List Op} {s : Trace}
    (hr : (traceMachine cfg).Run (Settled cfg) ops s) : s.InOrder :=
  (tracked_of_run hr).order.inOrder

/-- A quantum of 1500 bytes, with the set-associative hash. -/
def setAssociative : Attributes := { defaults 1500 with m_enableSetAssociativeHash := true }

/-- Two flows of the same set, one with two packets. -/
theorem flows_inOrder_three : ∃ s, (traceMachine setAssociative).Run (Settled setAssociative)
    [.enqueue ⟨0, 1500, false⟩ (some 0) 0, .enqueue ⟨0, 1500, false⟩ (some 1) 0,
      .enqueue ⟨0, 1500, false⟩ (some 1) 0, .dequeue 0 9, .dequeue 0 9, .dequeue 0 9] s ∧
    s.returned = [0, 1, 2] ∧ s.InOrder := by
  refine Machine.exists_run_and_allowed (p := fun s : Trace ↦ s.returned = [0, 1, 2])
    (by decide +kernel) (by decide +kernel) fun s hr hreturned ↦ ?_
  exact ⟨hreturned, flows_inOrder hr⟩

/-- Two flows of the same set. When the queue of the first has become inactive the second has a packet in
another queue, and the packet of it that arrives then is returned first. -/
theorem not_flows_inOrder : ¬ ∀ ops s, (traceMachine setAssociative).Run Machine.unguarded ops s →
    s.InOrder := by
  have hrun : ∃ s, (traceMachine setAssociative).Run Machine.unguarded
      [.enqueue ⟨0, 1500, false⟩ (some 0) 0, .enqueue ⟨0, 1500, false⟩ (some 1) 0,
        .enqueue ⟨0, 1500, false⟩ (some 1) 0, .enqueue ⟨0, 1500, false⟩ (some 1) 0, .dequeue 0 9,
        .dequeue 0 9, .dequeue 0 9, .enqueue ⟨0, 1500, false⟩ (some 1) 0, .dequeue 0 9,
        .dequeue 0 9] s ∧ s.returned = [0, 1, 2, 4, 3] ∧ ¬ s.InOrder :=
    Machine.exists_run_of_exec
      (p := fun s : Trace ↦ s.returned = [0, 1, 2, 4, 3] ∧ ¬ s.InOrder) (by decide +kernel)
  obtain ⟨s, hr, -, hnot⟩ := hrun
  exact fun h ↦ hnot (h _ s hr)

end FqCoDelQueueDisc

end TrafficControl

end Ns3
