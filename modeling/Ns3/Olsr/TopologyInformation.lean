import Ns3.Olsr.Node

/-!
# Topology information and its sequence number

A node advertises its MPR selectors in TC messages under the number ANSN, and a node that processes a TC
keeps the tuples of the originator that have its ANSN, discards those with a smaller one, and discards the
TC where it has one with a greater.

So the tuples are those of the last TC as long as the ANSN changes with each change of what is advertised,
and grows. It does not change where `NeighborLoss` erases the MPR selectors of a neighbor, and it does not
grow where it wraps, as it is compared as a plain number. In every run in which neither happens at the wrong
time a TC leaves exactly what it lists (`listed_of_run`).
-/

namespace Ns3

namespace Olsr

/-! ## Sender and receiver -/

/-- A TC message that was sent, with the number of times that the ANSN had been incremented. -/
structure Sent where
  tc : Tc
  ansnIncrements : ℕ
  deriving DecidableEq

/-- An originator, a receiver, the messages that the one has sent, how many of them are past, and the last
one that the other has processed. -/
structure Flow where
  originator : Node
  receiver : Node
  sent : List Sent
  past : ℕ
  last : Option Sent

namespace Flow

/-- Two new nodes. -/
def create (originator receiver : Node) : Flow := ⟨originator, receiver, [], 0, none⟩

inductive Op
  | originator (o : Node.Op)
  | receiver (o : Node.Op)
  | tcTimerExpire
  | deliver (k : ℕ) (vTime : ℤ) (senderIface : Ipv4Address)
  | wait (d : ℕ)
  deriving DecidableEq

/-- The message is one of the originator's TC messages. -/
def FromOriginator (s : Flow) : Node.Op → Prop
  | .tc msg _ _ => msg.originatorAddress = s.originator.m_mainAddress
  | _ => False

instance (s : Flow) (o : Node.Op) : Decidable (s.FromOriginator o) :=
  match o with
  | .tc .. => inferInstanceAs (Decidable (_ = _))
  | .hello .. => inferInstanceAs (Decidable False)
  | .mid .. => inferInstanceAs (Decidable False)
  | .expire _ => inferInstanceAs (Decidable False)
  | .wait _ => inferInstanceAs (Decidable False)

/-- Time passes for both nodes. -/
def IsWait : Node.Op → Bool
  | .wait _ => true
  | _ => false

/-- A TC may be processed: no later one has been, it comes through a symmetric link, and not too many
increments are between it and the last one. -/
def Deliverable (s : Flow) (k : ℕ) (e : Sent) (senderIface : Ipv4Address) : Prop :=
  s.past ≤ k ∧ (s.receiver.m_state.findSymLinkTuple senderIface s.receiver.now).isSome ∧
    s.receiver.m_mainAddress ≠ s.originator.m_mainAddress ∧
    ∀ l ∈ s.last, e.ansnIncrements < l.ansnIncrements + 32768

instance (s : Flow) (k : ℕ) (e : Sent) (a : Ipv4Address) : Decidable (s.Deliverable k e a) :=
  inferInstanceAs (Decidable (_ ∧ _ ∧ _ ∧ ∀ l ∈ s.last, _))

/-- A step. The originator's own TC messages reach the receiver through `deliver`. -/
def step (s : Flow) : Op → Option Flow
  | .originator o =>
    if IsWait o then none
    else (s.originator.step o).map fun n ↦ { s with originator := n }
  | .receiver o =>
    if IsWait o ∨ s.FromOriginator o then none
    else (s.receiver.step o).map fun n ↦ { s with receiver := n }
  | .tcTimerExpire =>
    if s.originator.m_state.m_mprSelectorSet = [] then some s
    else some { s with
      sent := s.sent ++ [⟨s.originator.sendTc, s.originator.ansnIncrements⟩] }
  | .deliver k vTime senderIface =>
    match s.sent[k]? with
    | none => none
    | some e =>
      if s.Deliverable k e senderIface then
        (s.receiver.step (.tc ⟨s.originator.m_mainAddress, vTime⟩ e.tc senderIface)).map fun n ↦
          { s with receiver := n, past := k + 1, last := some e }
      else none
  | .wait d =>
    (s.originator.step (.wait d)).bind fun n ↦
      (s.receiver.step (.wait d)).map fun n' ↦ { s with originator := n, receiver := n' }

/-- The runs of two nodes. -/
def machine (originator receiver : Node) : Machine Flow Op := ⟨create originator receiver, step⟩

/-! ## What keeps the numbers in order -/

/-- The event is the one at which the node notices that a link is not symmetric any more, and MPR selectors
of a neighbor that it knows are erased. -/
def LosesSelector (n : Node) : Timer → Prop
  | .linkTupleTimerExpire neighborIfaceAddr =>
    (∃ l ∈ n.m_state.findLinkTuple neighborIfaceAddr, n.now ≤ l.time ∧ l.symTime < n.now) ∧
      n.m_linkTupleTimerFirstTime = false ∧
      (n.m_state.findNeighborTuple (n.getMainAddress neighborIfaceAddr)).isSome ∧
      ∃ t ∈ n.m_state.m_mprSelectorSet, t.mainAddr = n.getMainAddress neighborIfaceAddr
  | _ => False

instance (n : Node) (t : Timer) : Decidable (LosesSelector n t) :=
  match t with
  | .linkTupleTimerExpire a =>
    inferInstanceAs (Decidable ((∃ l ∈ n.m_state.findLinkTuple a, _) ∧ _ ∧ _ ∧
      ∃ t ∈ n.m_state.m_mprSelectorSet, _))
  | .nb2hopTupleTimerExpire .. => inferInstanceAs (Decidable False)
  | .mprSelTupleTimerExpire _ => inferInstanceAs (Decidable False)
  | .topologyTupleTimerExpire .. => inferInstanceAs (Decidable False)
  | .ifaceAssocTupleTimerExpire _ => inferInstanceAs (Decidable False)

/-- No MPR selector is lost with its neighbor, and no tuple has a number that is greater than that of a TC
which is processed. -/
def Ordered (s : Flow) : Op → Prop
  | .originator (.expire e) => ¬ LosesSelector s.originator e.timer
  | .deliver k _ _ => ∀ e ∈ s.sent[k]?,
    (s.receiver.m_state.findNewerTopologyTuple s.originator.m_mainAddress e.tc.ansn).isNone
  | _ => True

instance (s : Flow) (o : Op) : Decidable (s.Ordered o) :=
  match o with
  | .originator (.expire e) => inferInstanceAs (Decidable (¬ LosesSelector s.originator e.timer))
  | .originator (.hello ..) => inferInstanceAs (Decidable True)
  | .originator (.tc ..) => inferInstanceAs (Decidable True)
  | .originator (.mid ..) => inferInstanceAs (Decidable True)
  | .originator (.wait _) => inferInstanceAs (Decidable True)
  | .receiver _ => inferInstanceAs (Decidable True)
  | .tcTimerExpire => inferInstanceAs (Decidable True)
  | .deliver k _ _ => inferInstanceAs (Decidable (∀ e ∈ s.sent[k]?, _))
  | .wait _ => inferInstanceAs (Decidable True)

end Flow

/-! ## The originator -/

/-- The ANSN after a number of increments. -/
def ansnOf (increments : ℕ) : ℕ := (65535 + increments) % 65536

namespace Node

/-- The ANSN is incremented, or what is advertised stays the same. -/
structure Advances (n n' : Node) : Prop where
  mainAddress : n'.m_mainAddress = n.m_mainAddress
  ansn : n.m_ansn = ansnOf n.ansnIncrements → n'.m_ansn = ansnOf n'.ansnIncrements
  le : n.ansnIncrements ≤ n'.ansnIncrements
  same : n'.ansnIncrements = n.ansnIncrements →
    n'.sendTc.neighborAddresses = n.sendTc.neighborAddresses

variable {n n' n'' : Node}

@[refl] theorem Advances.refl (n : Node) : Advances n n := ⟨rfl, id, le_refl _, fun _ ↦ rfl⟩

theorem Advances.trans (h : Advances n n') (h' : Advances n' n'') : Advances n n'' where
  mainAddress := h'.mainAddress.trans h.mainAddress
  ansn := h'.ansn ∘ h.ansn
  le := h.le.trans h'.le
  same heq := by
    have hle := h.le
    have hle' := h'.le
    exact (h'.same (by omega)).trans (h.same (by omega))

theorem Advances.of_eq (h₁ : n'.m_mainAddress = n.m_mainAddress) (h₂ : n'.m_ansn = n.m_ansn)
    (h₃ : n'.ansnIncrements = n.ansnIncrements)
    (h₄ : n'.sendTc.neighborAddresses = n.sendTc.neighborAddresses) : Advances n n' :=
  ⟨h₁, fun h ↦ by rw [h₂, h₃, h], h₃.ge, fun _ ↦ h₄⟩

theorem Advances.foldl {α : Type*} {f : Node → α → Node} (h : ∀ n x, Advances n (f n x)) (l : List α)
    (n : Node) : Advances n (l.foldl f n) := by
  induction l generalizing n with
  | nil => rfl
  | cons x l ih => exact (h n x).trans (ih (f n x))

theorem incrementAnsn_advances (n : Node) : Advances n n.incrementAnsn where
  mainAddress := rfl
  ansn h := by
    change (n.m_ansn + 1) % 65536 = ansnOf (n.ansnIncrements + 1)
    rw [h, ansnOf, ansnOf]
    omega
  le := Nat.le_succ _
  same h := absurd h (Nat.succ_ne_self _)

theorem modifyState_incrementAnsn (n : Node) (f : OlsrState → OlsrState) :
    Advances n (n.modifyState f).incrementAnsn where
  mainAddress := rfl
  ansn := (incrementAnsn_advances (n.modifyState f)).ansn
  le := Nat.le_succ _
  same h := absurd h (Nat.succ_ne_self _)

theorem modifyState_advances (n : Node) {f : OlsrState → OlsrState}
    (h : (f n.m_state).m_mprSelectorSet.map MprSelectorTuple.mainAddr =
      n.m_state.m_mprSelectorSet.map MprSelectorTuple.mainAddr) : Advances n (n.modifyState f) :=
  .of_eq rfl rfl rfl h

theorem schedule_advances (n : Node) (time : ℤ) (timer : Timer) : Advances n (n.schedule time timer) :=
  .of_eq rfl rfl rfl rfl

theorem linkTupleAdded_advances (n : Node) (l : LinkTuple) (w : ℕ) : Advances n (n.linkTupleAdded l w) :=
  n.modifyState_incrementAnsn _

theorem setStatus_advances (n : Node) (a : Ipv4Address) (status : Status) :
    Advances n (n.setStatus a status) :=
  n.modifyState_advances rfl

theorem withNeighborTuple_advances (n : Node) (l : LinkTuple) (w : ℕ) :
    Advances n (n.withNeighborTuple l w) := by
  unfold withNeighborTuple
  split
  · exact n.linkTupleAdded_advances l w
  · rfl

theorem linkTupleUpdated_advances (n : Node) (l : LinkTuple) (w : ℕ) :
    Advances n (n.linkTupleUpdated l w) :=
  (n.withNeighborTuple_advances l w).trans (setStatus_advances _ _ _)

theorem mprComputation_advances (n : Node) : Advances n n.mprComputation :=
  n.modifyState_advances rfl

theorem routingTableComputation_advances (n : Node) : Advances n n.routingTableComputation :=
  .of_eq rfl rfl rfl rfl

/-- **A neighbor is lost**: the ANSN is incremented or nothing that is advertised is erased, unless MPR
selectors of a known neighbor are. -/
theorem neighborLoss_advances {n : Node} {l : LinkTuple}
    (h : n.m_state.findNeighborTuple (n.getMainAddress l.neighborIfaceAddr) = none ∨
      ∀ t ∈ n.m_state.m_mprSelectorSet, t.mainAddr ≠ n.getMainAddress l.neighborIfaceAddr) :
    Advances n (n.neighborLoss l) := by
  have hupdated := n.linkTupleUpdated_advances l willDefault
  refine Advances.trans ?_ (routingTableComputation_advances _)
  refine Advances.trans ?_ (mprComputation_advances _)
  rcases h with hnone | hno
  · have hless : n.ansnIncrements < (n.linkTupleUpdated l willDefault).ansnIncrements := by
      rw [linkTupleUpdated, withNeighborTuple, hnone]
      exact Nat.lt_succ_self _
    exact ⟨hupdated.mainAddress, hupdated.ansn, hless.le, fun heq ↦ absurd heq hless.ne'⟩
  · refine hupdated.trans (modifyState_advances _ ?_)
    have hstate := n.linkTupleUpdated_onlyNeighbors l willDefault
    have hmain : (n.linkTupleUpdated l willDefault).getMainAddress l.neighborIfaceAddr =
        n.getMainAddress l.neighborIfaceAddr := hstate.getMainAddress _
    change ((n.linkTupleUpdated l willDefault).m_state.m_mprSelectorSet.filter _).map _ = _
    rw [hstate.m_mprSelectorSet, hmain,
      List.filter_eq_self.mpr fun t ht ↦ decide_eq_true (hno t ht)]

theorem linkSensing_advances {n n' : Node} {msg : MessageHeader} {hello : Hello}
    {receiverIface senderIface : Ipv4Address}
    (h : n.linkSensing msg hello receiverIface senderIface = some n') : Advances n n' := by
  unfold linkSensing at h
  split_ifs at h
  dsimp only at h
  rw [Option.map_eq_some_iff] at h
  obtain ⟨⟨l, updated⟩, -, rfl⟩ := h
  dsimp only
  have hput : ∀ created l', Advances n (n.putLinkTuple created l') := fun created l' ↦ by
    unfold putLinkTuple
    split_ifs
    · exact n.modifyState_advances rfl
    · exact n.modifyState_advances rfl
  split_ifs
  · exact (((hput _ _).trans (linkTupleUpdated_advances _ _ _)).trans
      (linkTupleAdded_advances _ _ _)).trans (schedule_advances _ _ _)
  · exact ((hput _ _).trans (linkTupleAdded_advances _ _ _)).trans (schedule_advances _ _ _)
  · exact (hput _ _).trans (linkTupleUpdated_advances _ _ _)
  · exact hput _ _

theorem populateTwoHopNeighbor_advances (n : Node) (msg : MessageHeader) (neighborType : ℕ)
    (addr : Ipv4Address) : Advances n (n.populateTwoHopNeighbor msg neighborType addr) := by
  unfold populateTwoHopNeighbor
  dsimp only
  split_ifs
  · rfl
  · split
    · exact (n.modifyState_advances rfl).trans (schedule_advances _ _ _)
    · exact n.modifyState_advances rfl
  · exact n.modifyState_advances rfl
  · rfl

theorem populateTwoHopNeighborSet_advances (n : Node) (msg : MessageHeader) (hello : Hello) :
    Advances n (n.populateTwoHopNeighborSet msg hello) := by
  refine Advances.foldl (fun n l ↦ ?_) _ n
  split_ifs
  · rfl
  · exact Advances.foldl (fun n (m : LinkMessage) ↦ Advances.foldl
      (fun n a ↦ n.populateTwoHopNeighbor_advances msg m.neighborType a) _ n) _ n

theorem populateMprSelector_advances (n : Node) (msg : MessageHeader) (addr : Ipv4Address) :
    Advances n (n.populateMprSelector msg addr) := by
  unfold populateMprSelector
  split_ifs
  · split
    · exact (n.modifyState_incrementAnsn _).trans (schedule_advances _ _ _)
    · refine n.modifyState_advances ?_
      exact map_updateFirst (p := fun t : MprSelectorTuple ↦ t.mainAddr = msg.originatorAddress)
        (fun _ _ ↦ by rfl) _
  · rfl

theorem populateMprSelectorSet_advances (n : Node) (msg : MessageHeader) (hello : Hello) :
    Advances n (n.populateMprSelectorSet msg hello) := by
  refine Advances.foldl (fun n m ↦ ?_) _ n
  split_ifs
  · exact Advances.foldl (fun n a ↦ n.populateMprSelector_advances msg a) _ n
  · rfl

theorem processHello_advances {n n' : Node} {msg : MessageHeader} {hello : Hello}
    {receiverIface senderIface : Ipv4Address}
    (h : n.processHello msg hello receiverIface senderIface = some n') : Advances n n' := by
  unfold processHello at h
  rw [Option.map_eq_some_iff] at h
  obtain ⟨n₁, hsensing, rfl⟩ := h
  refine (linkSensing_advances hsensing).trans ?_
  refine Advances.trans ?_ (populateMprSelectorSet_advances _ _ _)
  refine Advances.trans ?_ (mprComputation_advances _)
  exact (n₁.modifyState_advances rfl).trans (populateTwoHopNeighborSet_advances _ _ _)

theorem processTc_advances (n : Node) (msg : MessageHeader) (tc : Tc) (senderIface : Ipv4Address) :
    Advances n (n.processTc msg tc senderIface) := by
  unfold processTc
  split_ifs
  · rfl
  · rfl
  · refine (n.modifyState_advances rfl).trans (Advances.foldl (fun n a ↦ ?_) _ _)
    unfold processTcAddress
    split
    · exact n.modifyState_advances rfl
    · exact (n.modifyState_advances rfl).trans (schedule_advances _ _ _)

theorem processMid_advances (n : Node) (msg : MessageHeader) (addrs : List Ipv4Address)
    (senderIface : Ipv4Address) : Advances n (n.processMid msg addrs senderIface) := by
  unfold processMid
  split_ifs
  · rfl
  · refine (Advances.foldl (fun n a ↦ ?_) addrs n).trans (modifyState_advances _ rfl)
    unfold processMidAddress
    split_ifs
    · exact n.modifyState_advances rfl
    · exact (n.modifyState_advances rfl).trans (schedule_advances _ _ _)

theorem losesSelector_events {n : Node} {events : List Event} {t : Timer} :
    Flow.LosesSelector { n with m_events := events } t ↔ Flow.LosesSelector n t := by
  cases t <;> rfl

theorem expire_advances {n : Node} {t : Timer} (h : ¬ Flow.LosesSelector n t) :
    Advances n (n.expire t) := by
  cases t with
  | linkTupleTimerExpire a =>
    change Advances n (n.linkTupleTimerExpire a)
    unfold linkTupleTimerExpire
    split
    · rfl
    · rename_i tuple hfind
      have haddr : tuple.neighborIfaceAddr = a := by simpa using List.find?_some hfind
      split_ifs with htime hsym hfirst
      · exact n.modifyState_advances rfl
      · exact .of_eq rfl rfl rfl rfl
      · refine (neighborLoss_advances ?_).trans (schedule_advances _ _ _)
        rw [haddr]
        cases hnb : n.m_state.findNeighborTuple (n.getMainAddress a) with
        | none => exact Or.inl rfl
        | some nb =>
          refine Or.inr fun t ht hta ↦ h ⟨⟨tuple, hfind, not_lt.mp htime, hsym⟩, ?_, ?_, t, ht, hta⟩
          · exact Bool.eq_false_iff.mpr hfirst
          · rw [hnb]
            rfl
      · exact schedule_advances _ _ _
  | nb2hopTupleTimerExpire a b =>
    change Advances n (n.nb2hopTupleTimerExpire a b)
    unfold nb2hopTupleTimerExpire
    split
    · rfl
    · split_ifs
      · exact n.modifyState_advances rfl
      · exact schedule_advances _ _ _
  | mprSelTupleTimerExpire a =>
    change Advances n (n.mprSelTupleTimerExpire a)
    unfold mprSelTupleTimerExpire
    split
    · rfl
    · split_ifs
      · exact n.modifyState_incrementAnsn _
      · exact schedule_advances _ _ _
  | topologyTupleTimerExpire a b =>
    change Advances n (n.topologyTupleTimerExpire a b)
    unfold topologyTupleTimerExpire
    split
    · rfl
    · split_ifs
      · exact n.modifyState_advances rfl
      · exact schedule_advances _ _ _
  | ifaceAssocTupleTimerExpire a =>
    change Advances n (n.ifaceAssocTupleTimerExpire a)
    unfold ifaceAssocTupleTimerExpire
    split
    · rfl
    · split_ifs
      · exact n.modifyState_advances rfl
      · exact schedule_advances _ _ _

/-- **A step of the originator** increments the ANSN or leaves what is advertised, if it does not lose an MPR
selector. -/
theorem step_advances {n n' : Node} {o : Op} (h : n.step o = some n')
    (ho : ∀ e, o = .expire e → ¬ Flow.LosesSelector n e.timer) : Advances n n' := by
  have hrecv : ∀ {msg : MessageHeader} {process : Node → Option Node},
      (∀ n', process n = some n' → Advances n n') → n.recv msg process = some n' → Advances n n' := by
    intro msg process hprocess hr
    unfold recv at hr
    split_ifs at hr
    · rw [← Option.some_inj.mp hr]
    · obtain ⟨n₁, hn₁, rfl⟩ := Option.map_eq_some_iff.mp hr
      exact (hprocess n₁ hn₁).trans (routingTableComputation_advances _)
  cases o with
  | hello msg hello receiverIface senderIface =>
    rw [step] at h
    exact hrecv (fun _ ↦ processHello_advances) h
  | tc msg tc senderIface =>
    rw [step] at h
    refine hrecv (fun n₁ hn₁ ↦ ?_) h
    rw [← Option.some_inj.mp hn₁]
    exact n.processTc_advances msg tc senderIface
  | mid msg addrs senderIface =>
    rw [step] at h
    refine hrecv (fun n₁ hn₁ ↦ ?_) h
    rw [← Option.some_inj.mp hn₁]
    exact n.processMid_advances msg addrs senderIface
  | expire e =>
    rw [step] at h
    split_ifs at h
    rw [← Option.some_inj.mp h]
    have hloses : ¬ Flow.LosesSelector { n with m_events := n.m_events.erase e } e.timer := fun hl ↦
      ho e rfl (losesSelector_events.mp hl)
    have herase : Advances n { n with m_events := n.m_events.erase e } := .of_eq rfl rfl rfl rfl
    exact herase.trans (expire_advances hloses)
  | wait d =>
    rw [step] at h
    split_ifs at h
    rw [← Option.some_inj.mp h]
    exact .of_eq rfl rfl rfl rfl

/-! ## The receiver -/

/-- The topology set. -/
abbrev topology (n : Node) : List TopologyTuple := n.m_state.m_topologySet

theorem foldl_topology {α : Type*} {f : Node → α → Node} (h : ∀ n x, (f n x).topology = n.topology)
    (l : List α) (n : Node) : (l.foldl f n).topology = n.topology := by
  induction l generalizing n with
  | nil => rfl
  | cons x l ih => exact (ih (f n x)).trans (h n x)

theorem linkTupleAdded_topology (n : Node) (l : LinkTuple) (w : ℕ) :
    (n.linkTupleAdded l w).topology = n.topology :=
  (insertNeighborTuple_onlyNeighbors n.m_state _).m_topologySet

theorem linkTupleUpdated_topology (n : Node) (l : LinkTuple) (w : ℕ) :
    (n.linkTupleUpdated l w).topology = n.topology :=
  (n.linkTupleUpdated_onlyNeighbors l w).m_topologySet

theorem linkSensing_topology {n n' : Node} {msg : MessageHeader} {hello : Hello}
    {receiverIface senderIface : Ipv4Address}
    (h : n.linkSensing msg hello receiverIface senderIface = some n') : n'.topology = n.topology := by
  unfold linkSensing at h
  split_ifs at h
  dsimp only at h
  rw [Option.map_eq_some_iff] at h
  obtain ⟨⟨l, updated⟩, -, rfl⟩ := h
  dsimp only
  have hput : ∀ created l', (n.putLinkTuple created l').topology = n.topology := fun created l' ↦ by
    unfold putLinkTuple
    split_ifs <;> rfl
  split_ifs
  · exact (linkTupleAdded_topology _ _ _).trans ((linkTupleUpdated_topology _ _ _).trans (hput _ _))
  · exact (linkTupleAdded_topology _ _ _).trans (hput _ _)
  · exact (linkTupleUpdated_topology _ _ _).trans (hput _ _)
  · exact hput _ _

theorem populateTwoHopNeighborSet_topology (n : Node) (msg : MessageHeader) (hello : Hello) :
    (n.populateTwoHopNeighborSet msg hello).topology = n.topology := by
  refine foldl_topology (fun n l ↦ ?_) _ n
  split_ifs
  · rfl
  · refine foldl_topology (fun n m ↦ foldl_topology (fun n a ↦ ?_) _ n) _ n
    unfold populateTwoHopNeighbor
    dsimp only
    split_ifs
    · rfl
    · split <;> rfl
    · rfl
    · rfl

theorem populateMprSelectorSet_topology (n : Node) (msg : MessageHeader) (hello : Hello) :
    (n.populateMprSelectorSet msg hello).topology = n.topology := by
  refine foldl_topology (fun n m ↦ ?_) _ n
  split_ifs
  · refine foldl_topology (fun n a ↦ ?_) _ n
    unfold populateMprSelector
    split_ifs
    · split <;> rfl
    · rfl
  · rfl

theorem processHello_topology {n n' : Node} {msg : MessageHeader} {hello : Hello}
    {receiverIface senderIface : Ipv4Address}
    (h : n.processHello msg hello receiverIface senderIface = some n') : n'.topology = n.topology := by
  unfold processHello at h
  rw [Option.map_eq_some_iff] at h
  obtain ⟨n₁, hsensing, rfl⟩ := h
  rw [populateMprSelectorSet_topology]
  have hpopulate : (n₁.populateNeighborSet msg hello).topology = n₁.topology := rfl
  exact ((populateTwoHopNeighborSet_topology _ _ _).trans hpopulate).trans
    (linkSensing_topology hsensing)

theorem processMid_topology (n : Node) (msg : MessageHeader) (addrs : List Ipv4Address)
    (senderIface : Ipv4Address) : (n.processMid msg addrs senderIface).topology = n.topology := by
  unfold processMid
  split_ifs
  · rfl
  · refine Eq.trans rfl (foldl_topology (fun n a ↦ ?_) addrs n)
    unfold processMidAddress
    split_ifs <;> rfl

/-- Two tuples that differ in their expiration times only. -/
def SameTuple (t u : TopologyTuple) : Prop :=
  u.destAddr = t.destAddr ∧ u.lastAddr = t.lastAddr ∧ u.sequenceNumber = t.sequenceNumber

/-- The tuples of a list are those of another one, up to the expiration times. -/
def FromTuples (l l' : List TopologyTuple) : Prop := ∀ t ∈ l', ∃ u ∈ l, SameTuple t u

theorem FromTuples.refl (l : List TopologyTuple) : FromTuples l l :=
  fun t ht ↦ ⟨t, ht, rfl, rfl, rfl⟩

theorem fromTuples_updateFirst {p : TopologyTuple → Prop} [DecidablePred p] {time : ℤ}
    (l : List TopologyTuple) :
    FromTuples l (updateFirst p (fun t ↦ { t with expirationTime := time }) l) := by
  induction l with
  | nil => exact .refl []
  | cons x l ih =>
    rw [updateFirst]
    split_ifs
    · intro t ht
      rcases List.mem_cons.mp ht with rfl | ht
      · exact ⟨x, List.mem_cons_self, rfl, rfl, rfl⟩
      · exact ⟨t, List.mem_cons_of_mem x ht, rfl, rfl, rfl⟩
    · intro t ht
      rcases List.mem_cons.mp ht with rfl | ht
      · exact ⟨t, List.mem_cons_self, rfl, rfl, rfl⟩
      · obtain ⟨u, hu, hsame⟩ := ih t ht
        exact ⟨u, List.mem_cons_of_mem x hu, hsame⟩

theorem exists_mem_updateFirst {p : TopologyTuple → Prop} [DecidablePred p]
    {l : List TopologyTuple} {t : TopologyTuple} (ht : t ∈ l) (time : ℤ) :
    ∃ u ∈ updateFirst p (fun t ↦ { t with expirationTime := time }) l, SameTuple t u := by
  induction l with
  | nil => cases ht
  | cons x l ih =>
    rw [updateFirst]
    split_ifs
    · rcases List.mem_cons.mp ht with rfl | ht
      · exact ⟨_, List.mem_cons_self, rfl, rfl, rfl⟩
      · exact ⟨t, List.mem_cons_of_mem _ ht, rfl, rfl, rfl⟩
    · rcases List.mem_cons.mp ht with rfl | ht
      · exact ⟨t, List.mem_cons_self, rfl, rfl, rfl⟩
      · obtain ⟨u, hu, hsame⟩ := ih ht
        exact ⟨u, List.mem_cons_of_mem x hu, hsame⟩

theorem processTcAddress_spec (n : Node) (msg : MessageHeader) (ansn : ℕ) (addr : Ipv4Address) :
    (∀ t ∈ (n.processTcAddress msg ansn addr).topology, (∃ u ∈ n.topology, SameTuple t u) ∨
      (t.destAddr = addr ∧ t.lastAddr = msg.originatorAddress ∧ t.sequenceNumber = ansn)) ∧
    (∀ t ∈ n.topology, ∃ u ∈ (n.processTcAddress msg ansn addr).topology, SameTuple t u) ∧
    ∃ t ∈ (n.processTcAddress msg ansn addr).topology,
      t.destAddr = addr ∧ t.lastAddr = msg.originatorAddress := by
  unfold processTcAddress
  split
  · rename_i tuple hfind
    refine ⟨fun t ht ↦ Or.inl (fromTuples_updateFirst _ t ht), fun t ht ↦ exists_mem_updateFirst ht _, ?_⟩
    obtain ⟨hdest, hlast⟩ : tuple.destAddr = addr ∧ tuple.lastAddr = msg.originatorAddress := by
      simpa using List.find?_some hfind
    have hmem : tuple ∈ n.topology := List.mem_of_find?_eq_some hfind
    obtain ⟨u, hu, hud, hul, -⟩ := exists_mem_updateFirst
      (p := fun t ↦ t.destAddr = addr ∧ t.lastAddr = msg.originatorAddress) hmem (n.now + msg.vTime)
    exact ⟨u, hu, hud.trans hdest, hul.trans hlast⟩
  · refine ⟨fun t ht ↦ ?_, fun t ht ↦ ⟨t, List.mem_append_left _ ht, rfl, rfl, rfl⟩, ?_⟩
    · rcases List.mem_append.mp ht with ht | ht
      · exact Or.inl ⟨t, ht, rfl, rfl, rfl⟩
      · rw [List.mem_singleton] at ht
        exact Or.inr ⟨by rw [ht], by rw [ht], by rw [ht]⟩
    · exact ⟨_, List.mem_append_right _ List.mem_cons_self, rfl, rfl⟩

theorem foldl_processTcAddress (msg : MessageHeader) (ansn : ℕ) (addrs : List Ipv4Address) (n : Node) :
    let n' := addrs.foldl (fun n a ↦ n.processTcAddress msg ansn a) n
    (∀ t ∈ n'.topology, (∃ u ∈ n.topology, SameTuple t u) ∨
      (t.destAddr ∈ addrs ∧ t.lastAddr = msg.originatorAddress ∧ t.sequenceNumber = ansn)) ∧
    (∀ t ∈ n.topology, ∃ u ∈ n'.topology, SameTuple t u) ∧
    ∀ a ∈ addrs, ∃ t ∈ n'.topology, t.destAddr = a ∧ t.lastAddr = msg.originatorAddress := by
  induction addrs generalizing n with
  | nil =>
    exact ⟨fun t ht ↦ Or.inl ⟨t, ht, rfl, rfl, rfl⟩, fun t ht ↦ ⟨t, ht, rfl, rfl, rfl⟩,
      fun a ha ↦ absurd ha List.not_mem_nil⟩
  | cons a addrs ih =>
    obtain ⟨hfrom, hkept, t₀, ht₀, hd₀, hl₀⟩ := n.processTcAddress_spec msg ansn a
    obtain ⟨hfrom', hkept', hlisted⟩ := ih (n.processTcAddress msg ansn a)
    refine ⟨fun t ht ↦ ?_, fun t ht ↦ ?_, fun b hb ↦ ?_⟩
    · rcases hfrom' t ht with ⟨u, hu, hud, hul, hus⟩ | ⟨hd, hl, hs⟩
      · rcases hfrom u hu with ⟨v, hv, hvd, hvl, hvs⟩ | ⟨hd, hl, hs⟩
        · exact Or.inl ⟨v, hv, hvd.trans hud, hvl.trans hul, hvs.trans hus⟩
        · exact Or.inr ⟨hud ▸ hd ▸ List.mem_cons_self, hul ▸ hl, hus ▸ hs⟩
      · exact Or.inr ⟨List.mem_cons_of_mem a hd, hl, hs⟩
    · obtain ⟨u, hu, hud, hul, hus⟩ := hkept t ht
      obtain ⟨v, hv, hvd, hvl, hvs⟩ := hkept' u hu
      exact ⟨v, hv, hvd.trans hud, hvl.trans hul, hvs.trans hus⟩
    · rcases List.mem_cons.mp hb with rfl | hb
      · obtain ⟨v, hv, hvd, hvl, -⟩ := hkept' t₀ ht₀
        exact ⟨v, hv, hvd.trans hd₀, hvl.trans hl₀⟩
      · exact hlisted b hb

theorem processTc_other {n : Node} {msg : MessageHeader} {tc : Tc} {senderIface a : Ipv4Address}
    (ha : msg.originatorAddress ≠ a) : ∀ t ∈ (n.processTc msg tc senderIface).topology,
      t.lastAddr = a → ∃ u ∈ n.topology, SameTuple t u := by
  intro t ht hta
  unfold processTc at ht
  split_ifs at ht
  · exact ⟨t, ht, rfl, rfl, rfl⟩
  · exact ⟨t, ht, rfl, rfl, rfl⟩
  · obtain ⟨hfrom, -, -⟩ := foldl_processTcAddress msg tc.ansn tc.neighborAddresses
      (n.modifyState fun s ↦ s.eraseOlderTopologyTuples msg.originatorAddress tc.ansn)
    rcases hfrom t ht with ⟨u, hu, hsame⟩ | ⟨-, hl, -⟩
    · exact ⟨u, (List.mem_filter.mp hu).1, hsame⟩
    · exact absurd (hl.symm.trans hta) ha

/-- **A TC leaves what it lists**, if no tuple of its originator has a greater number and those with the same
number are listed. -/
theorem processTc_listed {n : Node} (msg : MessageHeader) {tc : Tc} {senderIface : Ipv4Address}
    (hsym : (n.m_state.findSymLinkTuple senderIface n.now).isSome)
    (hnewer : (n.m_state.findNewerTopologyTuple msg.originatorAddress tc.ansn).isNone)
    (hold : ∀ t ∈ n.topology, t.lastAddr = msg.originatorAddress → t.sequenceNumber = tc.ansn →
      t.destAddr ∈ tc.neighborAddresses) :
    (∀ t ∈ (n.processTc msg tc senderIface).topology, t.lastAddr = msg.originatorAddress →
      t.sequenceNumber = tc.ansn ∧ t.destAddr ∈ tc.neighborAddresses) ∧
    ∀ d, (∃ t ∈ (n.processTc msg tc senderIface).topology,
      t.lastAddr = msg.originatorAddress ∧ t.destAddr = d) ↔ d ∈ tc.neighborAddresses := by
  have hle : ∀ t ∈ n.topology, t.lastAddr = msg.originatorAddress → t.sequenceNumber ≤ tc.ansn := by
    intro t ht hta
    rw [OlsrState.findNewerTopologyTuple, Option.isNone_iff_eq_none, List.find?_eq_none] at hnewer
    have hno := hnewer t ht
    rw [decide_eq_true_eq] at hno
    exact not_lt.mp fun hlt ↦ hno ⟨hta, hlt⟩
  have hprocess : n.processTc msg tc senderIface =
      tc.neighborAddresses.foldl (fun n a ↦ n.processTcAddress msg tc.ansn a)
        (n.modifyState fun s ↦ s.eraseOlderTopologyTuples msg.originatorAddress tc.ansn) := by
    have hsymNot : ¬ (n.m_state.findSymLinkTuple senderIface n.now).isNone := by
      rw [Option.isNone_iff_eq_none]
      exact Option.isSome_iff_ne_none.mp hsym
    have hnewerNot : ¬ (n.m_state.findNewerTopologyTuple msg.originatorAddress tc.ansn).isSome := by
      rw [Option.not_isSome_iff_eq_none]
      exact Option.isNone_iff_eq_none.mp hnewer
    rw [processTc, if_neg hsymNot, if_neg hnewerNot]
  rw [hprocess]
  obtain ⟨hfrom, -, hlisted⟩ := foldl_processTcAddress msg tc.ansn tc.neighborAddresses
    (n.modifyState fun s ↦ s.eraseOlderTopologyTuples msg.originatorAddress tc.ansn)
  have hall : ∀ t ∈ (tc.neighborAddresses.foldl (fun n a ↦ n.processTcAddress msg tc.ansn a)
      (n.modifyState fun s ↦ s.eraseOlderTopologyTuples msg.originatorAddress tc.ansn)).topology,
      t.lastAddr = msg.originatorAddress →
        t.sequenceNumber = tc.ansn ∧ t.destAddr ∈ tc.neighborAddresses := by
    intro t ht hta
    rcases hfrom t ht with ⟨u, hu, hud, hul, hus⟩ | ⟨hd, -, hs⟩
    · obtain ⟨hmem, hkept⟩ := List.mem_filter.mp hu
      rw [decide_eq_true_eq, not_and, not_lt] at hkept
      have hua := hul.trans hta
      have hseq : u.sequenceNumber = tc.ansn := le_antisymm (hle u hmem hua) (hkept hua)
      exact ⟨hus ▸ hseq, hud ▸ hold u hmem hua hseq⟩
    · exact ⟨hs, hd⟩
  refine ⟨hall, fun d ↦ ⟨?_, fun hd ↦ ?_⟩⟩
  · rintro ⟨t, ht, hta, rfl⟩
    exact (hall t ht hta).2
  · obtain ⟨t, ht, htd, hta⟩ := hlisted d hd
    exact ⟨t, ht, hta, htd⟩

theorem expire_topology {n : Node} {timer : Timer} {t : TopologyTuple}
    (ht : t ∈ (n.expire timer).topology) : t ∈ n.topology := by
  cases timer with
  | linkTupleTimerExpire a =>
    have hloss : ∀ l, (n.neighborLoss l).topology = n.topology := fun l ↦
      n.linkTupleUpdated_topology l willDefault
    change t ∈ (n.linkTupleTimerExpire a).topology at ht
    unfold linkTupleTimerExpire at ht
    split at ht
    · exact ht
    · split_ifs at ht
      · exact ht
      · exact ht
      · exact hloss _ ▸ ht
      · exact ht
  | nb2hopTupleTimerExpire a b =>
    change t ∈ (n.nb2hopTupleTimerExpire a b).topology at ht
    unfold nb2hopTupleTimerExpire at ht
    split at ht
    · exact ht
    · split_ifs at ht
      · exact ht
      · exact ht
  | mprSelTupleTimerExpire a =>
    change t ∈ (n.mprSelTupleTimerExpire a).topology at ht
    unfold mprSelTupleTimerExpire at ht
    split at ht
    · exact ht
    · split_ifs at ht
      · exact ht
      · exact ht
  | topologyTupleTimerExpire a b =>
    change t ∈ (n.topologyTupleTimerExpire a b).topology at ht
    unfold topologyTupleTimerExpire at ht
    split at ht
    · exact ht
    · split_ifs at ht
      · exact List.mem_of_mem_eraseP ht
      · exact ht
  | ifaceAssocTupleTimerExpire a =>
    change t ∈ (n.ifaceAssocTupleTimerExpire a).topology at ht
    unfold ifaceAssocTupleTimerExpire at ht
    split at ht
    · exact ht
    · split_ifs at ht
      · exact ht
      · exact ht

/-- A step of the receiver that is not a TC of a node keeps or drops the tuples of that node. -/
theorem step_topology {n n' : Node} {o : Op} {a : Ipv4Address} (h : n.step o = some n')
    (ho : ∀ msg tc iface, o = .tc msg tc iface → msg.originatorAddress ≠ a) :
    ∀ t ∈ n'.topology, t.lastAddr = a → ∃ u ∈ n.topology, SameTuple t u := by
  have hsame : n'.topology = n.topology →
      ∀ t ∈ n'.topology, t.lastAddr = a → ∃ u ∈ n.topology, SameTuple t u :=
    fun heq t ht _ ↦ ⟨t, heq ▸ ht, rfl, rfl, rfl⟩
  have hrecv : ∀ {msg : MessageHeader} {process : Node → Option Node},
      (∀ n', process n = some n' →
        ∀ t ∈ n'.topology, t.lastAddr = a → ∃ u ∈ n.topology, SameTuple t u) →
      n.recv msg process = some n' →
        ∀ t ∈ n'.topology, t.lastAddr = a → ∃ u ∈ n.topology, SameTuple t u := by
    intro msg process hprocess hr
    unfold recv at hr
    split_ifs at hr
    · rw [← Option.some_inj.mp hr]
      exact fun t ht _ ↦ ⟨t, ht, rfl, rfl, rfl⟩
    · obtain ⟨n₁, hn₁, rfl⟩ := Option.map_eq_some_iff.mp hr
      exact hprocess n₁ hn₁
  cases o with
  | hello msg hello receiverIface senderIface =>
    rw [step] at h
    refine hrecv (fun n₁ hn₁ t ht _ ↦ ⟨t, ?_, rfl, rfl, rfl⟩) h
    exact processHello_topology hn₁ ▸ ht
  | tc msg tc senderIface =>
    rw [step] at h
    refine hrecv (fun n₁ hn₁ ↦ ?_) h
    rw [← Option.some_inj.mp hn₁]
    exact processTc_other (ho msg tc senderIface rfl)
  | mid msg addrs senderIface =>
    rw [step] at h
    refine hrecv (fun n₁ hn₁ t ht _ ↦ ⟨t, ?_, rfl, rfl, rfl⟩) h
    rw [← Option.some_inj.mp hn₁] at ht
    exact n.processMid_topology msg addrs senderIface ▸ ht
  | expire e =>
    rw [step] at h
    split_ifs at h
    obtain rfl := Option.some_inj.mp h
    intro t ht _
    have herase : ({ n with m_events := n.m_events.erase e } : Node).topology = n.topology := rfl
    exact ⟨t, herase ▸ expire_topology ht, rfl, rfl, rfl⟩
  | wait d =>
    rw [step] at h
    split_ifs at h
    obtain rfl := Option.some_inj.mp h
    exact hsame rfl

end Node

/-! ## Both through a run -/

namespace Flow

/-- The numbers of what was sent, and the tuples of the last TC that was processed. -/
structure Consistent (s : Flow) : Prop where
  ansn : s.originator.m_ansn = ansnOf s.originator.ansnIncrements
  sentAnsn : ∀ e ∈ s.sent, e.tc.ansn = ansnOf e.ansnIncrements ∧
    e.ansnIncrements ≤ s.originator.ansnIncrements ∧
    (e.ansnIncrements = s.originator.ansnIncrements →
      e.tc.neighborAddresses = s.originator.sendTc.neighborAddresses)
  sorted : s.sent.Pairwise fun e e' ↦ e.ansnIncrements ≤ e'.ansnIncrements ∧
    (e.ansnIncrements = e'.ansnIncrements → e.tc.neighborAddresses = e'.tc.neighborAddresses)
  none : s.last = .none → ∀ t ∈ s.receiver.topology, t.lastAddr ≠ s.originator.m_mainAddress
  last : ∀ e ∈ s.last, (∃ j < s.past, s.sent[j]? = some e) ∧
    ∀ t ∈ s.receiver.topology, t.lastAddr = s.originator.m_mainAddress →
      t.sequenceNumber = e.tc.ansn ∧ t.destAddr ∈ e.tc.neighborAddresses

variable {s s' : Flow} {o : Op}

theorem create_consistent {originator receiver : Node}
    (hansn : originator.m_ansn = ansnOf originator.ansnIncrements) (hempty : receiver.topology = []) :
    (create originator receiver).Consistent where
  ansn := hansn
  sentAnsn e he := absurd he List.not_mem_nil
  sorted := List.Pairwise.nil
  none _ t ht := by
    rw [show (create originator receiver).receiver.topology = [] from hempty] at ht
    exact absurd ht List.not_mem_nil
  last e he := by cases he

theorem Consistent.originator (h : s.Consistent) {n : Node} (hn : s.originator.Advances n) :
    Consistent { s with originator := n } where
  ansn := hn.ansn h.ansn
  sentAnsn e he := by
    obtain ⟨hansn, hle, hsame⟩ := h.sentAnsn e he
    have hle' := hn.le
    refine ⟨hansn, hle.trans hle', fun heq ↦ ?_⟩
    change e.ansnIncrements = n.ansnIncrements at heq
    exact (hsame (by omega)).trans (hn.same (by omega)).symm
  sorted := h.sorted
  none hnone t ht := by
    rw [show ({ s with originator := n } : Flow).originator.m_mainAddress = s.originator.m_mainAddress
      from hn.mainAddress]
    exact h.none hnone t ht
  last e he := by
    rw [show ({ s with originator := n } : Flow).originator.m_mainAddress = s.originator.m_mainAddress
      from hn.mainAddress]
    exact h.last e he

theorem Consistent.receiver (h : s.Consistent) {n : Node}
    (hn : ∀ t ∈ n.topology, t.lastAddr = s.originator.m_mainAddress →
      ∃ u ∈ s.receiver.topology, Node.SameTuple t u) : Consistent { s with receiver := n } where
  ansn := h.ansn
  sentAnsn := h.sentAnsn
  sorted := h.sorted
  none hnone t ht hta := by
    obtain ⟨u, hu, -, hul, -⟩ := hn t ht hta
    exact h.none hnone u hu (hul.trans hta)
  last e he := by
    refine ⟨(h.last e he).1, fun t ht hta ↦ ?_⟩
    obtain ⟨u, hu, hud, hul, hus⟩ := hn t ht hta
    obtain ⟨hseq, hmem⟩ := (h.last e he).2 u hu (hul.trans hta)
    exact ⟨hus ▸ hseq, hud ▸ hmem⟩

theorem Consistent.tcTimerExpire (h : s.Consistent) :
    Consistent { s with
      sent := s.sent ++ [⟨s.originator.sendTc, s.originator.ansnIncrements⟩] } where
  ansn := h.ansn
  sentAnsn e he := by
    rcases List.mem_append.mp he with he | he
    · exact h.sentAnsn e he
    · rw [List.mem_singleton] at he
      rw [he]
      exact ⟨h.ansn, le_refl _, fun _ ↦ rfl⟩
  sorted := by
    refine List.pairwise_append.mpr ⟨h.sorted, List.pairwise_singleton _ _, fun e he e' he' ↦ ?_⟩
    rw [List.mem_singleton] at he'
    subst he'
    exact (h.sentAnsn e he).2
  none := h.none
  last e he := by
    obtain ⟨⟨j, hj, hsent⟩, htuples⟩ := h.last e he
    exact ⟨⟨j, hj, List.getElem?_append_left (List.getElem?_eq_some_iff.mp hsent).1 ▸ hsent⟩, htuples⟩

theorem Consistent.sent_of_lt (h : s.Consistent) {j k : ℕ} {e e' : Sent} (hj : s.sent[j]? = some e)
    (hk : s.sent[k]? = some e') (hjk : j < k) : e.ansnIncrements ≤ e'.ansnIncrements ∧
      (e.ansnIncrements = e'.ansnIncrements → e.tc.neighborAddresses = e'.tc.neighborAddresses) := by
  obtain ⟨hjlt, rfl⟩ := List.getElem?_eq_some_iff.mp hj
  obtain ⟨hklt, rfl⟩ := List.getElem?_eq_some_iff.mp hk
  exact List.pairwise_iff_getElem.mp h.sorted j k hjlt hklt hjk

theorem eq_of_ansnOf_eq {i j : ℕ} (hle : i ≤ j) (hlt : j < i + 32768) (h : ansnOf i = ansnOf j) :
    i = j := by
  unfold ansnOf at h
  omega

/-- **A TC is processed**, and leaves what it lists. -/
theorem Consistent.deliver (h : s.Consistent) {k : ℕ} {e : Sent} {vTime : ℤ}
    {senderIface : Ipv4Address} {n : Node} (he : s.sent[k]? = some e)
    (hd : s.Deliverable k e senderIface)
    (hnewer : (s.receiver.m_state.findNewerTopologyTuple s.originator.m_mainAddress
      e.tc.ansn).isNone)
    (hn : s.receiver.step (.tc ⟨s.originator.m_mainAddress, vTime⟩ e.tc senderIface) = some n) :
    Consistent { s with receiver := n, past := k + 1, last := some e } ∧
      ∀ d, (∃ t ∈ n.topology, t.lastAddr = s.originator.m_mainAddress ∧ t.destAddr = d) ↔
        d ∈ e.tc.neighborAddresses := by
  obtain ⟨hpast, hsym, hmain, hincrements⟩ := hd
  rw [Node.step, Node.recv, if_neg (Ne.symm hmain), Option.map_some, Option.some_inj] at hn
  have hold : ∀ t ∈ s.receiver.topology, t.lastAddr = s.originator.m_mainAddress →
      t.sequenceNumber = e.tc.ansn → t.destAddr ∈ e.tc.neighborAddresses := by
    intro t ht hta hseq
    cases hlast : s.last with
    | none => exact absurd hta (h.none hlast t ht)
    | some l =>
      obtain ⟨⟨j, hj, hl⟩, htuples⟩ := h.last l hlast
      obtain ⟨hlseq, hmem⟩ := htuples t ht hta
      obtain ⟨hle, hsame⟩ := h.sent_of_lt hl he (by omega)
      have hansn := (h.sentAnsn l (List.mem_of_getElem? hl)).1
      have hansn' := (h.sentAnsn e (List.mem_of_getElem? he)).1
      have heq := eq_of_ansnOf_eq hle (hincrements l hlast)
        (by rw [← hansn, ← hansn', ← hlseq, hseq])
      exact hsame heq ▸ hmem
  obtain ⟨hall, hlisted⟩ := Node.processTc_listed ⟨s.originator.m_mainAddress, vTime⟩ hsym hnewer hold
  subst hn
  refine ⟨⟨h.ansn, h.sentAnsn, h.sorted, fun hnone ↦ ?_, fun e' he' ↦ ?_⟩, hlisted⟩
  · cases hnone
  obtain rfl := Option.some_inj.mp (Option.mem_def.mp he')
  exact ⟨⟨k, Nat.lt_succ_self k, he⟩, hall⟩

theorem step_consistent (h : s.Consistent) (ho : s.Ordered o) (hs : s.step o = some s') :
    s'.Consistent := by
  cases o with
  | originator o =>
    rw [step] at hs
    split_ifs at hs
    obtain ⟨n, hn, rfl⟩ := Option.map_eq_some_iff.mp hs
    exact h.originator (Node.step_advances hn fun e he ↦ by subst he; exact ho)
  | receiver o =>
    rw [step] at hs
    split_ifs at hs with hno
    obtain ⟨n, hn, rfl⟩ := Option.map_eq_some_iff.mp hs
    refine h.receiver (Node.step_topology hn ?_)
    rintro msg tc iface rfl hfrom
    exact hno (Or.inr hfrom)
  | tcTimerExpire =>
    rw [step] at hs
    split_ifs at hs
    · rw [← Option.some_inj.mp hs]
      exact h
    · rw [← Option.some_inj.mp hs]
      exact h.tcTimerExpire
  | deliver k vTime senderIface =>
    rw [step] at hs
    split at hs
    · cases hs
    · rename_i e he
      split_ifs at hs with hd
      obtain ⟨n, hn, rfl⟩ := Option.map_eq_some_iff.mp hs
      exact (h.deliver he hd (ho e he) hn).1
  | wait d =>
    rw [step] at hs
    obtain ⟨n, hn, hs⟩ := Option.bind_eq_some_iff.mp hs
    obtain ⟨n', hn', rfl⟩ := Option.map_eq_some_iff.mp hs
    refine (h.originator (Node.step_advances hn fun e he ↦ by cases he)).receiver ?_
    intro t ht hta
    have htopology := Node.step_topology (a := t.lastAddr) hn' fun msg tc iface heq ↦ by cases heq
    exact htopology t ht rfl

/-- **Topology information is superseded by newer TCs.** After a TC is processed the tuples with its
originator as last address have as destinations the addresses that it lists. -/
theorem listed_of_run {originator receiver : Node} {ops : List Op} {k : ℕ} {vTime : ℤ}
    {senderIface : Ipv4Address} (hansn : originator.m_ansn = ansnOf originator.ansnIncrements)
    (hempty : receiver.topology = []) (hr : (machine originator receiver).Run Ordered ops s)
    (ho : s.Ordered (.deliver k vTime senderIface))
    (hs : s.step (.deliver k vTime senderIface) = some s') :
    ∃ e, s.sent[k]? = some e ∧ ∀ d, (∃ t ∈ s'.receiver.topology,
      t.lastAddr = s.originator.m_mainAddress ∧ t.destAddr = d) ↔ d ∈ e.tc.neighborAddresses := by
  have hconsistent : s.Consistent :=
    hr.invariant (I := Consistent) (create_consistent hansn hempty)
      fun _ _ _ h hok hs ↦ step_consistent h hok hs
  rw [step] at hs
  split at hs
  · cases hs
  · rename_i e he
    split_ifs at hs with hd
    obtain ⟨n, hn, rfl⟩ := Option.map_eq_some_iff.mp hs
    exact ⟨e, he, (hconsistent.deliver he hd (ho e he) hn).2⟩

/-- An originator that three nodes have sent a HELLO to, two of which selected it, and a receiver. -/
def selected : List Op :=
  [.originator (.hello ⟨4, 100000000000⟩ ⟨3, []⟩ 1 4), .wait 1000,
    .originator (.expire ⟨1000, .linkTupleTimerExpire 4⟩),
    .originator (.hello ⟨2, 2000000000⟩ ⟨3, [⟨10, [1]⟩]⟩ 1 2),
    .originator (.hello ⟨3, 100000000000⟩ ⟨3, [⟨10, [1]⟩]⟩ 1 3),
    .receiver (.hello ⟨1, 100000000000⟩ ⟨3, [⟨6, [9]⟩]⟩ 9 1), .tcTimerExpire,
    .deliver 0 15000000000 1, .wait 2000001000]

/-- An MPR selector expires before its link does, and the next TC is processed. -/
theorem listed_of_run_two :
    ∃ s s' : Flow, s.step (.deliver 1 15000000000 1) = some s' ∧
      s.sent.map (fun e ↦ e.tc.neighborAddresses) = [[2, 3], [3]] ∧
      ∃ e, s.sent[1]? = some e ∧ ∀ d, (∃ t ∈ s'.receiver.topology,
        t.lastAddr = s.originator.m_mainAddress ∧ t.destAddr = d) ↔ d ∈ e.tc.neighborAddresses := by
  have hrun : ∃ s, (machine (.create 1 [[1]] 2000000000) (.create 9 [[9]] 2000000000)).Run Ordered
      (selected ++ [.originator (.expire ⟨2000002000, .mprSelTupleTimerExpire 2⟩),
        .originator (.expire ⟨2000002000, .linkTupleTimerExpire 2⟩), .tcTimerExpire]) s ∧
      (s.Ordered (.deliver 1 15000000000 1) ∧ (s.step (.deliver 1 15000000000 1)).isSome ∧
        s.sent.map (fun e ↦ e.tc.neighborAddresses) = [[2, 3], [3]]) :=
    Machine.exists_run_of_exec_allowed (p := fun s : Flow ↦
      s.Ordered (.deliver 1 15000000000 1) ∧ (s.step (.deliver 1 15000000000 1)).isSome ∧
        s.sent.map (fun e ↦ e.tc.neighborAddresses) = [[2, 3], [3]])
      (by decide +kernel) (by decide +kernel)
  obtain ⟨s, hr, ho, hsome, hsent⟩ := hrun
  obtain ⟨s', hs⟩ := Option.isSome_iff_exists.mp hsome
  exact ⟨s, s', hs, hsent, listed_of_run rfl rfl hr ho hs⟩

/-- The link is noticed to be lost first: the MPR selector is erased, the next TC has the same number, and
the receiver keeps the tuple that it does not list. -/
theorem not_listed :
    ∃ s, (machine (.create 1 [[1]] 2000000000) (.create 9 [[9]] 2000000000)).Run Machine.unguarded
      (selected ++ [.originator (.expire ⟨2000002000, .linkTupleTimerExpire 2⟩), .tcTimerExpire,
        .deliver 1 15000000000 1]) s ∧
      s.last = some ⟨⟨[3], 6⟩, 7⟩ ∧ s.receiver.topology.map TopologyTuple.destAddr = [2, 3] ∧
      s.receiver.topology.map TopologyTuple.lastAddr = [1, 1] :=
  Machine.exists_run_of_exec (p := fun s : Flow ↦ s.last = some ⟨⟨[3], 6⟩, 7⟩ ∧
    s.receiver.topology.map TopologyTuple.destAddr = [2, 3] ∧
    s.receiver.topology.map TopologyTuple.lastAddr = [1, 1]) (by decide +kernel)

end Flow

end Olsr

end Ns3
