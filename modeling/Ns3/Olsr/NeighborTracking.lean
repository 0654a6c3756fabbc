import Ns3.Olsr.Node

/-!
# The neighbor set tracks the link set

A neighbor has the main address of one or more links, and is symmetric as long as one of them is. Neighbor
tuples are made, updated and erased where a single link is looked at, so that the two sets agree only where
that link says enough of the neighbor: `Regular` is what this takes of every message and event.

Between a symmetric time and the event behind it the neighbor set is behind the link set. The invariant
(`Tracking`) therefore lets a neighbor count as held by a link whose event is due.
-/

namespace Ns3

namespace Olsr

namespace OlsrState

variable {s s' : OlsrState} {a : Ipv4Address}

/-! ## The status of a neighbor -/

/-- The status of the neighbor with a main address. -/
def status (s : OlsrState) (a : Ipv4Address) : Option Status :=
  (s.findNeighborTuple a).map NeighborTuple.status

/-- No two neighbor tuples have one main address. -/
def UniqueNeighbors (s : OlsrState) : Prop :=
  (s.m_neighborSet.map NeighborTuple.neighborMainAddr).Nodup

theorem UniqueNeighbors.of_map (h : s.UniqueNeighbors)
    (hm : s'.m_neighborSet.map NeighborTuple.neighborMainAddr =
      s.m_neighborSet.map NeighborTuple.neighborMainAddr) : s'.UniqueNeighbors := by
  rw [UniqueNeighbors, hm]
  exact h

theorem status_congr (h : s'.m_neighborSet = s.m_neighborSet) : s'.status a = s.status a := by
  rw [status, status, findNeighborTuple, findNeighborTuple, h]

theorem find?_eq_some_of_nodup {α β : Type*} [DecidableEq β] {key : α → β} {l : List α} {x : α}
    (h : (l.map key).Nodup) (hx : x ∈ l) : l.find? (fun y ↦ key y = key x) = some x := by
  induction l with
  | nil => cases hx
  | cons y l ih =>
    rw [List.map_cons, List.nodup_cons] at h
    rw [List.find?_cons]
    rcases List.mem_cons.mp hx with rfl | hx
    · simp
    · have hne : key y ≠ key x := fun he ↦ h.1 (he ▸ List.mem_map_of_mem hx)
      simp only [hne, decide_false]
      exact ih h.2 hx

theorem status_eq_some (h : s.UniqueNeighbors) {st : Status} :
    s.status a = some st ↔ ∃ nb ∈ s.m_neighborSet, nb.neighborMainAddr = a ∧ nb.status = st := by
  rw [status, Option.map_eq_some_iff]
  constructor
  · rintro ⟨nb, hfind, hst⟩
    exact ⟨nb, List.mem_of_find?_eq_some hfind, by simpa using List.find?_some hfind, hst⟩
  · rintro ⟨nb, hmem, rfl, hst⟩
    exact ⟨nb, find?_eq_some_of_nodup h hmem, hst⟩

theorem status_isSome : (s.status a).isSome ↔ ∃ nb ∈ s.m_neighborSet, nb.neighborMainAddr = a := by
  simp [status, findNeighborTuple, List.find?_isSome]

theorem status_insertNeighborTuple (tuple : NeighborTuple) :
    (s.insertNeighborTuple tuple).status a =
      if a = tuple.neighborMainAddr then some tuple.status else s.status a := by
  unfold insertNeighborTuple
  split_ifs with h ha ha
  · obtain ⟨nb, hmem, hnb⟩ := h
    have hfind : (s.m_neighborSet.find? fun n ↦ n.neighborMainAddr = a).isSome :=
      List.find?_isSome.mpr ⟨nb, hmem, by simp [hnb, ha]⟩
    obtain ⟨x, hx⟩ := Option.isSome_iff_exists.mp hfind
    rw [status, findNeighborTuple, find?_updateFirst (fun _ _ ↦ rfl), if_pos ha, hx]
    rfl
  · rw [status, findNeighborTuple, find?_updateFirst (fun _ _ ↦ rfl), if_neg ha]
    rfl
  · have hnone : (s.m_neighborSet.find? fun n ↦ n.neighborMainAddr = a) = none := by
      rw [List.find?_eq_none]
      intro nb hmem
      simpa [ha] using fun hnb ↦ h ⟨nb, hmem, hnb⟩
    rw [status, findNeighborTuple, List.find?_append, hnone, Option.none_or, List.find?_cons]
    simp [ha]
  · rw [status, findNeighborTuple, List.find?_append, List.find?_cons]
    simp [Ne.symm ha, status, findNeighborTuple]

theorem UniqueNeighbors.insertNeighborTuple (h : s.UniqueNeighbors) (tuple : NeighborTuple) :
    (s.insertNeighborTuple tuple).UniqueNeighbors := by
  unfold OlsrState.insertNeighborTuple
  split_ifs with hex
  · rw [UniqueNeighbors, map_updateFirst fun _ hp ↦ hp.symm]
    exact h
  · rw [UniqueNeighbors, List.map_append, List.nodup_append]
    refine ⟨h, List.nodup_singleton _, ?_⟩
    rintro x hx y hy rfl
    obtain ⟨nb, hmem, rfl⟩ := List.mem_map.mp hx
    exact hex ⟨nb, hmem, List.mem_singleton.mp hy⟩

/-- What is found by its key where the first element of the key `k` has been erased. -/
theorem find?_eraseP_of_nodup {α β : Type*} [DecidableEq β] {key : α → β} {l : List α}
    (h : (l.map key).Nodup) (k a : β) :
    (l.eraseP fun x ↦ key x = k).find? (fun x ↦ key x = a) =
      if a = k then none else l.find? fun x ↦ key x = a := by
  induction l with
  | nil => simp
  | cons x l ih =>
    rw [List.map_cons, List.nodup_cons] at h
    rw [List.eraseP_cons]
    by_cases hx : key x = k
    · simp only [hx, decide_true]
      split_ifs with ha
      · rw [List.find?_eq_none]
        intro y hy
        simp only [decide_eq_true_eq]
        exact fun hk ↦ h.1 (hx.trans (ha.symm.trans hk.symm) ▸ List.mem_map_of_mem hy)
      · rw [List.find?_cons]
        simp [hx, Ne.symm ha]
    · simp only [hx, decide_false, cond_false]
      rw [List.find?_cons, List.find?_cons]
      by_cases hxa : key x = a
      · simp [hxa, hxa ▸ hx]
      · simp only [hxa, decide_false]
        exact ih h.2

theorem status_eraseNeighborTuple (h : s.UniqueNeighbors) (m : Ipv4Address) :
    (s.eraseNeighborTuple m).status a = if a = m then none else s.status a := by
  rw [status, findNeighborTuple, eraseNeighborTuple, find?_eraseP_of_nodup h]
  split_ifs <;> rfl

theorem UniqueNeighbors.eraseNeighborTuple (h : s.UniqueNeighbors) (m : Ipv4Address) :
    (s.eraseNeighborTuple m).UniqueNeighbors :=
  List.Nodup.sublist (List.Sublist.map _ (List.eraseP_sublist ..)) h

theorem status_updateFirst_status (m : Ipv4Address) (st : Status) :
    status { s with
      m_neighborSet := updateFirst (fun t ↦ t.neighborMainAddr = m)
        (fun t ↦ { t with status := st }) s.m_neighborSet } a =
      if a = m then (s.status a).map fun _ ↦ st else s.status a := by
  have hfind := @find?_updateFirst _ _ _ NeighborTuple.neighborMainAddr m
    (fun t ↦ { t with status := st }) (fun _ h ↦ h) s.m_neighborSet a
  rw [status, findNeighborTuple, hfind]
  split_ifs
  · rw [Option.map_map, status, Option.map_map]
    rfl
  · rfl

end OlsrState

/-! ## The last word on a link -/

/-- The link type of the last link message that lists an interface. -/
def lastListing (receiverIface : Ipv4Address) : List LinkMessage → Option LinkType
  | [] => none
  | m :: ms => (lastListing receiverIface ms).or
      (if m.Invalid ∨ receiverIface ∉ m.neighborInterfaceAddresses then none else some m.linkType)

/-- The HELLO says that its sender hears an interface. -/
def Hello.Hears (hello : Hello) (receiverIface : Ipv4Address) : Prop :=
  lastListing receiverIface hello.linkMessages = some .OLSR_ASYM_LINK ∨
    lastListing receiverIface hello.linkMessages = some .OLSR_SYM_LINK

instance (hello : Hello) (a : Ipv4Address) : Decidable (hello.Hears a) :=
  inferInstanceAs (Decidable (_ ∨ _))

/-- The HELLO says that its sender has lost an interface. -/
def Hello.Loses (hello : Hello) (receiverIface : Ipv4Address) : Prop :=
  lastListing receiverIface hello.linkMessages = some .OLSR_LOST_LINK

instance (hello : Hello) (a : Ipv4Address) : Decidable (hello.Loses a) :=
  inferInstanceAs (Decidable (_ = _))

namespace Node

variable {n n' : Node} {a : Ipv4Address}

/-! ## What is to hold -/

/-- The events that are due have been handled. -/
def Handled (n : Node) : Prop := ∀ e ∈ n.m_events, n.now < e.time

instance (n : Node) : Decidable n.Handled := inferInstanceAs (Decidable (∀ e ∈ n.m_events, _))

/-- The neighbor set tracks the link set, and nothing refers to a neighbor that is not symmetric. -/
structure Tracks (n : Node) : Prop where
  exists_iff : ∀ a, (∃ nb ∈ n.m_state.m_neighborSet, nb.neighborMainAddr = a) ↔
    ∃ l ∈ n.m_state.m_linkSet, n.getMainAddress l.neighborIfaceAddr = a
  sym_iff : ∀ nb ∈ n.m_state.m_neighborSet, nb.Sym ↔ n.HasSymmetricLink nb.neighborMainAddr
  twoHop : ∀ t ∈ n.m_state.m_twoHopNeighborSet,
    ∃ nb ∈ n.m_state.m_neighborSet, nb.neighborMainAddr = t.neighborMainAddr ∧ nb.Sym
  mprSelector : ∀ t ∈ n.m_state.m_mprSelectorSet,
    ∃ nb ∈ n.m_state.m_neighborSet, nb.neighborMainAddr = t.mainAddr ∧ nb.Sym

/-! ## Where one link says enough -/

/-- A link of the neighbor other than that of an interface is symmetric. -/
def HasOtherSymmetricLink (n : Node) (senderIface mainAddr : Ipv4Address) : Prop :=
  ∃ l ∈ n.m_state.m_linkSet, l.neighborIfaceAddr ≠ senderIface ∧
    n.getMainAddress l.neighborIfaceAddr = mainAddr ∧ l.symTime ≥ n.now

instance (n : Node) (s a : Ipv4Address) : Decidable (n.HasOtherSymmetricLink s a) :=
  inferInstanceAs (Decidable (∃ l ∈ n.m_state.m_linkSet, _))

/-- No two-hop and no MPR selector tuple is of the neighbor. -/
def Unreferenced (n : Node) (mainAddr : Ipv4Address) : Prop :=
  (∀ t ∈ n.m_state.m_twoHopNeighborSet, t.neighborMainAddr ≠ mainAddr) ∧
    ∀ t ∈ n.m_state.m_mprSelectorSet, t.mainAddr ≠ mainAddr

instance (n : Node) (a : Ipv4Address) : Decidable (n.Unreferenced a) :=
  inferInstanceAs (Decidable (_ ∧ _))

/-- The HELLO selects the node as a relay. -/
def Selects (n : Node) (hello : Hello) : Prop :=
  ∃ m ∈ hello.linkMessages, m.linkCode / 4 = mprNeigh ∧
    ∃ a ∈ m.neighborInterfaceAddresses, n.getMainAddress a = n.m_mainAddress

instance (n : Node) (hello : Hello) : Decidable (n.Selects hello) :=
  inferInstanceAs (Decidable (∃ m ∈ hello.linkMessages, _))

/-- A HELLO whose link speaks for its neighbor: a link is lost where another one is symmetric or nothing
refers to the neighbor; the first HELLO on a link of a symmetric neighbor hears the node; a symmetric time
does not come before the event of its link; and the node is selected by a symmetric neighbor. -/
def RegularHello (n : Node) (msg : MessageHeader) (hello : Hello)
    (receiverIface senderIface : Ipv4Address) : Prop :=
  ((n.m_state.findLinkTuple senderIface).isSome → hello.Loses receiverIface →
    n.HasOtherSymmetricLink senderIface (n.getMainAddress senderIface) ∨
      n.Unreferenced (n.getMainAddress senderIface)) ∧
  ((n.m_state.findLinkTuple senderIface).isNone →
    n.HasSymmetricLink (n.getMainAddress senderIface) → hello.Hears receiverIface) ∧
  ((n.m_state.findLinkTuple senderIface).isSome → hello.Hears receiverIface →
    ∃ e ∈ n.m_events, e.timer = .linkTupleTimerExpire senderIface ∧
      e.time ≤ n.now + msg.vTime + oneMicrosecond) ∧
  (n.Selects hello →
    (n.getMainAddress senderIface = msg.originatorAddress ∧ hello.Hears receiverIface) ∨
      (¬ hello.Loses receiverIface ∧ n.HasSymmetricLink msg.originatorAddress) ∨
      n.HasOtherSymmetricLink senderIface msg.originatorAddress)

instance (n : Node) (msg : MessageHeader) (hello : Hello) (r s : Ipv4Address) :
    Decidable (n.RegularHello msg hello r s) := inferInstanceAs (Decidable (_ ∧ _))

/-- The main address of an address behind a MID message. -/
def mainAddressAfter (n : Node) (msg : MessageHeader) (interfaceAddresses : List Ipv4Address)
    (a : Ipv4Address) : Ipv4Address :=
  if n.m_state.findIfaceAssocTuple a = none ∧ a ∈ interfaceAddresses then msg.originatorAddress
  else n.getMainAddress a

/-- A MID message that renames the neighbors as it does their links, keeps them apart, and leaves the
MPR selectors alone. -/
def RegularMid (n : Node) (msg : MessageHeader) (interfaceAddresses : List Ipv4Address) : Prop :=
  (∀ l ∈ n.m_state.m_linkSet,
    n.mainAddressAfter msg interfaceAddresses (n.getMainAddress l.neighborIfaceAddr) =
      n.mainAddressAfter msg interfaceAddresses l.neighborIfaceAddr) ∧
  (∀ nb ∈ n.m_state.m_neighborSet, ∀ nb' ∈ n.m_state.m_neighborSet,
    n.mainAddressAfter msg interfaceAddresses nb.neighborMainAddr =
      n.mainAddressAfter msg interfaceAddresses nb'.neighborMainAddr →
    nb.neighborMainAddr = nb'.neighborMainAddr) ∧
  ∀ t ∈ n.m_state.m_mprSelectorSet,
    n.mainAddressAfter msg interfaceAddresses t.mainAddr = t.mainAddr

instance (n : Node) (msg : MessageHeader) (as : List Ipv4Address) :
    Decidable (n.RegularMid msg as) := inferInstanceAs (Decidable (_ ∧ _))

/-- An event of a link that is the last one of its neighbor where it is removed, and that is not passed over
by the flag where it has to be noticed; or of an association that gives no link its main address. -/
def RegularTimer (n : Node) : Timer → Prop
  | .linkTupleTimerExpire x => ∀ l ∈ n.m_state.findLinkTuple x,
      (l.time < n.now → (∀ l' ∈ n.m_state.m_linkSet, l'.neighborIfaceAddr ≠ x →
          n.getMainAddress l'.neighborIfaceAddr ≠ n.getMainAddress x) ∧
        n.Unreferenced (n.getMainAddress x)) ∧
      (n.now ≤ l.time → l.symTime < n.now → n.m_linkTupleTimerFirstTime →
        n.HasSymmetricLink (n.getMainAddress x) ∨
          ((∀ nb ∈ n.m_state.m_neighborSet, nb.neighborMainAddr = n.getMainAddress x → ¬ nb.Sym) ∧
            n.Unreferenced (n.getMainAddress x)))
  | .ifaceAssocTupleTimerExpire x => ∀ t ∈ n.m_state.findIfaceAssocTuple x, t.time < n.now →
      ∀ l ∈ n.m_state.m_linkSet, (n.m_state.eraseIfaceAssocTuple t).getMainAddress
        l.neighborIfaceAddr = n.getMainAddress l.neighborIfaceAddr
  | _ => True

instance (n : Node) (t : Timer) : Decidable (n.RegularTimer t) :=
  match t with
  | .linkTupleTimerExpire x =>
    inferInstanceAs (Decidable (∀ l ∈ n.m_state.findLinkTuple x, _ ∧ _))
  | .ifaceAssocTupleTimerExpire x =>
    inferInstanceAs (Decidable (∀ t ∈ n.m_state.findIfaceAssocTuple x, t.time < n.now → _))
  | .nb2hopTupleTimerExpire _ _ => isTrue trivial
  | .mprSelTupleTimerExpire _ => isTrue trivial
  | .topologyTupleTimerExpire _ _ => isTrue trivial

/-- The steps that keep the neighbor set behind the link set; nothing happens within the microsecond between
a symmetric time and the event behind it. -/
def Regular (n : Node) : Op → Prop
  | .hello msg hello receiverIface senderIface =>
    msg.originatorAddress = n.m_mainAddress ∨ n.RegularHello msg hello receiverIface senderIface
  | .mid msg interfaceAddresses senderIface =>
    msg.originatorAddress = n.m_mainAddress ∨
      (n.m_state.findSymLinkTuple senderIface n.now).isNone ∨ n.RegularMid msg interfaceAddresses
  | .tc _ _ _ => True
  | .expire e => n.RegularTimer e.timer
  | .wait d => ∀ l ∈ n.m_state.m_linkSet, l.symTime < n.now + d →
      l.symTime + oneMicrosecond ≤ n.now + d

instance (n : Node) (o : Op) : Decidable (n.Regular o) :=
  match o with
  | .hello _ _ _ _ => inferInstanceAs (Decidable (_ ∨ _))
  | .mid _ _ _ => inferInstanceAs (Decidable (_ ∨ _))
  | .tc _ _ _ => isTrue trivial
  | .expire e => inferInstanceAs (Decidable (n.RegularTimer e.timer))
  | .wait d => inferInstanceAs (Decidable (∀ l ∈ n.m_state.m_linkSet, l.symTime < n.now + d → _))

/-! ## The invariant -/

/-- A link of the neighbor has expired, and its event is due. -/
def Leaving (n : Node) (mainAddr : Ipv4Address) : Prop :=
  ∃ l ∈ n.m_state.m_linkSet, n.getMainAddress l.neighborIfaceAddr = mainAddr ∧ l.symTime < n.now ∧
    ∃ e ∈ n.m_events, e.timer = .linkTupleTimerExpire l.neighborIfaceAddr ∧ e.time ≤ n.now

/-- The neighbor has a symmetric link, or one whose loss is about to be noticed. -/
def Held (n : Node) (mainAddr : Ipv4Address) : Prop :=
  n.HasSymmetricLink mainAddr ∨ n.Leaving mainAddr

/-- The neighbor set is behind the link set by the events that are due. -/
structure Tracking (n : Node) : Prop where
  uniqueNeighbors : n.m_state.UniqueNeighbors
  uniqueLinks : (n.m_state.m_linkSet.map LinkTuple.neighborIfaceAddr).Nodup
  known : ∀ a, (n.m_state.status a).isSome ↔
    ∃ l ∈ n.m_state.m_linkSet, n.getMainAddress l.neighborIfaceAddr = a
  sym : ∀ a, n.m_state.status a = some .STATUS_SYM → n.Held a
  notSym : ∀ a, n.m_state.status a = some .STATUS_NOT_SYM → ¬ n.HasSymmetricLink a
  twoHop : ∀ t ∈ n.m_state.m_twoHopNeighborSet, n.Held t.neighborMainAddr
  mprSelector : ∀ t ∈ n.m_state.m_mprSelectorSet, n.Held t.mainAddr
  passed : ∀ l ∈ n.m_state.m_linkSet, l.symTime < n.now → l.symTime + oneMicrosecond ≤ n.now
  timer : ∀ l ∈ n.m_state.m_linkSet, n.now ≤ l.symTime → ∃ e ∈ n.m_events,
    e.timer = .linkTupleTimerExpire l.neighborIfaceAddr ∧ e.time ≤ l.symTime + oneMicrosecond

theorem create_tracking (mainAddress : Ipv4Address) (ipv4 : List (List Ipv4Address))
    (helloInterval : ℤ) : (create mainAddress ipv4 helloInterval).Tracking where
  uniqueNeighbors := List.nodup_nil
  uniqueLinks := List.nodup_nil
  known a := by simp [create, OlsrState.status, OlsrState.findNeighborTuple, OlsrState.empty]
  sym a h := by simp [create, OlsrState.status, OlsrState.findNeighborTuple, OlsrState.empty] at h
  notSym a h := by simp [create, OlsrState.status, OlsrState.findNeighborTuple, OlsrState.empty] at h
  twoHop _ h := by cases h
  mprSelector _ h := by cases h
  passed _ h := by cases h
  timer _ h := by cases h

theorem Tracking.status_eq (h : n.Tracking) (ha : n.HasSymmetricLink a) :
    n.m_state.status a = some .STATUS_SYM := by
  obtain ⟨l, hl, hmain, hsym⟩ := ha
  obtain ⟨st, hst⟩ := Option.isSome_iff_exists.mp ((h.known a).mpr ⟨l, hl, hmain⟩)
  cases st with
  | STATUS_SYM => exact hst
  | STATUS_NOT_SYM => exact absurd ⟨l, hl, hmain, hsym⟩ (h.notSym a hst)

/-- **Where the events that are due have been handled, the neighbor set tracks the link set.** -/
theorem Tracking.tracks (h : n.Tracking) (hn : n.Handled) : n.Tracks := by
  have hheld : ∀ a, n.Held a → n.HasSymmetricLink a := by
    rintro a (hsym | ⟨l, _, _, _, e, he, _, hdue⟩)
    · exact hsym
    · exact absurd (hn e he) hdue.not_gt
  have hsym : ∀ a, n.Held a → ∃ nb ∈ n.m_state.m_neighborSet, nb.neighborMainAddr = a ∧ nb.Sym := by
    intro a ha
    exact (OlsrState.status_eq_some h.uniqueNeighbors).mp (h.status_eq (hheld a ha))
  refine ⟨fun a ↦ OlsrState.status_isSome.symm.trans (h.known a), fun nb hnb ↦ ⟨fun hs ↦ ?_, fun hl ↦ ?_⟩,
    fun t ht ↦ hsym _ (h.twoHop t ht), fun t ht ↦ hsym _ (h.mprSelector t ht)⟩
  · exact hheld _ (h.sym _ ((OlsrState.status_eq_some h.uniqueNeighbors).mpr ⟨nb, hnb, rfl, hs⟩))
  · by_contra hns
    have hst : nb.status = .STATUS_NOT_SYM := by
      cases hst : nb.status with
      | STATUS_SYM => exact absurd hst hns
      | STATUS_NOT_SYM => rfl
    exact h.notSym _ ((OlsrState.status_eq_some h.uniqueNeighbors).mpr ⟨nb, hnb, rfl, hst⟩) hl

/-! ## Steps on the neighbor set -/

/-- Only the neighbor set is changed, and events are scheduled. -/
structure NeighborStep (n n' : Node) : Prop where
  state : OnlyNeighbors n.m_state n'.m_state
  now : n'.now = n.now
  mainAddress : n'.m_mainAddress = n.m_mainAddress
  events : ∀ e ∈ n.m_events, e ∈ n'.m_events

theorem NeighborStep.refl (n : Node) : NeighborStep n n := ⟨.refl _, rfl, rfl, fun _ h ↦ h⟩

theorem NeighborStep.trans {n'' : Node} (h : NeighborStep n n') (h' : NeighborStep n' n'') :
    NeighborStep n n'' where
  state := h.state.trans h'.state
  now := h'.now.trans h.now
  mainAddress := h'.mainAddress.trans h.mainAddress
  events e he := h'.events e (h.events e he)

theorem NeighborStep.getMainAddress (h : NeighborStep n n') (a : Ipv4Address) :
    n'.getMainAddress a = n.getMainAddress a := h.state.getMainAddress a

theorem NeighborStep.hasSymmetricLink (h : NeighborStep n n') :
    n'.HasSymmetricLink a ↔ n.HasSymmetricLink a := by
  unfold HasSymmetricLink
  rw [h.state.m_linkSet, h.now]
  simp only [h.getMainAddress]

theorem schedule_neighborStep (n : Node) (time : ℤ) (timer : Timer) :
    NeighborStep n (n.schedule time timer) :=
  ⟨.refl _, rfl, rfl, fun _ h ↦ List.mem_append_left _ h⟩

theorem linkTupleAdded_neighborStep (n : Node) (l : LinkTuple) (w : ℕ) :
    NeighborStep n (n.linkTupleAdded l w) :=
  ⟨insertNeighborTuple_onlyNeighbors _ _, rfl, rfl, fun _ h ↦ h⟩

theorem withNeighborTuple_neighborStep (n : Node) (l : LinkTuple) (w : ℕ) :
    NeighborStep n (n.withNeighborTuple l w) := by
  unfold withNeighborTuple
  split
  · exact n.linkTupleAdded_neighborStep l w
  · exact .refl n

theorem setStatus_neighborStep (n : Node) (m : Ipv4Address) (st : Status) :
    NeighborStep n (n.setStatus m st) := ⟨rfl, rfl, rfl, fun _ h ↦ h⟩

theorem setStatus_status (n : Node) (m : Ipv4Address) (st : Status) (a : Ipv4Address) :
    (n.setStatus m st).m_state.status a =
      if a = m then (n.m_state.status a).map fun _ ↦ st else n.m_state.status a :=
  OlsrState.status_updateFirst_status m st

theorem setStatus_uniqueNeighbors (h : n.m_state.UniqueNeighbors) (m : Ipv4Address) (st : Status) :
    (n.setStatus m st).m_state.UniqueNeighbors :=
  h.of_map (map_updateFirst (p := fun t : NeighborTuple ↦ t.neighborMainAddr = m)
    (f := fun t : NeighborTuple ↦ { t with status := st }) (g := NeighborTuple.neighborMainAddr)
    (fun _ _ ↦ by rfl) n.m_state.m_neighborSet)

theorem linkTupleUpdated_neighborStep (n : Node) (l : LinkTuple) (w : ℕ) :
    NeighborStep n (n.linkTupleUpdated l w) :=
  (n.withNeighborTuple_neighborStep l w).trans (setStatus_neighborStep _ _ _)

theorem linkTupleAdded_status (n : Node) (l : LinkTuple) (w : ℕ) (a : Ipv4Address) :
    (n.linkTupleAdded l w).m_state.status a =
      if a = n.getMainAddress l.neighborIfaceAddr then
        some (if l.symTime ≥ n.now then .STATUS_SYM else .STATUS_NOT_SYM)
      else n.m_state.status a :=
  OlsrState.status_insertNeighborTuple _

/-- **The status of the neighbor of an updated link is that of all its links.** -/
theorem linkTupleUpdated_status (n : Node) (l : LinkTuple) (w : ℕ) (a : Ipv4Address) :
    (n.linkTupleUpdated l w).m_state.status a =
      if a = n.getMainAddress l.neighborIfaceAddr then
        some (if n.HasSymmetricLink a then .STATUS_SYM else .STATUS_NOT_SYM)
      else n.m_state.status a := by
  have hsome : ((n.withNeighborTuple l w).m_state.status
      (n.getMainAddress l.neighborIfaceAddr)).isSome := by
    unfold withNeighborTuple
    split
    · rw [linkTupleAdded_status, if_pos rfl]
      rfl
    · next tuple hfind =>
      rw [OlsrState.status, hfind]
      rfl
  have hother : a ≠ n.getMainAddress l.neighborIfaceAddr →
      (n.withNeighborTuple l w).m_state.status a = n.m_state.status a := by
    intro ha
    unfold withNeighborTuple
    split
    · rw [linkTupleAdded_status, if_neg ha]
    · rfl
  rw [linkTupleUpdated, updateStatus, setStatus_status]
  by_cases ha : a = n.getMainAddress l.neighborIfaceAddr
  · obtain ⟨st, hst⟩ := Option.isSome_iff_exists.mp hsome
    rw [if_pos ha, if_pos ha, ha, hst, Option.map_some]
    exact congrArg some (if_congr (n.withNeighborTuple_neighborStep l w).hasSymmetricLink rfl rfl)
  · rw [if_neg ha, if_neg ha]
    exact hother ha

theorem linkTupleAdded_uniqueNeighbors (h : n.m_state.UniqueNeighbors) (l : LinkTuple) (w : ℕ) :
    (n.linkTupleAdded l w).m_state.UniqueNeighbors := h.insertNeighborTuple _

theorem linkTupleUpdated_uniqueNeighbors (h : n.m_state.UniqueNeighbors) (l : LinkTuple) (w : ℕ) :
    (n.linkTupleUpdated l w).m_state.UniqueNeighbors := by
  have hwith : (n.withNeighborTuple l w).m_state.UniqueNeighbors := by
    unfold withNeighborTuple
    split
    · exact linkTupleAdded_uniqueNeighbors h l w
    · exact h
  exact setStatus_uniqueNeighbors hwith _ _

/-! ## Link sensing -/

/-- The symmetric time of a link behind a HELLO. -/
def symTimeAfter (n : Node) (vTime : ℤ) : Option LinkType → ℤ → ℤ
  | none, t => t
  | some .OLSR_LOST_LINK, _ => n.now - oneSecond
  | some _, _ => n.now + vTime

theorem senseLink_spec {vTime : ℤ} {r : Ipv4Address} {ms : List LinkMessage} {p q : LinkTuple × Bool}
    (h : n.senseLink vTime r ms p = some q) :
    q.1.neighborIfaceAddr = p.1.neighborIfaceAddr ∧ q.1.asymTime = p.1.asymTime ∧
      (p.2 = true → q.2 = true) ∧
      q.1.symTime = n.symTimeAfter vTime (lastListing r ms) p.1.symTime ∧
      lastListing r ms ≠ some .OLSR_UNSPEC_LINK := by
  induction ms generalizing p with
  | nil =>
    obtain rfl := Option.some.inj h
    exact ⟨rfl, rfl, id, rfl, by simp [lastListing]⟩
  | cons m ms ih =>
    obtain ⟨l, updated⟩ := p
    rw [senseLink] at h
    rw [lastListing]
    split_ifs at h ⊢ with hinv
    · simpa using ih h
    · cases hm : m.linkType with
      | OLSR_UNSPEC_LINK => simp [hm] at h
      | _ =>
        simp only [hm] at h
        obtain ⟨hi, ha, hu, ht, hne⟩ := ih h
        refine ⟨hi, ha, fun _ ↦ hu rfl, ?_, ?_⟩
        · rw [ht]
          cases hl : lastListing r ms with
          | none => rfl
          | some t => cases t <;> rfl
        · cases hl : lastListing r ms with
          | none => simp
          | some t => simpa [hl] using hne

/-- The link of an interface is a new one, and the rest is as it was. -/
structure Sensed (n n' : Node) (senderIface : Ipv4Address) (l : LinkTuple) : Prop where
  iface : l.neighborIfaceAddr = senderIface
  now : n'.now = n.now
  mainAddress : n'.m_mainAddress = n.m_mainAddress
  getMainAddress : ∀ a, n'.getMainAddress a = n.getMainAddress a
  mem : ∀ l', l' ∈ n'.m_state.m_linkSet ↔
    (l' ∈ n.m_state.m_linkSet ∧ l'.neighborIfaceAddr ≠ senderIface) ∨ l' = l
  uniqueLinks : (n'.m_state.m_linkSet.map LinkTuple.neighborIfaceAddr).Nodup
  events : ∀ e ∈ n.m_events, e ∈ n'.m_events
  twoHop : n'.m_state.m_twoHopNeighborSet = n.m_state.m_twoHopNeighborSet
  mprSelector : n'.m_state.m_mprSelectorSet = n.m_state.m_mprSelectorSet

/-- The elements of a list whose element of the key `k` has been replaced. -/
theorem mem_updateFirst_of_nodup {α β : Type*} [DecidableEq β] {key : α → β} {l : List α}
    (h : (l.map key).Nodup) {x y : α} (hx : key x = key y) (hmem : x ∈ l) (z : α) :
    z ∈ updateFirst (fun x ↦ key x = key y) (fun _ ↦ y) l ↔ (z ∈ l ∧ key z ≠ key y) ∨ z = y := by
  induction l with
  | nil => cases hmem
  | cons w l ih =>
    rw [List.map_cons, List.nodup_cons] at h
    rw [updateFirst]
    split_ifs with hw
    · have hne : z ∈ l → key z ≠ key y := fun hz he ↦ h.1 (hw.trans he.symm ▸ List.mem_map_of_mem hz)
      constructor
      · rw [List.mem_cons]
        rintro (hz | hz)
        · exact .inr hz
        · exact .inl ⟨List.mem_cons_of_mem _ hz, hne hz⟩
      · rintro (⟨hz, hk⟩ | rfl)
        · rcases List.mem_cons.mp hz with rfl | hz
          · exact absurd hw hk
          · exact List.mem_cons_of_mem _ hz
        · exact List.mem_cons_self
    · have hmem' : x ∈ l := by
        rcases List.mem_cons.mp hmem with rfl | hmem
        · exact absurd hx hw
        · exact hmem
      rw [List.mem_cons, List.mem_cons, ih h.2 hmem']
      constructor
      · rintro (rfl | ⟨hz, hk⟩ | hz)
        · exact .inl ⟨.inl rfl, hw⟩
        · exact .inl ⟨.inr hz, hk⟩
        · exact .inr hz
      · rintro (⟨rfl | hz, hk⟩ | hz)
        · exact .inl rfl
        · exact .inr (.inl ⟨hz, hk⟩)
        · exact .inr (.inr hz)

theorem putLinkTuple_sensed
    (h : (n.m_state.m_linkSet.map LinkTuple.neighborIfaceAddr).Nodup) (l : LinkTuple) :
    Sensed n (n.putLinkTuple (n.m_state.findLinkTuple l.neighborIfaceAddr).isNone l)
      l.neighborIfaceAddr l := by
  unfold putLinkTuple
  split_ifs with hnone
  · have hnot : ∀ l' ∈ n.m_state.m_linkSet, l'.neighborIfaceAddr ≠ l.neighborIfaceAddr := by
      simpa [OlsrState.findLinkTuple, List.find?_eq_none] using hnone
    refine ⟨rfl, rfl, rfl, fun _ ↦ rfl, fun l' ↦ ?_, ?_, fun _ h ↦ h, rfl, rfl⟩
    · rw [modifyState_m_state, List.mem_append, List.mem_singleton]
      exact or_congr ⟨fun hl ↦ ⟨hl, hnot l' hl⟩, And.left⟩ Iff.rfl
    · rw [modifyState_m_state, List.map_append, List.nodup_append]
      refine ⟨h, List.nodup_singleton _, ?_⟩
      rintro x hx y hy rfl
      obtain ⟨l', hl', rfl⟩ := List.mem_map.mp hx
      exact hnot l' hl' (List.mem_singleton.mp hy)
  · obtain ⟨x, hx⟩ := Option.ne_none_iff_exists'.mp (mt Option.isNone_iff_eq_none.mpr hnone)
    have hkey : x.neighborIfaceAddr = l.neighborIfaceAddr := by simpa using List.find?_some hx
    refine ⟨rfl, rfl, rfl, fun _ ↦ rfl, ?_, ?_, fun _ h ↦ h, rfl, rfl⟩
    · exact mem_updateFirst_of_nodup h hkey (List.mem_of_find?_eq_some hx)
    · rw [modifyState_m_state, map_updateFirst fun _ hp ↦ hp.symm]
      exact h

theorem Sensed.neighborStep {s : Ipv4Address} {l : LinkTuple} {n'' : Node} (h : Sensed n n' s l)
    (h' : NeighborStep n' n'') : Sensed n n'' s l where
  iface := h.iface
  now := h'.now.trans h.now
  mainAddress := h'.mainAddress.trans h.mainAddress
  getMainAddress a := (h'.getMainAddress a).trans (h.getMainAddress a)
  mem l' := by
    rw [h'.state.m_linkSet]
    exact h.mem l'
  uniqueLinks := by
    rw [h'.state.m_linkSet]
    exact h.uniqueLinks
  events e he := h'.events e (h.events e he)
  twoHop := h'.state.m_twoHopNeighborSet.trans h.twoHop
  mprSelector := h'.state.m_mprSelectorSet.trans h.mprSelector

/-- What link sensing leaves of a node: a link, and the status of its neighbor. -/
structure LinkSensed (n n' : Node) (msg : MessageHeader) (hello : Hello)
    (receiverIface senderIface : Ipv4Address) (l : LinkTuple) : Prop where
  sensed : Sensed n n' senderIface l
  symTime : l.symTime = n.symTimeAfter msg.vTime (lastListing receiverIface hello.linkMessages)
    (((n.m_state.findLinkTuple senderIface).map LinkTuple.symTime).getD (n.now - oneSecond))
  vTime_pos : 0 < msg.vTime
  listing : lastListing receiverIface hello.linkMessages ≠ some .OLSR_UNSPEC_LINK
  uniqueNeighbors : n'.m_state.UniqueNeighbors
  status_other : ∀ a, a ≠ n.getMainAddress senderIface → n'.m_state.status a = n.m_state.status a
  status_new : (n.m_state.findLinkTuple senderIface).isNone →
    n'.m_state.status (n.getMainAddress senderIface) =
      some (if l.symTime ≥ n.now then .STATUS_SYM else .STATUS_NOT_SYM)
  status_old : (n.m_state.findLinkTuple senderIface).isSome →
    n'.m_state.status (n.getMainAddress senderIface) =
      some (if n'.HasSymmetricLink (n.getMainAddress senderIface) then .STATUS_SYM
        else .STATUS_NOT_SYM)
  timer : (n.m_state.findLinkTuple senderIface).isNone → n.now ≤ l.symTime →
    ∃ e ∈ n'.m_events, e.timer = .linkTupleTimerExpire senderIface ∧
      e.time ≤ l.symTime + oneMicrosecond

theorem updatedIf_neighborStep (n : Node) (updated : Bool) (l : LinkTuple) (w : ℕ) :
    NeighborStep n (if updated then n.linkTupleUpdated l w else n) := by
  split_ifs
  · exact n.linkTupleUpdated_neighborStep l w
  · exact .refl n

theorem updatedIf_uniqueNeighbors (h : n.m_state.UniqueNeighbors) (updated : Bool) (l : LinkTuple)
    (w : ℕ) : (if updated then n.linkTupleUpdated l w else n).m_state.UniqueNeighbors := by
  split_ifs
  · exact linkTupleUpdated_uniqueNeighbors h l w
  · exact h

theorem updatedIf_status_other (n : Node) (updated : Bool) (l : LinkTuple) (w : ℕ)
    (ha : a ≠ n.getMainAddress l.neighborIfaceAddr) :
    (if updated then n.linkTupleUpdated l w else n).m_state.status a = n.m_state.status a := by
  split_ifs
  · rw [linkTupleUpdated_status, if_neg ha]
  · rfl

theorem putLinkTuple_status (n : Node) (created : Bool) (l : LinkTuple) (a : Ipv4Address) :
    (n.putLinkTuple created l).m_state.status a = n.m_state.status a := by
  unfold putLinkTuple
  split_ifs <;> rfl

theorem putLinkTuple_uniqueNeighbors (h : n.m_state.UniqueNeighbors) (created : Bool) (l : LinkTuple) :
    (n.putLinkTuple created l).m_state.UniqueNeighbors := by
  unfold putLinkTuple
  split_ifs <;> exact h

theorem linkSensing_spec {msg : MessageHeader} {hello : Hello} {r s : Ipv4Address} (h : n.Tracking)
    (hs : n.linkSensing msg hello r s = some n') : ∃ l, LinkSensed n n' msg hello r s l := by
  rw [linkSensing] at hs
  split_ifs at hs with hv
  obtain ⟨⟨l, updated⟩, hsense, rfl⟩ := Option.map_eq_some_iff.mp hs
  obtain ⟨hiface, hasym, hupdated, hsym, hlisting⟩ := senseLink_spec hsense
  have hiface : l.neighborIfaceAddr = s := by
    rw [hiface, helloLinkTuple]
    cases hfind : n.m_state.findLinkTuple s with
    | none => rfl
    | some l' => simpa using List.find?_some hfind
  have hasym : l.asymTime = n.now + msg.vTime := hasym
  have hsym : l.symTime = n.symTimeAfter msg.vTime (lastListing r hello.linkMessages)
      (((n.m_state.findLinkTuple s).map LinkTuple.symTime).getD (n.now - oneSecond)) := by
    rw [hsym, helloLinkTuple]
    cases n.m_state.findLinkTuple s <;> rfl
  set l' : LinkTuple := { l with time := max l.time l.asymTime } with hl'
  have hiface' : l'.neighborIfaceAddr = s := hiface
  have hput := putLinkTuple_sensed h.uniqueLinks l'
  rw [hiface'] at hput
  set n₁ := n.putLinkTuple (n.m_state.findLinkTuple s).isNone l' with hn₁
  have hmain : n₁.getMainAddress l'.neighborIfaceAddr = n.getMainAddress s := by
    rw [hput.getMainAddress, hiface']
  have hunique := putLinkTuple_uniqueNeighbors h.uniqueNeighbors
    (n.m_state.findLinkTuple s).isNone l'
  set n₂ := if updated then n₁.linkTupleUpdated l' hello.willingness else n₁ with hn₂
  have hstep : NeighborStep n₁ n₂ := n₁.updatedIf_neighborStep updated l' hello.willingness
  have hmain₂ : n₂.getMainAddress l'.neighborIfaceAddr = n.getMainAddress s :=
    (hstep.getMainAddress _).trans hmain
  have hother : ∀ a, a ≠ n.getMainAddress s → n₂.m_state.status a = n.m_state.status a := by
    intro a ha
    rw [hn₂, n₁.updatedIf_status_other updated l' hello.willingness (hmain ▸ ha), hn₁,
      putLinkTuple_status]
  by_cases hnone : (n.m_state.findLinkTuple s).isNone = true
  · have hstep₃ := (n₂.linkTupleAdded_neighborStep l' hello.willingness).trans
      (schedule_neighborStep _ (min l'.time l'.symTime) (.linkTupleTimerExpire l'.neighborIfaceAddr))
    have hnow₃ : (n₂.linkTupleAdded l' hello.willingness).now = n.now :=
      (n₂.linkTupleAdded_neighborStep l' hello.willingness).now.trans (hstep.now.trans hput.now)
    have hnow₂ : n₂.now = n.now := hstep.now.trans hput.now
    refine ⟨l', ?_⟩
    dsimp only
    rw [← hn₁, ← hn₂, if_pos hnone]
    refine ⟨(hput.neighborStep hstep).neighborStep hstep₃, hsym, by omega, hlisting, ?_, ?_, ?_, ?_, ?_⟩
    · exact linkTupleAdded_uniqueNeighbors
        (updatedIf_uniqueNeighbors hunique updated l' hello.willingness) _ _
    · intro a ha
      rw [schedule_m_state, linkTupleAdded_status, if_neg (hmain₂ ▸ ha)]
      exact hother a ha
    · intro _
      rw [schedule_m_state, linkTupleAdded_status, if_pos hmain₂.symm, hnow₂]
    · intro hsome
      rw [Option.isNone_iff_eq_none.mp hnone] at hsome
      cases hsome
    · intro _ hle
      refine ⟨_, List.mem_append_right _ (List.mem_singleton_self _), by rw [hiface'], ?_⟩
      -- neither time of the link has passed
      have hmin : ¬ min l'.time l'.symTime < n.now := by
        have htime : l'.time ≥ n.now + msg.vTime := hasym ▸ le_max_right _ _
        omega
      rw [hnow₃, if_neg hmin]
      exact add_le_add_left (min_le_right l'.time l'.symTime) oneMicrosecond
  · have htrue : updated = true := hupdated (by simpa [Option.isSome_iff_ne_none] using hnone)
    refine ⟨l', ?_⟩
    dsimp only
    rw [← hn₁, ← hn₂, if_neg hnone]
    refine ⟨hput.neighborStep hstep, hsym, by omega, hlisting,
      updatedIf_uniqueNeighbors hunique updated l' hello.willingness, hother, ?_, ?_, ?_⟩
    · exact fun h ↦ absurd h hnone
    · intro _
      rw [hn₂, if_pos htrue, linkTupleUpdated_status, if_pos hmain.symm]
      exact congrArg some (if_congr
        (n₁.linkTupleUpdated_neighborStep l' hello.willingness).hasSymmetricLink.symm rfl rfl)
    · exact fun h ↦ absurd h hnone

section LinkSensed

variable {msg : MessageHeader} {hello : Hello} {r s : Ipv4Address} {l : LinkTuple}

theorem LinkSensed.symTime_cases (hl : LinkSensed n n' msg hello r s l) :
    (hello.Hears r ∧ l.symTime = n.now + msg.vTime) ∨
      (hello.Loses r ∧ l.symTime = n.now - oneSecond) ∨
      (¬ hello.Loses r ∧ l.symTime =
        ((n.m_state.findLinkTuple s).map LinkTuple.symTime).getD (n.now - oneSecond)) := by
  have hsym := hl.symTime
  cases hlast : lastListing r hello.linkMessages with
  | none =>
    rw [hlast] at hsym
    exact .inr (.inr ⟨by simp [Hello.Loses, hlast], hsym⟩)
  | some t =>
    rw [hlast] at hsym
    cases t with
    | OLSR_UNSPEC_LINK => exact absurd hlast hl.listing
    | OLSR_ASYM_LINK => exact .inl ⟨.inl hlast, hsym⟩
    | OLSR_SYM_LINK => exact .inl ⟨.inr hlast, hsym⟩
    | OLSR_LOST_LINK => exact .inr (.inl ⟨hlast, hsym⟩)

theorem LinkSensed.symTime_of_hears (hl : LinkSensed n n' msg hello r s l) (hh : hello.Hears r) :
    l.symTime = n.now + msg.vTime := by
  rw [hl.symTime]
  rcases hh with hh | hh <;>
    · rw [hh]
      rfl

theorem LinkSensed.hasSymmetricLink (hl : LinkSensed n n' msg hello r s l) :
    n'.HasSymmetricLink a ↔
      n.HasOtherSymmetricLink s a ∨ (n.getMainAddress s = a ∧ n.now ≤ l.symTime) := by
  unfold HasSymmetricLink
  simp only [hl.sensed.getMainAddress, hl.sensed.now]
  constructor
  · rintro ⟨l', hmem, hmain, hsym⟩
    rcases (hl.sensed.mem l').mp hmem with ⟨hmem, hne⟩ | rfl
    · exact .inl ⟨l', hmem, hne, hmain, hsym⟩
    · exact .inr ⟨hl.sensed.iface ▸ hmain, hsym⟩
  · rintro (⟨l', hmem, hne, hmain, hsym⟩ | ⟨hmain, hsym⟩)
    · exact ⟨l', (hl.sensed.mem l').mpr (.inl ⟨hmem, hne⟩), hmain, hsym⟩
    · exact ⟨l, (hl.sensed.mem l).mpr (.inr rfl), hl.sensed.iface.symm ▸ hmain, hsym⟩

theorem Tracking.findLinkTuple_eq (h : n.Tracking) {l' : LinkTuple} (hmem : l' ∈ n.m_state.m_linkSet)
    (hs : l'.neighborIfaceAddr = s) : n.m_state.findLinkTuple s = some l' :=
  hs ▸ OlsrState.find?_eq_some_of_nodup h.uniqueLinks hmem

/-- **A neighbor stays held**, unless its link is lost while nothing refers to it. -/
theorem LinkSensed.held (hl : LinkSensed n n' msg hello r s l) (h : n.Tracking)
    (hok : n.RegularHello msg hello r s) (ha : n.Held a) :
    n'.Held a ∨ (a = n.getMainAddress s ∧ n.Unreferenced a) := by
  have hpos := hl.vTime_pos
  have hheard : n.getMainAddress s = a → l.symTime = n.now + msg.vTime → n'.Held a := by
    intro hmain hsym
    exact .inl (hl.hasSymmetricLink.mpr (.inr ⟨hmain, by omega⟩))
  rcases ha with ⟨l', hmem, hmain, hsym⟩ | ⟨l', hmem, hmain, hsym, e, he, htimer, hdue⟩
  · by_cases hne : l'.neighborIfaceAddr = s
    · have hfind := h.findLinkTuple_eq hmem hne
      rw [hne] at hmain
      rcases hl.symTime_cases with ⟨-, ht⟩ | ⟨hloses, -⟩ | ⟨-, ht⟩
      · exact .inl (hheard hmain ht)
      · rcases hok.1 (by rw [hfind]; rfl) hloses with hother | hun
        · exact .inl (.inl (hl.hasSymmetricLink.mpr (.inl (hmain ▸ hother))))
        · exact .inr ⟨hmain.symm, hmain ▸ hun⟩
      · rw [hfind, Option.map_some, Option.getD_some] at ht
        exact .inl (.inl (hl.hasSymmetricLink.mpr (.inr ⟨hmain, ht ▸ hsym⟩)))
    · exact .inl (.inl (hl.hasSymmetricLink.mpr (.inl ⟨l', hmem, hne, hmain, hsym⟩)))
  · have hevent := hl.sensed.events e he
    by_cases hne : l'.neighborIfaceAddr = s
    · have hfind := h.findLinkTuple_eq hmem hne
      rw [hne] at hmain htimer
      have hleaving : l.symTime < n.now → n'.Held a := by
        intro hlt
        refine .inr ⟨l, (hl.sensed.mem l).mpr (.inr rfl), ?_, hl.sensed.now ▸ hlt, e, hevent, ?_, ?_⟩
        · rw [hl.sensed.iface, hl.sensed.getMainAddress, hmain]
        · rw [hl.sensed.iface, htimer]
        · exact hl.sensed.now ▸ hdue
      rcases hl.symTime_cases with ⟨-, ht⟩ | ⟨-, ht⟩ | ⟨-, ht⟩
      · exact .inl (hheard hmain ht)
      · exact .inl (hleaving (by rw [ht, oneSecond]; omega))
      · rw [hfind, Option.map_some, Option.getD_some] at ht
        exact .inl (hleaving (ht ▸ hsym))
    · refine .inl (.inr ⟨l', (hl.sensed.mem l').mpr (.inl ⟨hmem, hne⟩), ?_, hl.sensed.now ▸ hsym, e,
        hevent, htimer, hl.sensed.now ▸ hdue⟩)
      rw [hl.sensed.getMainAddress, hmain]

/-- **Link sensing keeps the invariant.** -/
theorem LinkSensed.tracking (hl : LinkSensed n n' msg hello r s l) (h : n.Tracking)
    (hok : n.RegularHello msg hello r s) : n'.Tracking where
  uniqueNeighbors := hl.uniqueNeighbors
  uniqueLinks := hl.sensed.uniqueLinks
  known a := by
    simp only [hl.sensed.getMainAddress]
    by_cases ha : a = n.getMainAddress s
    · have hsome : (n'.m_state.status a).isSome := by
        rw [ha]
        by_cases hnone : (n.m_state.findLinkTuple s).isNone
        · rw [hl.status_new hnone]
          rfl
        · rw [hl.status_old (by simpa [Option.isSome_iff_ne_none] using hnone)]
          rfl
      refine iff_of_true hsome ⟨l, (hl.sensed.mem l).mpr (.inr rfl), ?_⟩
      rw [hl.sensed.iface, ha]
    · rw [hl.status_other a ha, h.known a]
      constructor
      · rintro ⟨l', hmem, rfl⟩
        exact ⟨l', (hl.sensed.mem l').mpr (.inl ⟨hmem, fun hs ↦ ha (by rw [hs])⟩), rfl⟩
      · rintro ⟨l', hmem, rfl⟩
        rcases (hl.sensed.mem l').mp hmem with ⟨hmem, -⟩ | rfl
        · exact ⟨l', hmem, rfl⟩
        · exact absurd (by rw [hl.sensed.iface]) ha
  sym a hst := by
    by_cases ha : a = n.getMainAddress s
    · subst ha
      refine .inl ?_
      by_cases hnone : (n.m_state.findLinkTuple s).isNone
      · rw [hl.status_new hnone] at hst
        split_ifs at hst with hsym
        · exact hl.hasSymmetricLink.mpr (.inr ⟨rfl, hsym⟩)
        · cases hst
      · rw [hl.status_old (by simpa [Option.isSome_iff_ne_none] using hnone)] at hst
        split_ifs at hst with hsym
        · exact hsym
        · cases hst
    · rw [hl.status_other a ha] at hst
      rcases hl.held h hok (h.sym a hst) with hheld | ⟨heq, -⟩
      · exact hheld
      · exact absurd heq ha
  notSym a hst := by
    by_cases ha : a = n.getMainAddress s
    · subst ha
      by_cases hnone : (n.m_state.findLinkTuple s).isNone
      · rw [hl.status_new hnone] at hst
        split_ifs at hst with hsym
        · cases hst
        · rw [hl.hasSymmetricLink]
          rintro (⟨l', hmem, -, hmain, hsym'⟩ | ⟨-, hsym'⟩)
          · -- the first HELLO on a link of a symmetric neighbor hears the node
            have ht := hl.symTime_of_hears (hok.2.1 hnone ⟨l', hmem, hmain, hsym'⟩)
            have hpos := hl.vTime_pos
            omega
          · exact hsym hsym'
      · rw [hl.status_old (by simpa [Option.isSome_iff_ne_none] using hnone)] at hst
        split_ifs at hst with hsym
        · cases hst
        · exact hsym
    · rw [hl.status_other a ha] at hst
      rw [hl.hasSymmetricLink]
      rintro (⟨l', hmem, -, hmain, hsym⟩ | ⟨hmain, -⟩)
      · exact h.notSym a hst ⟨l', hmem, hmain, hsym⟩
      · exact ha hmain.symm
  twoHop t ht := by
    rw [hl.sensed.twoHop] at ht
    rcases hl.held h hok (h.twoHop t ht) with hheld | ⟨-, hun⟩
    · exact hheld
    · exact absurd rfl (hun.1 t ht)
  mprSelector t ht := by
    rw [hl.sensed.mprSelector] at ht
    rcases hl.held h hok (h.mprSelector t ht) with hheld | ⟨-, hun⟩
    · exact hheld
    · exact absurd rfl (hun.2 t ht)
  passed l' hmem hlt := by
    rw [hl.sensed.now] at hlt ⊢
    rcases (hl.sensed.mem l').mp hmem with ⟨hmem, -⟩ | rfl
    · exact h.passed l' hmem hlt
    · have hpos := hl.vTime_pos
      rcases hl.symTime_cases with ⟨-, ht⟩ | ⟨-, ht⟩ | ⟨-, ht⟩
      · omega
      · rw [ht, oneSecond, oneMicrosecond]
        omega
      · cases hfind : n.m_state.findLinkTuple s with
        | none =>
          rw [ht, hfind, oneMicrosecond]
          change n.now - oneSecond + 1000 ≤ n.now
          rw [oneSecond]
          omega
        | some x =>
          rw [hfind, Option.map_some, Option.getD_some] at ht
          rw [ht]
          exact h.passed x (List.mem_of_find?_eq_some hfind) (ht ▸ hlt)
  timer l' hmem hle := by
    rw [hl.sensed.now] at hle
    rcases (hl.sensed.mem l').mp hmem with ⟨hmem, -⟩ | rfl
    · obtain ⟨e, he, htimer, hdue⟩ := h.timer l' hmem hle
      exact ⟨e, hl.sensed.events e he, htimer, hdue⟩
    · rw [hl.sensed.iface]
      cases hfind : n.m_state.findLinkTuple s with
      | none => exact hl.timer (by rw [hfind]; rfl) hle
      | some x =>
        have hxs : x.neighborIfaceAddr = s := by simpa using List.find?_some hfind
        rcases hl.symTime_cases with ⟨hhears, ht⟩ | ⟨-, ht⟩ | ⟨-, ht⟩
        · obtain ⟨e, he, htimer, hdue⟩ := hok.2.2.1 (by rw [hfind]; rfl) hhears
          exact ⟨e, hl.sensed.events e he, htimer, ht ▸ hdue⟩
        · rw [ht, oneSecond] at hle
          omega
        · rw [hfind, Option.map_some, Option.getD_some] at ht
          obtain ⟨e, he, htimer, hdue⟩ :=
            h.timer x (List.mem_of_find?_eq_some hfind) (ht ▸ hle)
          exact ⟨e, hl.sensed.events e he, hxs ▸ htimer, ht ▸ hdue⟩

end LinkSensed

/-! ## Steps that leave the links alone -/

/-- The links are as they were, and their main addresses are mapped. -/
structure Renames (g : Ipv4Address → Ipv4Address) (n n' : Node) : Prop where
  now : n'.now = n.now
  links : n'.m_state.m_linkSet = n.m_state.m_linkSet
  main : ∀ l ∈ n.m_state.m_linkSet,
    n'.getMainAddress l.neighborIfaceAddr = g (n.getMainAddress l.neighborIfaceAddr)
  leaving : ∀ l ∈ n.m_state.m_linkSet, l.symTime < n.now → ∀ e ∈ n.m_events,
    e.timer = .linkTupleTimerExpire l.neighborIfaceAddr → e ∈ n'.m_events
  timer : ∀ l ∈ n.m_state.m_linkSet, n.now ≤ l.symTime → (∃ e ∈ n.m_events,
    e.timer = .linkTupleTimerExpire l.neighborIfaceAddr ∧ e.time ≤ l.symTime + oneMicrosecond) →
      ∃ e ∈ n'.m_events,
        e.timer = .linkTupleTimerExpire l.neighborIfaceAddr ∧ e.time ≤ l.symTime + oneMicrosecond

section Renames

variable {g : Ipv4Address → Ipv4Address}

theorem Renames.hasSymmetricLink (hg : Renames g n n') :
    n'.HasSymmetricLink a ↔ ∃ b, g b = a ∧ n.HasSymmetricLink b := by
  unfold HasSymmetricLink
  rw [hg.links, hg.now]
  constructor
  · rintro ⟨l, hl, hmain, hsym⟩
    exact ⟨_, (hg.main l hl).symm.trans hmain, l, hl, rfl, hsym⟩
  · rintro ⟨b, rfl, l, hl, rfl, hsym⟩
    exact ⟨l, hl, hg.main l hl, hsym⟩

theorem Renames.held (hg : Renames g n n') (ha : n.Held a) : n'.Held (g a) := by
  rcases ha with hsym | ⟨l, hl, rfl, hlt, e, he, htimer, hdue⟩
  · exact .inl (hg.hasSymmetricLink.mpr ⟨a, rfl, hsym⟩)
  · exact .inr ⟨l, hg.links.symm ▸ hl, hg.main l hl, hg.now.symm ▸ hlt, e,
      hg.leaving l hl hlt e he htimer, htimer, hg.now.symm ▸ hdue⟩

/-- **A step that renames the neighbors with their links keeps the invariant.** -/
theorem Tracking.renames (h : n.Tracking) (hg : Renames g n n') (hunique : n'.m_state.UniqueNeighbors)
    (hstatus : ∀ b st, n'.m_state.status b = some st ↔ ∃ a, g a = b ∧ n.m_state.status a = some st)
    (htwoHop : ∀ t ∈ n'.m_state.m_twoHopNeighborSet, n'.Held t.neighborMainAddr)
    (hselector : ∀ t ∈ n'.m_state.m_mprSelectorSet, n'.Held t.mainAddr) : n'.Tracking where
  uniqueNeighbors := hunique
  uniqueLinks := by
    rw [hg.links]
    exact h.uniqueLinks
  known b := by
    rw [hg.links, Option.isSome_iff_exists]
    constructor
    · rintro ⟨st, hst⟩
      obtain ⟨a, rfl, ha⟩ := (hstatus b st).mp hst
      obtain ⟨l, hl, rfl⟩ := (h.known a).mp (Option.isSome_iff_exists.mpr ⟨st, ha⟩)
      exact ⟨l, hl, hg.main l hl⟩
    · rintro ⟨l, hl, rfl⟩
      obtain ⟨st, hst⟩ := Option.isSome_iff_exists.mp ((h.known _).mpr ⟨l, hl, rfl⟩)
      exact ⟨st, (hstatus _ _).mpr ⟨_, (hg.main l hl).symm, hst⟩⟩
  sym b hst := by
    obtain ⟨a, rfl, ha⟩ := (hstatus b _).mp hst
    exact hg.held (h.sym a ha)
  notSym b hst hsym := by
    obtain ⟨a, rfl, ha⟩ := hg.hasSymmetricLink.mp hsym
    rw [(hstatus _ _).mpr ⟨a, rfl, h.status_eq ha⟩] at hst
    cases hst
  twoHop := htwoHop
  mprSelector := hselector
  passed l hl hlt := by
    rw [hg.links] at hl
    rw [hg.now] at hlt ⊢
    exact h.passed l hl hlt
  timer l hl hle := by
    rw [hg.links] at hl
    rw [hg.now] at hle
    exact hg.timer l hl hle (h.timer l hl hle)

end Renames

/-- Two-hop tuples of `P` and MPR selectors of `Q` are added to those that there were. -/
structure Adds (P Q : Ipv4Address → Prop) (n n' : Node) : Prop where
  now : n'.now = n.now
  mainAddress : n'.m_mainAddress = n.m_mainAddress
  links : n'.m_state.m_linkSet = n.m_state.m_linkSet
  getMainAddress : ∀ a, n'.getMainAddress a = n.getMainAddress a
  events : ∀ e ∈ n.m_events, ∀ x, e.timer = .linkTupleTimerExpire x → e ∈ n'.m_events
  uniqueNeighbors : n.m_state.UniqueNeighbors → n'.m_state.UniqueNeighbors
  status : ∀ a, n'.m_state.status a = n.m_state.status a
  twoHop : ∀ t ∈ n'.m_state.m_twoHopNeighborSet,
    (∃ t' ∈ n.m_state.m_twoHopNeighborSet, t'.neighborMainAddr = t.neighborMainAddr) ∨
      P t.neighborMainAddr
  mprSelector : ∀ t ∈ n'.m_state.m_mprSelectorSet,
    (∃ t' ∈ n.m_state.m_mprSelectorSet, t'.mainAddr = t.mainAddr) ∨ Q t.mainAddr

section Adds

variable {P Q : Ipv4Address → Prop} {n'' : Node}

theorem Adds.refl (n : Node) : Adds P Q n n :=
  ⟨rfl, rfl, rfl, fun _ ↦ rfl, fun _ h _ _ ↦ h, id, fun _ ↦ rfl, fun t ht ↦ .inl ⟨t, ht, rfl⟩,
    fun t ht ↦ .inl ⟨t, ht, rfl⟩⟩

theorem Adds.trans (h : Adds P Q n n') (h' : Adds P Q n' n'') : Adds P Q n n'' where
  now := h'.now.trans h.now
  mainAddress := h'.mainAddress.trans h.mainAddress
  links := h'.links.trans h.links
  getMainAddress a := (h'.getMainAddress a).trans (h.getMainAddress a)
  events e he x hx := h'.events e (h.events e he x hx) x hx
  uniqueNeighbors hu := h'.uniqueNeighbors (h.uniqueNeighbors hu)
  status a := (h'.status a).trans (h.status a)
  twoHop t ht := by
    rcases h'.twoHop t ht with ⟨t', ht', heq⟩ | hp
    · exact heq ▸ h.twoHop t' ht'
    · exact .inr hp
  mprSelector t ht := by
    rcases h'.mprSelector t ht with ⟨t', ht', heq⟩ | hq
    · exact heq ▸ h.mprSelector t' ht'
    · exact .inr hq

theorem Adds.foldl {α : Type*} {f : Node → α → Node} {l : List α}
    (h : ∀ n', Adds P Q n n' → ∀ x ∈ l, Adds P Q n' (f n' x)) : Adds P Q n (l.foldl f n) := by
  suffices hall : ∀ n', Adds P Q n n' → Adds P Q n (l.foldl f n') from hall n (.refl n)
  induction l with
  | nil => exact fun _ h ↦ h
  | cons x l ih =>
    intro n' hn'
    exact ih (fun n' hn' y hy ↦ h n' hn' y (List.mem_cons_of_mem x hy)) (f n' x)
      (hn'.trans (h n' hn' x List.mem_cons_self))

theorem Adds.renames (h : Adds P Q n n') : Renames id n n' :=
  ⟨h.now, h.links, fun _ _ ↦ h.getMainAddress _, fun _ _ _ e he htimer ↦ h.events e he _ htimer,
    fun _ _ _ ⟨e, he, htimer, hdue⟩ ↦ ⟨e, h.events e he _ htimer, htimer, hdue⟩⟩

/-- **A step that adds tuples of neighbors that are held keeps the invariant.** -/
theorem Tracking.adds (h : n.Tracking) (hadds : Adds P Q n n') (hp : ∀ a, P a → n.Held a)
    (hq : ∀ a, Q a → n.Held a) : n'.Tracking := by
  refine h.renames hadds.renames (hadds.uniqueNeighbors h.uniqueNeighbors) (fun b st ↦ ?_)
    (fun t ht ↦ ?_) fun t ht ↦ ?_
  · rw [hadds.status]
    simp
  · rcases hadds.twoHop t ht with ⟨t', ht', heq⟩ | ht
    · exact heq ▸ hadds.renames.held (h.twoHop t' ht')
    · exact hadds.renames.held (hp _ ht)
  · rcases hadds.mprSelector t ht with ⟨t', ht', heq⟩ | ht
    · exact heq ▸ hadds.renames.held (h.mprSelector t' ht')
    · exact hadds.renames.held (hq _ ht)

end Adds

/-! ## The rest of a HELLO -/

section Hello

variable {P Q : Ipv4Address → Prop} {msg : MessageHeader} {hello : Hello}

theorem exists_mem_of_mem_updateFirst {α β : Type*} {p : α → Prop} [DecidablePred p] {f : α → α}
    {g : α → β} (h : ∀ x, p x → g (f x) = g x) {l : List α} {y : α} (hy : y ∈ updateFirst p f l) :
    ∃ x ∈ l, g x = g y := by
  have hmem : g y ∈ (updateFirst p f l).map g := List.mem_map_of_mem hy
  rw [map_updateFirst h] at hmem
  exact List.mem_map.mp hmem

theorem modifyState_adds {f : OlsrState → OlsrState}
    (hlinks : (f n.m_state).m_linkSet = n.m_state.m_linkSet)
    (hneighbors : (f n.m_state).m_neighborSet = n.m_state.m_neighborSet)
    (hassoc : (f n.m_state).m_ifaceAssocSet = n.m_state.m_ifaceAssocSet)
    (htwoHop : ∀ t ∈ (f n.m_state).m_twoHopNeighborSet,
      (∃ t' ∈ n.m_state.m_twoHopNeighborSet, t'.neighborMainAddr = t.neighborMainAddr) ∨
        P t.neighborMainAddr)
    (hselector : ∀ t ∈ (f n.m_state).m_mprSelectorSet,
      (∃ t' ∈ n.m_state.m_mprSelectorSet, t'.mainAddr = t.mainAddr) ∨ Q t.mainAddr) :
    Adds P Q n (n.modifyState f) where
  now := rfl
  mainAddress := rfl
  links := hlinks
  getMainAddress a := by
    rw [getMainAddress, getMainAddress, modifyState_m_state, OlsrState.getMainAddress,
      OlsrState.findIfaceAssocTuple, hassoc]
    rfl
  events _ h _ _ := h
  uniqueNeighbors hu := hu.of_map (by rw [modifyState_m_state, hneighbors])
  status a := OlsrState.status_congr hneighbors
  twoHop := htwoHop
  mprSelector := hselector

theorem schedule_adds (n : Node) (time : ℤ) (timer : Timer) : Adds P Q n (n.schedule time timer) :=
  { Adds.refl n with events := fun _ h _ _ ↦ List.mem_append_left _ h }

theorem incrementAnsn_adds (n : Node) : Adds P Q n n.incrementAnsn := { Adds.refl n with }

theorem routingTableComputation_adds (n : Node) : Adds P Q n n.routingTableComputation :=
  { Adds.refl n with }

theorem mprComputation_adds (n : Node) : Adds P Q n n.mprComputation :=
  modifyState_adds rfl rfl rfl (fun t ht ↦ .inl ⟨t, ht, rfl⟩) fun t ht ↦ .inl ⟨t, ht, rfl⟩

theorem populateNeighborSet_adds (n : Node) (msg : MessageHeader) (hello : Hello) :
    Adds P Q n (n.populateNeighborSet msg hello) :=
  { Adds.refl n with
    uniqueNeighbors := fun hu ↦ hu.of_map (map_updateFirst
      (p := fun t : NeighborTuple ↦ t.neighborMainAddr = msg.originatorAddress)
      (f := fun t : NeighborTuple ↦ { t with willingness := hello.willingness })
      (g := NeighborTuple.neighborMainAddr) (fun _ _ ↦ by rfl) n.m_state.m_neighborSet)
    status := fun a ↦ by
      have hfind := @find?_updateFirst _ _ _ NeighborTuple.neighborMainAddr msg.originatorAddress
        (fun t ↦ { t with willingness := hello.willingness }) (fun _ h ↦ h) n.m_state.m_neighborSet a
      rw [populateNeighborSet, modifyState_m_state, OlsrState.status, OlsrState.findNeighborTuple, hfind]
      split_ifs
      · rw [Option.map_map]
        rfl
      · rfl }

theorem populateTwoHopNeighbor_adds (hp : P msg.originatorAddress) (n : Node) (neighborType : ℕ)
    (addr : Ipv4Address) : Adds P Q n (n.populateTwoHopNeighbor msg neighborType addr) := by
  have hselector : ∀ t ∈ n.m_state.m_mprSelectorSet,
      (∃ t' ∈ n.m_state.m_mprSelectorSet, t'.mainAddr = t.mainAddr) ∨ Q t.mainAddr :=
    fun t ht ↦ .inl ⟨t, ht, rfl⟩
  unfold populateTwoHopNeighbor
  dsimp only
  split_ifs
  · exact .refl n
  · split
    · refine (modifyState_adds rfl rfl rfl (fun t ht ↦ ?_) hselector).trans (schedule_adds _ _ _)
      rcases List.mem_append.mp ht with ht | ht
      · exact .inl ⟨t, ht, rfl⟩
      · obtain rfl := List.mem_singleton.mp ht
        exact .inr hp
    · refine modifyState_adds rfl rfl rfl (fun t ht ↦ .inl ?_) hselector
      exact exists_mem_of_mem_updateFirst
        (g := TwoHopNeighborTuple.neighborMainAddr) (fun _ _ ↦ by rfl) ht
  · exact modifyState_adds rfl rfl rfl (fun t ht ↦ .inl ⟨t, (List.mem_filter.mp ht).1, rfl⟩) hselector
  · exact .refl n

/-- **Two-hop tuples are only added for a neighbor with a symmetric link.** -/
theorem populateTwoHopNeighborSet_adds (n : Node) (msg : MessageHeader) (hello : Hello) :
    Adds (fun a ↦ a = msg.originatorAddress ∧ n.HasSymmetricLink a) Q n
      (n.populateTwoHopNeighborSet msg hello) := by
  refine Adds.foldl fun n' hn' l hl ↦ ?_
  split_ifs with hcond
  · exact .refl n'
  · rw [not_or, not_not, hn'.getMainAddress, hn'.now] at hcond
    have hp : n.HasSymmetricLink msg.originatorAddress := ⟨l, hl, hcond.1, not_lt.mp hcond.2⟩
    exact Adds.foldl fun _ _ m _ ↦ Adds.foldl fun n₂ _ a _ ↦
      populateTwoHopNeighbor_adds ⟨rfl, hp⟩ n₂ m.neighborType a

theorem populateMprSelector_adds (n : Node) (addr : Ipv4Address)
    (hq : n.getMainAddress addr = n.m_mainAddress → Q msg.originatorAddress) :
    Adds P Q n (n.populateMprSelector msg addr) := by
  have htwoHop : ∀ t ∈ n.m_state.m_twoHopNeighborSet,
      (∃ t' ∈ n.m_state.m_twoHopNeighborSet, t'.neighborMainAddr = t.neighborMainAddr) ∨
        P t.neighborMainAddr := fun t ht ↦ .inl ⟨t, ht, rfl⟩
  unfold populateMprSelector
  split_ifs with haddr
  · split
    · refine ((modifyState_adds rfl rfl rfl htwoHop fun t ht ↦ ?_).trans
        (incrementAnsn_adds _)).trans (schedule_adds _ _ _)
      rcases List.mem_append.mp ht with ht | ht
      · exact .inl ⟨t, ht, rfl⟩
      · obtain rfl := List.mem_singleton.mp ht
        exact .inr (hq haddr)
    · refine modifyState_adds rfl rfl rfl htwoHop fun t ht ↦ .inl ?_
      exact exists_mem_of_mem_updateFirst (g := MprSelectorTuple.mainAddr) (fun _ _ ↦ by rfl) ht
  · exact .refl n

/-- **The originator is only added as an MPR selector where it selects the node.** -/
theorem populateMprSelectorSet_adds (n : Node) (msg : MessageHeader) (hello : Hello) :
    Adds P (fun a ↦ a = msg.originatorAddress ∧ n.Selects hello) n
      (n.populateMprSelectorSet msg hello) := by
  refine Adds.foldl fun n' hn' m hm ↦ ?_
  split_ifs with hcode
  · refine Adds.foldl fun n₂ hn₂ a ha ↦ populateMprSelector_adds n₂ a fun haddr ↦ ⟨rfl, m, hm, hcode, a, ha, ?_⟩
    rw [hn₂.getMainAddress, hn'.getMainAddress, hn₂.mainAddress, hn'.mainAddress] at haddr
    exact haddr
  · exact .refl n'

end Hello

theorem LinkSensed.hasSymmetricLink_of_selects {msg : MessageHeader} {hello : Hello}
    {r s : Ipv4Address} {l : LinkTuple} (hl : LinkSensed n n' msg hello r s l) (h : n.Tracking)
    (hok : n.RegularHello msg hello r s) (hselects : n.Selects hello) :
    n'.HasSymmetricLink msg.originatorAddress := by
  have hpos := hl.vTime_pos
  rw [hl.hasSymmetricLink]
  rcases hok.2.2.2 hselects with ⟨hmain, hhears⟩ | ⟨hloses, l', hmem, hmain, hsym⟩ | hother
  · have ht := hl.symTime_of_hears hhears
    exact .inr ⟨hmain, by omega⟩
  · by_cases hne : l'.neighborIfaceAddr = s
    · refine .inr ⟨hne ▸ hmain, ?_⟩
      rcases hl.symTime_cases with ⟨-, ht⟩ | ⟨hl', -⟩ | ⟨-, ht⟩
      · omega
      · exact absurd hl' hloses
      · rw [h.findLinkTuple_eq hmem hne, Option.map_some, Option.getD_some] at ht
        exact ht ▸ hsym
    · exact .inl ⟨l', hmem, hne, hmain, hsym⟩
  · exact .inl hother

/-- **A HELLO keeps the invariant.** -/
theorem Tracking.processHello {msg : MessageHeader} {hello : Hello} {r s : Ipv4Address}
    (h : n.Tracking) (hok : n.RegularHello msg hello r s)
    (hs : n.processHello msg hello r s = some n') : n'.Tracking := by
  obtain ⟨n₁, hsensing, rfl⟩ := Option.map_eq_some_iff.mp hs
  obtain ⟨l, hl⟩ := linkSensing_spec h hsensing
  have h₁ := hl.tracking h hok
  have hadds₂ : Adds (fun _ ↦ False) (fun _ ↦ False) n₁ (n₁.populateNeighborSet msg hello) :=
    populateNeighborSet_adds n₁ msg hello
  set n₂ := n₁.populateNeighborSet msg hello
  have h₂ := h₁.adds hadds₂ (fun _ ↦ False.elim) fun _ ↦ False.elim
  have hadds₃ := (populateTwoHopNeighborSet_adds (Q := fun _ ↦ False) n₂ msg hello).trans
    (mprComputation_adds _)
  have h₃ := h₂.adds hadds₃ (fun _ ha ↦ .inl ha.2) fun _ ↦ False.elim
  set n₃ := (n₂.populateTwoHopNeighborSet msg hello).mprComputation
  refine h₃.adds (populateMprSelectorSet_adds (P := fun _ ↦ False) n₃ msg hello)
    (fun _ ↦ False.elim) ?_
  rintro _ ⟨rfl, m, hm, hcode, a, ha, haddr⟩
  rw [hadds₃.getMainAddress, hadds₂.getMainAddress, hl.sensed.getMainAddress, hadds₃.mainAddress,
    hadds₂.mainAddress, hl.sensed.mainAddress] at haddr
  have hsym := hl.hasSymmetricLink_of_selects h hok ⟨m, hm, hcode, a, ha, haddr⟩
  exact hadds₃.renames.held (hadds₂.renames.held (.inl hsym))

/-! ## TC and MID messages -/

theorem processTcAddress_adds {P Q : Ipv4Address → Prop} (n : Node) (msg : MessageHeader) (ansn : ℕ)
    (addr : Ipv4Address) : Adds P Q n (n.processTcAddress msg ansn addr) := by
  unfold processTcAddress
  split
  · exact modifyState_adds rfl rfl rfl (fun t ht ↦ .inl ⟨t, ht, rfl⟩) fun t ht ↦ .inl ⟨t, ht, rfl⟩
  · exact (modifyState_adds rfl rfl rfl (fun t ht ↦ .inl ⟨t, ht, rfl⟩)
      fun t ht ↦ .inl ⟨t, ht, rfl⟩).trans (schedule_adds _ _ _)

theorem processTc_adds {P Q : Ipv4Address → Prop} (n : Node) (msg : MessageHeader) (tc : Tc)
    (senderIface : Ipv4Address) : Adds P Q n (n.processTc msg tc senderIface) := by
  unfold processTc
  split_ifs
  · exact .refl n
  · exact .refl n
  · exact (modifyState_adds rfl rfl rfl (fun t ht ↦ .inl ⟨t, ht, rfl⟩)
      fun t ht ↦ .inl ⟨t, ht, rfl⟩).trans
        (Adds.foldl fun _ _ a _ ↦ processTcAddress_adds _ msg tc.ansn a)

/-- The main address that an association gives. -/
def assocMain (n : Node) (a : Ipv4Address) : Option Ipv4Address :=
  (n.m_state.findIfaceAssocTuple a).map IfaceAssocTuple.mainAddr

theorem getMainAddress_eq (n : Node) (a : Ipv4Address) :
    n.getMainAddress a = (n.assocMain a).getD a := by
  rw [getMainAddress, OlsrState.getMainAddress, assocMain]
  cases n.m_state.findIfaceAssocTuple a <;> rfl

/-- Only associations are added. -/
structure MidStep (n n' : Node) : Prop where
  state : n'.m_state = { n.m_state with m_ifaceAssocSet := n'.m_state.m_ifaceAssocSet }
  now : n'.now = n.now
  events : ∀ e ∈ n.m_events, e ∈ n'.m_events

theorem processMidAddress_midStep (n : Node) (msg : MessageHeader) (addr : Ipv4Address) :
    MidStep n (n.processMidAddress msg addr) := by
  unfold processMidAddress
  split_ifs
  · exact ⟨rfl, rfl, fun _ h ↦ h⟩
  · exact ⟨rfl, rfl, fun _ h ↦ List.mem_append_left _ h⟩

theorem renewed_assocMain (n : Node) (addr mainAddr a : Ipv4Address) (time : ℤ) :
    (n.modifyState fun s ↦ { s with
      m_ifaceAssocSet := s.m_ifaceAssocSet.map fun t ↦
        if t.ifaceAddr = addr ∧ t.mainAddr = mainAddr then { t with time := time }
        else t }).assocMain a = n.assocMain a := by
  rw [assocMain, assocMain, modifyState_m_state, OlsrState.findIfaceAssocTuple, List.find?_map,
    Option.map_map]
  have hmain : (IfaceAssocTuple.mainAddr ∘ fun t : IfaceAssocTuple ↦
      if t.ifaceAddr = addr ∧ t.mainAddr = mainAddr then { t with time := time } else t) =
      IfaceAssocTuple.mainAddr := by
    funext t
    rw [Function.comp_apply]
    split_ifs <;> rfl
  have hiface : ((fun t : IfaceAssocTuple ↦ decide (t.ifaceAddr = a)) ∘ fun t : IfaceAssocTuple ↦
      if t.ifaceAddr = addr ∧ t.mainAddr = mainAddr then { t with time := time } else t) =
      fun t : IfaceAssocTuple ↦ decide (t.ifaceAddr = a) := by
    funext t
    rw [Function.comp_apply]
    split_ifs <;> rfl
  rw [hmain, hiface]
  rfl

/-- **An address of a MID message gets its originator as main address where it had none.** -/
theorem processMidAddress_assocMain (n : Node) (msg : MessageHeader) (addr a : Ipv4Address) :
    (n.processMidAddress msg addr).assocMain a =
      (n.assocMain a).or (if a = addr then some msg.originatorAddress else none) := by
  unfold processMidAddress
  split_ifs with hex ha ha
  · obtain ⟨t, ht, hiface, -⟩ := hex
    have hsome : (n.m_state.findIfaceAssocTuple a).isSome :=
      List.find?_isSome.mpr ⟨t, ht, by simp [hiface, ha]⟩
    obtain ⟨t', ht'⟩ := Option.isSome_iff_exists.mp hsome
    rw [renewed_assocMain, assocMain, ht']
    rfl
  · rw [renewed_assocMain, Option.or_none]
  · rw [assocMain, schedule_m_state, modifyState_m_state, OlsrState.findIfaceAssocTuple,
      List.find?_append, Option.map_or, List.find?_cons]
    simp [ha, assocMain, OlsrState.findIfaceAssocTuple]
  · rw [assocMain, schedule_m_state, modifyState_m_state, OlsrState.findIfaceAssocTuple,
      List.find?_append, Option.map_or, List.find?_cons]
    simp [Ne.symm ha, assocMain, OlsrState.findIfaceAssocTuple]

theorem MidStep.foldl (msg : MessageHeader) (addrs : List Ipv4Address) (n : Node) :
    MidStep n (addrs.foldl (fun n a ↦ n.processMidAddress msg a) n) ∧
      ∀ a, (addrs.foldl (fun n a ↦ n.processMidAddress msg a) n).assocMain a =
        (n.assocMain a).or (if a ∈ addrs then some msg.originatorAddress else none) := by
  induction addrs generalizing n with
  | nil => exact ⟨⟨rfl, rfl, fun _ h ↦ h⟩, fun a ↦ by simp⟩
  | cons x addrs ih =>
    obtain ⟨hstep, hassoc⟩ := ih (n.processMidAddress msg x)
    have hx := n.processMidAddress_midStep msg x
    refine ⟨⟨?_, hstep.now.trans hx.now, fun e he ↦ hstep.events e (hx.events e he)⟩, fun a ↦ ?_⟩
    · rw [List.foldl_cons, hstep.state, hx.state]
    · rw [List.foldl_cons, hassoc, processMidAddress_assocMain, Option.or_assoc]
      by_cases ha : a = x
      · simp [ha]
      · simp [ha]

/-- **The main addresses behind a MID message.** -/
theorem foldl_processMidAddress_getMainAddress (msg : MessageHeader) (addrs : List Ipv4Address)
    (n : Node) (a : Ipv4Address) :
    (addrs.foldl (fun n a ↦ n.processMidAddress msg a) n).getMainAddress a =
      n.mainAddressAfter msg addrs a := by
  rw [getMainAddress_eq, (MidStep.foldl msg addrs n).2, mainAddressAfter, getMainAddress_eq, assocMain]
  cases hfind : n.m_state.findIfaceAssocTuple a with
  | none => by_cases ha : a ∈ addrs <;> simp [ha]
  | some t => simp

/-- **A MID message that renames the neighbors as it does their links keeps the invariant.** -/
theorem Tracking.processMid {msg : MessageHeader} {addrs : List Ipv4Address} {s : Ipv4Address}
    (h : n.Tracking) (hok : (n.m_state.findSymLinkTuple s n.now).isNone ∨ n.RegularMid msg addrs) :
    (n.processMid msg addrs s).Tracking := by
  unfold Node.processMid
  split_ifs with hsender
  · exact h
  · obtain ⟨hlinks, hinj, hselectors⟩ := hok.resolve_left hsender
    obtain ⟨hstep, -⟩ := MidStep.foldl msg addrs n
    have hmain := foldl_processMidAddress_getMainAddress msg addrs n
    set n₁ := addrs.foldl (fun n a ↦ n.processMidAddress msg a) n
    have hneighbors : n₁.m_state.m_neighborSet = n.m_state.m_neighborSet := by rw [hstep.state]
    have htwoHop : n₁.m_state.m_twoHopNeighborSet = n.m_state.m_twoHopNeighborSet := by rw [hstep.state]
    have hselector : n₁.m_state.m_mprSelectorSet = n.m_state.m_mprSelectorSet := by rw [hstep.state]
    have hlinkSet : n₁.m_state.m_linkSet = n.m_state.m_linkSet := by rw [hstep.state]
    have hg : Renames (n.mainAddressAfter msg addrs) n n₁.renameTuples :=
      ⟨hstep.now, hlinkSet, fun l hl ↦ (hmain _).trans (hlinks l hl).symm,
        fun _ _ _ e he _ ↦ hstep.events e he,
        fun _ _ _ ⟨e, he, htimer, hdue⟩ ↦ ⟨e, hstep.events e he, htimer, hdue⟩⟩
    have hrenamed : n₁.renameTuples.m_state.m_neighborSet = n.m_state.m_neighborSet.map fun t ↦
        { t with neighborMainAddr := n.mainAddressAfter msg addrs t.neighborMainAddr } := by
      rw [← hneighbors]
      refine List.map_congr_left fun t _ ↦ ?_
      rw [← hmain]
      rfl
    have hunique : n₁.renameTuples.m_state.UniqueNeighbors := by
      have hmap : ((n.m_state.m_neighborSet.map NeighborTuple.neighborMainAddr).map
          (n.mainAddressAfter msg addrs)).Nodup := by
        refine List.Nodup.map_on ?_ h.uniqueNeighbors
        intro x hx y hy hxy
        obtain ⟨nb, hnb, rfl⟩ := List.mem_map.mp hx
        obtain ⟨nb', hnb', rfl⟩ := List.mem_map.mp hy
        exact hinj nb hnb nb' hnb' hxy
      rw [OlsrState.UniqueNeighbors, hrenamed, List.map_map]
      rw [List.map_map] at hmap
      exact hmap
    refine h.renames hg hunique (fun b st ↦ ?_) (fun t ht ↦ ?_) fun t ht ↦ ?_
    · rw [OlsrState.status_eq_some hunique, hrenamed]
      simp only [OlsrState.status_eq_some h.uniqueNeighbors]
      constructor
      · rintro ⟨nb, hnb, rfl, hst⟩
        obtain ⟨nb', hnb', rfl⟩ := List.mem_map.mp hnb
        exact ⟨_, rfl, nb', hnb', rfl, hst⟩
      · rintro ⟨_, rfl, nb, hnb, rfl, hst⟩
        exact ⟨_, List.mem_map_of_mem hnb, rfl, hst⟩
    · obtain ⟨t', ht', rfl⟩ := List.mem_map.mp ht
      have := hg.held (h.twoHop t' (htwoHop ▸ ht'))
      rw [← hmain] at this
      exact this
    · have ht : t ∈ n.m_state.m_mprSelectorSet := hselector ▸ ht
      have := hg.held (h.mprSelector t ht)
      rw [hselectors t ht] at this
      exact this

/-! ## Events -/

section Timers

variable {P Q : Ipv4Address → Prop} {e : Event} {x : Ipv4Address}

/-- An event is taken out. -/
def withoutEvent (n : Node) (e : Event) : Node := { n with m_events := n.m_events.erase e }

theorem withoutEvent_adds (n : Node) (h : ∀ x, e.timer ≠ .linkTupleTimerExpire x) :
    Adds P Q n (n.withoutEvent e) :=
  { Adds.refl n with
    events := fun e' he' x hx ↦
      (List.mem_erase_of_ne fun heq ↦ h x (by rw [← heq, hx])).mpr he' }

theorem nb2hopTupleTimerExpire_adds (n : Node) (a b : Ipv4Address) :
    Adds P Q n (n.nb2hopTupleTimerExpire a b) := by
  unfold nb2hopTupleTimerExpire
  split
  · exact .refl n
  · split_ifs
    · exact modifyState_adds rfl rfl rfl (fun t ht ↦ .inl ⟨t, List.mem_of_mem_eraseP ht, rfl⟩)
        fun t ht ↦ .inl ⟨t, ht, rfl⟩
    · exact schedule_adds _ _ _

theorem mprSelTupleTimerExpire_adds (n : Node) (a : Ipv4Address) :
    Adds P Q n (n.mprSelTupleTimerExpire a) := by
  unfold mprSelTupleTimerExpire
  split
  · exact .refl n
  · split_ifs
    · exact (modifyState_adds rfl rfl rfl (fun t ht ↦ .inl ⟨t, ht, rfl⟩)
        fun t ht ↦ .inl ⟨t, List.mem_of_mem_eraseP ht, rfl⟩).trans (incrementAnsn_adds _)
    · exact schedule_adds _ _ _

theorem topologyTupleTimerExpire_adds (n : Node) (a b : Ipv4Address) :
    Adds P Q n (n.topologyTupleTimerExpire a b) := by
  unfold topologyTupleTimerExpire
  split
  · exact .refl n
  · split_ifs
    · exact modifyState_adds rfl rfl rfl (fun t ht ↦ .inl ⟨t, ht, rfl⟩)
        fun t ht ↦ .inl ⟨t, ht, rfl⟩
    · exact schedule_adds _ _ _

theorem Tracking.ifaceAssocTupleTimerExpire (h : n.Tracking)
    (hok : n.RegularTimer (.ifaceAssocTupleTimerExpire x)) :
    (n.ifaceAssocTupleTimerExpire x).Tracking := by
  unfold Node.ifaceAssocTupleTimerExpire
  split
  · exact h
  · next tuple hfind =>
    split_ifs with htime
    · have hg : Renames id n (n.modifyState fun s ↦ s.eraseIfaceAssocTuple tuple) :=
        ⟨rfl, rfl, hok tuple hfind htime, fun _ _ _ _ he _ ↦ he, fun _ _ _ he ↦ he⟩
      have hstatus : ∀ b, (n.m_state.eraseIfaceAssocTuple tuple).status b = n.m_state.status b :=
        fun _ ↦ OlsrState.status_congr rfl
      refine h.renames hg h.uniqueNeighbors (fun b st ↦ ?_)
        (fun t ht ↦ hg.held (h.twoHop t ht)) fun t ht ↦ hg.held (h.mprSelector t ht)
      rw [modifyState_m_state, hstatus]
      simp
    · exact h.adds (schedule_adds (P := fun _ ↦ False) (Q := fun _ ↦ False) _ _ _)
        (fun _ ↦ False.elim) fun _ ↦ False.elim

/-- What is not of the link of an interface is kept. -/
structure KeepsOthers (x : Ipv4Address) (n n' : Node) : Prop where
  now : n'.now = n.now
  getMainAddress : ∀ a, n'.getMainAddress a = n.getMainAddress a
  links : ∀ l ∈ n.m_state.m_linkSet, l.neighborIfaceAddr ≠ x → l ∈ n'.m_state.m_linkSet
  events : ∀ e ∈ n.m_events, ∀ y, y ≠ x → e.timer = .linkTupleTimerExpire y → e ∈ n'.m_events

theorem withoutEvent_events (n : Node) (h : e.timer = .linkTupleTimerExpire x) :
    ∀ e' ∈ n.m_events, ∀ y, y ≠ x → e'.timer = .linkTupleTimerExpire y →
      e' ∈ (n.withoutEvent e).m_events := by
  intro e' he' y hy hx
  refine (List.mem_erase_of_ne fun heq ↦ hy ?_).mpr he'
  rw [heq, h] at hx
  exact (Timer.linkTupleTimerExpire.inj hx).symm

theorem KeepsOthers.held (h : KeepsOthers x n n') (hne : a ≠ n.getMainAddress x) (ha : n.Held a) :
    n'.Held a := by
  rcases ha with ⟨l, hl, hmain, hsym⟩ | ⟨l, hl, hmain, hlt, e, he, htimer, hdue⟩
  · have hx : l.neighborIfaceAddr ≠ x := fun hx ↦ hne (by rw [← hmain, hx])
    exact .inl ⟨l, h.links l hl hx, (h.getMainAddress _).trans hmain, h.now ▸ hsym⟩
  · have hx : l.neighborIfaceAddr ≠ x := fun hx ↦ hne (by rw [← hmain, hx])
    exact .inr ⟨l, h.links l hl hx, (h.getMainAddress _).trans hmain, h.now ▸ hlt, e,
      h.events e he _ hx htimer, htimer, h.now ▸ hdue⟩

theorem mem_eraseP_of_nodup {α β : Type*} {g : α → β} {p : α → Bool} {l : List α} {z : α}
    (h : (l.map g).Nodup) (hz : z ∈ l) (hpz : p z = true) (hp : ∀ y, p y = true → g y = g z) (y : α) :
    y ∈ l.eraseP p ↔ y ∈ l ∧ g y ≠ g z := by
  induction l with
  | nil => cases hz
  | cons w l ih =>
    rw [List.map_cons, List.nodup_cons] at h
    by_cases hw : p w = true
    · rw [List.eraseP_cons_of_pos hw, List.mem_cons]
      constructor
      · intro hy
        exact ⟨.inr hy, fun heq ↦ h.1 ((hp w hw).trans heq.symm ▸ List.mem_map_of_mem hy)⟩
      · rintro ⟨rfl | hy, hne⟩
        · exact absurd (hp _ hw) hne
        · exact hy
    · have hz' : z ∈ l := by
        rcases List.mem_cons.mp hz with rfl | hz
        · exact absurd hpz hw
        · exact hz
      have hwz : g w ≠ g z := fun heq ↦ h.1 (heq ▸ List.mem_map_of_mem hz')
      rw [List.eraseP_cons_of_neg hw, List.mem_cons, List.mem_cons, ih h.2 hz']
      constructor
      · rintro (rfl | ⟨hy, hne⟩)
        · exact ⟨.inl rfl, hwz⟩
        · exact ⟨.inr hy, hne⟩
      · rintro ⟨rfl | hy, hne⟩
        · exact .inl rfl
        · exact .inr ⟨hy, hne⟩

/-- **The last link of a neighbor that nothing refers to is removed.** -/
theorem Tracking.removeLinkTuple (h : n.Tracking) {l : LinkTuple} (hl : l ∈ n.m_state.m_linkSet)
    (hx : l.neighborIfaceAddr = x) (he : e.timer = .linkTupleTimerExpire x)
    (hlast : ∀ l' ∈ n.m_state.m_linkSet, l'.neighborIfaceAddr ≠ x →
      n.getMainAddress l'.neighborIfaceAddr ≠ n.getMainAddress x)
    (hun : n.Unreferenced (n.getMainAddress x)) :
    ((n.withoutEvent e).removeLinkTuple l).Tracking := by
  have hmem : ∀ l', l' ∈ ((n.withoutEvent e).removeLinkTuple l).m_state.m_linkSet ↔
      l' ∈ n.m_state.m_linkSet ∧ l'.neighborIfaceAddr ≠ x := by
    intro l'
    rw [← hx]
    exact mem_eraseP_of_nodup h.uniqueLinks hl (by simp) (fun y hy ↦ (by simpa using hy : _ ∧ _).2) l'
  have hmainx : n.getMainAddress l.neighborIfaceAddr = n.getMainAddress x := by rw [hx]
  have hstatus : ∀ b, ((n.withoutEvent e).removeLinkTuple l).m_state.status b =
      if b = n.getMainAddress x then none else n.m_state.status b := by
    intro b
    rw [← hmainx]
    exact (OlsrState.status_congr rfl).trans (OlsrState.status_eraseNeighborTuple h.uniqueNeighbors _)
  have hkeep : KeepsOthers x n ((n.withoutEvent e).removeLinkTuple l) :=
    ⟨rfl, fun _ ↦ rfl, fun l' hl' hne ↦ (hmem l').mpr ⟨hl', hne⟩, n.withoutEvent_events he⟩
  refine ⟨?_, ?_, fun b ↦ ?_, fun b hst ↦ ?_, fun b hst ↦ ?_, fun t ht ↦ ?_, fun t ht ↦ ?_,
    fun l' hl' hlt ↦ ?_, fun l' hl' hle ↦ ?_⟩
  · exact h.uniqueNeighbors.eraseNeighborTuple (n.getMainAddress l.neighborIfaceAddr)
  · exact h.uniqueLinks.sublist (List.Sublist.map _ (List.eraseP_sublist ..))
  · rw [hstatus]
    split_ifs with hb
    · refine iff_of_false (by simp) ?_
      rintro ⟨l', hl', hmain⟩
      exact hlast l' ((hmem l').mp hl').1 ((hmem l').mp hl').2 (hmain.trans hb)
    · rw [h.known]
      constructor
      · rintro ⟨l', hl', rfl⟩
        exact ⟨l', (hmem l').mpr ⟨hl', fun hne ↦ hb (by rw [hne])⟩, rfl⟩
      · rintro ⟨l', hl', rfl⟩
        exact ⟨l', ((hmem l').mp hl').1, rfl⟩
  · rw [hstatus] at hst
    split_ifs at hst with hb
    exact hkeep.held hb (h.sym b hst)
  · rw [hstatus] at hst
    split_ifs at hst with hb
    rintro ⟨l', hl', hmain, hsym⟩
    exact h.notSym b hst ⟨l', ((hmem l').mp hl').1, hmain, hsym⟩
  · exact hkeep.held (hun.1 t ht) (h.twoHop t ht)
  · exact hkeep.held (hun.2 t ht) (h.mprSelector t ht)
  · exact h.passed l' ((hmem l').mp hl').1 hlt
  · obtain ⟨hl', hne⟩ := (hmem l').mp hl'
    obtain ⟨e', he', htimer, hdue⟩ := h.timer l' hl' hle
    exact ⟨e', n.withoutEvent_events he e' he' _ hne htimer, htimer, hdue⟩

/-- **The loss of a link is noticed**: what refers to its neighbor is gone, or another link is symmetric. -/
theorem Tracking.noticed (h : n.Tracking) {l : LinkTuple} (hl : l ∈ n.m_state.m_linkSet)
    (hx : l.neighborIfaceAddr = x) (hlt : l.symTime < n.now) (hkeep : KeepsOthers x n n')
    (hlinks : n'.m_state.m_linkSet = n.m_state.m_linkSet) (hunique : n'.m_state.UniqueNeighbors)
    (hother : ∀ b, b ≠ n.getMainAddress x → n'.m_state.status b = n.m_state.status b)
    (hstatus : n'.m_state.status (n.getMainAddress x) =
      some (if n.HasSymmetricLink (n.getMainAddress x) then .STATUS_SYM else .STATUS_NOT_SYM))
    (htwoHop : ∀ t ∈ n'.m_state.m_twoHopNeighborSet, t ∈ n.m_state.m_twoHopNeighborSet ∧
      (t.neighborMainAddr = n.getMainAddress x → n.HasSymmetricLink (n.getMainAddress x)))
    (hselector : ∀ t ∈ n'.m_state.m_mprSelectorSet, t ∈ n.m_state.m_mprSelectorSet ∧
      (t.mainAddr = n.getMainAddress x → n.HasSymmetricLink (n.getMainAddress x))) :
    n'.Tracking := by
  have hsymm : ∀ b, n'.HasSymmetricLink b ↔ n.HasSymmetricLink b := by
    intro b
    unfold HasSymmetricLink
    simp only [hlinks, hkeep.getMainAddress, hkeep.now]
  have hheld : ∀ b, (b = n.getMainAddress x → n.HasSymmetricLink (n.getMainAddress x)) → n.Held b →
      n'.Held b := by
    intro b hb hheld
    by_cases hbx : b = n.getMainAddress x
    · exact .inl ((hsymm b).mpr (hbx ▸ hb hbx))
    · exact hkeep.held hbx hheld
  refine ⟨hunique, ?_, fun b ↦ ?_, fun b hst ↦ ?_, fun b hst ↦ ?_, fun t ht ↦ ?_, fun t ht ↦ ?_,
    fun l' hl' hlt' ↦ ?_, fun l' hl' hle ↦ ?_⟩
  · rw [hlinks]
    exact h.uniqueLinks
  · simp only [hlinks, hkeep.getMainAddress]
    by_cases hb : b = n.getMainAddress x
    · refine iff_of_true ?_ ⟨l, hl, by rw [hx, hb]⟩
      rw [hb, hstatus]
      rfl
    · rw [hother b hb, h.known]
  · by_cases hb : b = n.getMainAddress x
    · rw [hb, hstatus] at hst
      split_ifs at hst with hsym
      · exact .inl ((hsymm b).mpr (hb ▸ hsym))
      · cases hst
    · rw [hother b hb] at hst
      exact hkeep.held hb (h.sym b hst)
  · rw [hsymm]
    by_cases hb : b = n.getMainAddress x
    · rw [hb, hstatus] at hst
      split_ifs at hst with hsym
      · cases hst
      · exact hb ▸ hsym
    · rw [hother b hb] at hst
      exact h.notSym b hst
  · exact hheld _ (htwoHop t ht).2 (h.twoHop t (htwoHop t ht).1)
  · exact hheld _ (hselector t ht).2 (h.mprSelector t (hselector t ht).1)
  · rw [hlinks] at hl'
    rw [hkeep.now] at hlt' ⊢
    exact h.passed l' hl' hlt'
  · rw [hlinks] at hl'
    rw [hkeep.now] at hle
    by_cases hne : l'.neighborIfaceAddr = x
    · have := (h.findLinkTuple_eq hl' hne).symm.trans (h.findLinkTuple_eq hl hx)
      rw [Option.some.inj this] at hle
      omega
    · obtain ⟨e', he', htimer, hdue⟩ := h.timer l' hl' hle
      exact ⟨e', hkeep.events e' he' _ hne htimer, htimer, hdue⟩

theorem neighborLoss_keepsOthers (n : Node) (l : LinkTuple) (hkeep : KeepsOthers x n' n) :
    KeepsOthers x n' (n.neighborLoss l) := by
  have hstep := n.linkTupleUpdated_neighborStep l willDefault
  refine ⟨hstep.now.trans hkeep.now, fun b ↦ ?_, fun l' hl' hne ↦ ?_, fun e' he' y hy ht ↦ ?_⟩
  · exact (hstep.getMainAddress b).trans (hkeep.getMainAddress b)
  · exact hstep.state.m_linkSet.symm ▸ hkeep.links l' hl' hne
  · exact hstep.events e' (hkeep.events e' he' y hy ht)

theorem KeepsOthers.schedule (h : KeepsOthers x n n') (time : ℤ) (timer : Timer) :
    KeepsOthers x n (n'.schedule time timer) :=
  ⟨h.now, h.getMainAddress, h.links, fun e he y hy ht ↦
    List.mem_append_left _ (h.events e he y hy ht)⟩

/-- **The loss of a neighbor keeps the invariant.** -/
theorem Tracking.neighborLoss (h : n.Tracking) {l : LinkTuple} (hl : l ∈ n.m_state.m_linkSet)
    (hx : l.neighborIfaceAddr = x) (he : e.timer = .linkTupleTimerExpire x) (hlt : l.symTime < n.now)
    (time : ℤ) (timer : Timer) :
    (((n.withoutEvent e).neighborLoss l).schedule time timer).Tracking := by
  have hmainx : n.getMainAddress l.neighborIfaceAddr = n.getMainAddress x := by rw [hx]
  have hstep := (n.withoutEvent e).linkTupleUpdated_neighborStep l willDefault
  have hmain : ((n.withoutEvent e).linkTupleUpdated l willDefault).getMainAddress l.neighborIfaceAddr =
      n.getMainAddress x := (hstep.getMainAddress _).trans hmainx
  have hkeep : KeepsOthers x n (n.withoutEvent e) :=
    ⟨rfl, fun _ ↦ rfl, fun _ h _ ↦ h, n.withoutEvent_events he⟩
  refine h.noticed hl hx hlt ((neighborLoss_keepsOthers (n.withoutEvent e) l hkeep).schedule _ _)
    hstep.state.m_linkSet (linkTupleUpdated_uniqueNeighbors (n := n.withoutEvent e)
      h.uniqueNeighbors l willDefault)
    (fun b hb ↦ ?_) ?_ (fun t ht ↦ ?_) fun t ht ↦ ?_
  · refine (OlsrState.status_congr rfl).trans
      ((linkTupleUpdated_status (n.withoutEvent e) l willDefault b).trans (if_neg ?_))
    exact fun hb' ↦ hb (hb'.trans hmainx)
  · refine (OlsrState.status_congr rfl).trans
      ((linkTupleUpdated_status (n.withoutEvent e) l willDefault _).trans (if_pos ?_))
    exact hmainx.symm
  · obtain ⟨ht, hne⟩ := List.mem_filter.mp ht
    refine ⟨hstep.state.m_twoHopNeighborSet ▸ ht, fun heq ↦ ?_⟩
    rw [decide_eq_true_eq] at hne
    exact absurd (heq.trans hmain.symm) hne
  · obtain ⟨ht, hne⟩ := List.mem_filter.mp ht
    refine ⟨hstep.state.m_mprSelectorSet ▸ ht, fun heq ↦ ?_⟩
    rw [decide_eq_true_eq] at hne
    exact absurd (heq.trans hmain.symm) hne

theorem Tracking.rescheduled (h : n.Tracking) {l : LinkTuple} (hl : l ∈ n.m_state.m_linkSet)
    (hx : l.neighborIfaceAddr = x) (he : e.timer = .linkTupleTimerExpire x) (hle : n.now ≤ l.symTime)
    (htime : n.now ≤ l.time) :
    ((n.withoutEvent e).schedule (min l.time l.symTime) (.linkTupleTimerExpire x)).Tracking := by
  have hsame : ∀ l' ∈ n.m_state.m_linkSet, l'.neighborIfaceAddr = x → l' = l := fun l' hl' hx' ↦
    Option.some.inj ((h.findLinkTuple_eq hl' hx').symm.trans (h.findLinkTuple_eq hl hx))
  have hg : Renames id n
      ((n.withoutEvent e).schedule (min l.time l.symTime) (.linkTupleTimerExpire x)) := by
    refine ⟨rfl, rfl, fun _ _ ↦ rfl, fun l' hl' hlt e' he' htimer ↦ ?_, fun l' hl' _ hex ↦ ?_⟩
    · have hne : l'.neighborIfaceAddr ≠ x := fun hx' ↦ by
        rw [hsame l' hl' hx'] at hlt
        omega
      exact List.mem_append_left _ (n.withoutEvent_events he e' he' _ hne htimer)
    · by_cases hx' : l'.neighborIfaceAddr = x
      · refine ⟨_, List.mem_append_right _ (List.mem_singleton_self _), by rw [hx'], ?_⟩
        have hmin : ¬ min l.time l.symTime < n.now := not_lt.mpr (le_min htime hle)
        rw [hsame l' hl' hx']
        change (if min l.time l.symTime < n.now then n.now + oneMicrosecond
          else min l.time l.symTime + oneMicrosecond) ≤ l.symTime + oneMicrosecond
        rw [if_neg hmin]
        exact add_le_add_left (min_le_right l.time l.symTime) oneMicrosecond
      · obtain ⟨e', he', htimer, hdue⟩ := hex
        exact ⟨e', List.mem_append_left _ (n.withoutEvent_events he e' he' _ hx' htimer), htimer, hdue⟩
  exact h.renames hg h.uniqueNeighbors (fun b st ↦ by
      change n.m_state.status b = some st ↔ _
      simp)
    (fun t ht ↦ hg.held (h.twoHop t ht)) fun t ht ↦ hg.held (h.mprSelector t ht)

theorem Tracking.dropped (h : n.Tracking) (hnone : n.m_state.findLinkTuple x = none)
    (he : e.timer = .linkTupleTimerExpire x) : (n.withoutEvent e).Tracking := by
  have hne : ∀ l ∈ n.m_state.m_linkSet, l.neighborIfaceAddr ≠ x := by
    intro l hl hx
    rw [h.findLinkTuple_eq hl hx] at hnone
    cases hnone
  have hg : Renames id n (n.withoutEvent e) :=
    ⟨rfl, rfl, fun _ _ ↦ rfl,
      fun l hl _ e' he' htimer ↦ n.withoutEvent_events he e' he' _ (hne l hl) htimer,
      fun l hl _ ⟨e', he', htimer, hdue⟩ ↦
        ⟨e', n.withoutEvent_events he e' he' _ (hne l hl) htimer, htimer, hdue⟩⟩
  exact h.renames hg h.uniqueNeighbors (fun b st ↦ by
      change n.m_state.status b = some st ↔ _
      simp)
    (fun t ht ↦ hg.held (h.twoHop t ht)) fun t ht ↦ hg.held (h.mprSelector t ht)

theorem Tracking.passedOver (h : n.Tracking) {l : LinkTuple} (hl : l ∈ n.m_state.m_linkSet)
    (hx : l.neighborIfaceAddr = x) (he : e.timer = .linkTupleTimerExpire x) (hlt : l.symTime < n.now)
    (hok : n.HasSymmetricLink (n.getMainAddress x) ∨
      ((∀ nb ∈ n.m_state.m_neighborSet, nb.neighborMainAddr = n.getMainAddress x → ¬ nb.Sym) ∧
        n.Unreferenced (n.getMainAddress x))) (time : ℤ) (timer : Timer) :
    (({ n.withoutEvent e with m_linkTupleTimerFirstTime := false } : Node).schedule time timer).Tracking := by
  have hkeep : KeepsOthers x n { n.withoutEvent e with m_linkTupleTimerFirstTime := false } :=
    ⟨rfl, fun _ ↦ rfl, fun _ h _ ↦ h, n.withoutEvent_events he⟩
  refine h.noticed hl hx hlt (hkeep.schedule _ _) rfl h.uniqueNeighbors (fun _ _ ↦ rfl) ?_
    (fun t ht ↦ ⟨ht, fun heq ↦ ?_⟩) fun t ht ↦ ⟨ht, fun heq ↦ ?_⟩
  · change n.m_state.status (n.getMainAddress x) = _
    split_ifs with hsym
    · exact h.status_eq hsym
    · obtain ⟨st, hst⟩ := Option.isSome_iff_exists.mp
        ((h.known (n.getMainAddress x)).mpr ⟨l, hl, by rw [hx]⟩)
      cases st with
      | STATUS_NOT_SYM => exact hst
      | STATUS_SYM =>
        obtain ⟨nb, hnb, hmain, hs⟩ := (OlsrState.status_eq_some h.uniqueNeighbors).mp hst
        exact absurd hs ((hok.resolve_left hsym).1 nb hnb hmain)
  · exact hok.resolve_right fun hun ↦ hun.2.1 t ht heq
  · exact hok.resolve_right fun hun ↦ hun.2.2 t ht heq

/-- **An event of a link keeps the invariant.** -/
theorem Tracking.linkTupleTimerExpire (h : n.Tracking) (he : e.timer = .linkTupleTimerExpire x)
    (hok : n.RegularTimer (.linkTupleTimerExpire x)) :
    ((n.withoutEvent e).linkTupleTimerExpire x).Tracking := by
  unfold Node.linkTupleTimerExpire
  split
  · next hnone => exact h.dropped hnone he
  · next l hfind =>
    have hl : l ∈ n.m_state.m_linkSet := List.mem_of_find?_eq_some hfind
    have hx : l.neighborIfaceAddr = x := by simpa using List.find?_some hfind
    obtain ⟨hremove, hflag⟩ := hok l hfind
    split_ifs with htime hlt hfirst
    · exact h.removeLinkTuple hl hx he (hremove htime).1 (hremove htime).2
    · exact h.passedOver hl hx he hlt (hflag (not_lt.mp htime) hlt hfirst) _ _
    · exact h.neighborLoss hl hx he hlt _ _
    · exact h.rescheduled hl hx he (not_lt.mp hlt) (not_lt.mp htime)

/-- **An event keeps the invariant.** -/
theorem Tracking.expire (h : n.Tracking) (hok : n.RegularTimer e.timer) :
    ((n.withoutEvent e).expire e.timer).Tracking := by
  have hadds : (∀ x, e.timer ≠ .linkTupleTimerExpire x) →
      Adds (fun _ ↦ False) (fun _ ↦ False) (n.withoutEvent e) ((n.withoutEvent e).expire e.timer) →
      ((n.withoutEvent e).expire e.timer).Tracking := fun hne hadds ↦
    h.adds ((n.withoutEvent_adds hne).trans hadds) (fun _ ↦ False.elim) fun _ ↦ False.elim
  cases htimer : e.timer with
  | linkTupleTimerExpire x =>
    rw [htimer] at hok
    exact h.linkTupleTimerExpire htimer hok
  | nb2hopTupleTimerExpire a b =>
    rw [← htimer]
    exact hadds (by simp [htimer]) (htimer ▸ nb2hopTupleTimerExpire_adds _ a b)
  | mprSelTupleTimerExpire a =>
    rw [← htimer]
    exact hadds (by simp [htimer]) (htimer ▸ mprSelTupleTimerExpire_adds _ a)
  | topologyTupleTimerExpire a b =>
    rw [← htimer]
    exact hadds (by simp [htimer]) (htimer ▸ topologyTupleTimerExpire_adds _ a b)
  | ifaceAssocTupleTimerExpire x =>
    have hwithout := h.adds (n.withoutEvent_adds (e := e) (P := fun _ ↦ False) (Q := fun _ ↦ False)
      (by simp [htimer])) (fun _ ↦ False.elim) fun _ ↦ False.elim
    rw [htimer] at hok
    exact hwithout.ifaceAssocTupleTimerExpire hok

/-- **Time keeps the invariant** where no symmetric time passes without its event being due. -/
theorem Tracking.wait (h : n.Tracking) {d : ℕ}
    (hok : ∀ l ∈ n.m_state.m_linkSet, l.symTime < n.now + d → l.symTime + oneMicrosecond ≤ n.now + d) :
    ({ n with now := n.now + d } : Node).Tracking := by
  have hsym : ∀ b, ({ n with now := n.now + d } : Node).HasSymmetricLink b → n.HasSymmetricLink b := by
    rintro b ⟨l, hl, hmain, hle⟩
    have hle : n.now + d ≤ l.symTime := hle
    exact ⟨l, hl, hmain, by omega⟩
  have hheld : ∀ b, n.Held b → ({ n with now := n.now + d } : Node).Held b := by
    rintro b (⟨l, hl, hmain, hle⟩ | ⟨l, hl, hmain, hlt, e, he, htimer, hdue⟩)
    · by_cases hpass : l.symTime < n.now + d
      · obtain ⟨e, he, htimer, hdue⟩ := h.timer l hl hle
        exact .inr ⟨l, hl, hmain, hpass, e, he, htimer, hdue.trans (hok l hl hpass)⟩
      · exact .inl ⟨l, hl, hmain, not_lt.mp hpass⟩
    · refine .inr ⟨l, hl, hmain, ?_, e, he, htimer, ?_⟩
      · exact lt_of_lt_of_le hlt (by change n.now ≤ n.now + d; omega)
      · exact hdue.trans (by change n.now ≤ n.now + d; omega)
  exact ⟨h.uniqueNeighbors, h.uniqueLinks, h.known, fun b hst ↦ hheld b (h.sym b hst),
    fun b hst hs ↦ h.notSym b hst (hsym b hs), fun t ht ↦ hheld _ (h.twoHop t ht),
    fun t ht ↦ hheld _ (h.mprSelector t ht), hok, fun l hl hle ↦ h.timer l hl (by
      change n.now + d ≤ l.symTime at hle
      omega)⟩

end Timers

/-! ## Runs -/

theorem Tracking.routingTableComputation (h : n.Tracking) : n.routingTableComputation.Tracking :=
  h.adds (routingTableComputation_adds (P := fun _ ↦ False) (Q := fun _ ↦ False) n)
    (fun _ ↦ False.elim) fun _ ↦ False.elim

/-- **A regular step keeps the invariant.** -/
theorem step_tracking {o : Op} (h : n.Tracking) (hok : n.Regular o) (hs : n.step o = some n') :
    n'.Tracking := by
  cases o with
  | hello msg hello r s =>
    rw [step, recv] at hs
    split_ifs at hs with hown
    · exact Option.some.inj hs ▸ h
    · obtain ⟨n₁, hn₁, rfl⟩ := Option.map_eq_some_iff.mp hs
      exact (h.processHello (hok.resolve_left hown) hn₁).routingTableComputation
  | tc msg tc s =>
    rw [step, recv] at hs
    split_ifs at hs with hown
    · exact Option.some.inj hs ▸ h
    · obtain rfl := Option.some.inj hs
      exact (h.adds (processTc_adds (P := fun _ ↦ False) (Q := fun _ ↦ False) n msg tc s)
        (fun _ ↦ False.elim) fun _ ↦ False.elim).routingTableComputation
  | mid msg addrs s =>
    rw [step, recv] at hs
    split_ifs at hs with hown
    · exact Option.some.inj hs ▸ h
    · obtain rfl := Option.some.inj hs
      exact (h.processMid (hok.resolve_left hown)).routingTableComputation
  | expire e =>
    rw [step] at hs
    split_ifs at hs
    exact Option.some.inj hs ▸ h.expire hok
  | wait d =>
    rw [step] at hs
    split_ifs at hs
    exact Option.some.inj hs ▸ h.wait hok

/-- **The neighbor set tracks the link set** in every run of regular steps, wherever the events that are due
have been handled. -/
theorem tracks_of_run {mainAddress : Ipv4Address} {ipv4 : List (List Ipv4Address)} {helloInterval : ℤ}
    {ops : List Op} (hr : (machine mainAddress ipv4 helloInterval).Run Regular ops n)
    (hn : n.Handled) : n.Tracks :=
  (hr.invariant (I := Tracking) (create_tracking mainAddress ipv4 helloInterval)
    fun _ _ _ h hok hs ↦ step_tracking h hok hs).tracks hn

/-- A neighbor with two links stays symmetric where the first one expires. -/
theorem tracks_of_run_two : ∃ n : Node, n.Tracks ∧
    n.m_state.m_neighborSet = [⟨2, .STATUS_SYM, 3⟩] ∧
    n.m_state.m_linkSet.map (fun l ↦ decide (l.symTime < n.now)) = [true, false] := by
  have hrun : ∃ n, (machine 1 [[1]] 2000000000).Run Regular
      [.hello ⟨2, 6000000000⟩ ⟨3, [⟨6, [1]⟩, ⟨6, [7]⟩, ⟨10, [1]⟩]⟩ 1 2, .mid ⟨2, 15000000000⟩ [20] 2,
        .hello ⟨2, 8000000000⟩ ⟨3, [⟨6, [1]⟩]⟩ 1 20, .wait 6000001000,
        .expire ⟨6000001000, .linkTupleTimerExpire 2⟩,
        .expire ⟨6000001000, .nb2hopTupleTimerExpire 2 7⟩,
        .expire ⟨6000001000, .mprSelTupleTimerExpire 2⟩] n ∧
      (n.Handled ∧ n.m_state.m_neighborSet = [⟨2, .STATUS_SYM, 3⟩] ∧
        n.m_state.m_linkSet.map (fun l ↦ decide (l.symTime < n.now)) = [true, false]) :=
    Machine.exists_run_of_exec_allowed (p := fun n : Node ↦ n.Handled ∧
      n.m_state.m_neighborSet = [⟨2, .STATUS_SYM, 3⟩] ∧
        n.m_state.m_linkSet.map (fun l ↦ decide (l.symTime < n.now)) = [true, false])
      (by decide +kernel) (by decide +kernel)
  obtain ⟨n, hr, hhandled, hneighbors, hlinks⟩ := hrun
  exact ⟨n, tracks_of_run hr hhandled, hneighbors, hlinks⟩

/-- A HELLO says that its sender has lost the node: the neighbor is not symmetric, and the two-hop tuple of
it is still there. -/
theorem not_tracks : ∃ n, (machine 1 [[1]] 2000000000).Run Machine.unguarded
    [.hello ⟨2, 6000000000⟩ ⟨3, [⟨6, [1]⟩, ⟨6, [7]⟩]⟩ 1 2,
      .hello ⟨2, 6000000000⟩ ⟨3, [⟨7, [1]⟩]⟩ 1 2] n ∧
    n.Handled ∧ ¬ n.Tracks := by
  refine Machine.exists_run_and
    (p := fun n : Node ↦ n.Handled ∧
      ∃ t ∈ n.m_state.m_twoHopNeighborSet, ∀ nb ∈ n.m_state.m_neighborSet, nb.neighborMainAddr =
      t.neighborMainAddr → ¬ nb.Sym)
    (by decide +kernel) fun n hr ⟨hhandled, t, ht, hnot⟩ ↦ ?_
  refine ⟨hhandled, fun htracks ↦ ?_⟩
  obtain ⟨nb, hnb, hmain, hsym⟩ := htracks.twoHop t ht
  exact hnot nb hnb hmain hsym

end Node

end Olsr

end Ns3
