import Ns3.Aodv.RoutingTable

/-!
# Route errors of AODV

When the link to a next hop breaks, the destinations that were reached over it are reported to the
precursors of their routes, and the routes are invalidated. The next hop itself is always one of the
destinations, whatever its own entry says.

The loop that fills the message is written for a message that refuses a destination when it is full: the
message would be sent, cleared, and the destination tried again. The message never refuses; it asserts
that it is not full.
-/

namespace Ns3

namespace Aodv

namespace Routing

/-! ## The message -/

/-- A `RerrHeader`: a map from unreachable destinations to their sequence numbers. -/
structure RerrHeader where
  m_flag : UInt8
  m_reserved : UInt8
  m_unreachableDstSeqNo : List (Ipv4Address × UInt32)
  sorted : OrderedMap.Sorted m_unreachableDstSeqNo

namespace RerrHeader

variable {h h' : RerrHeader} {dst : Ipv4Address} {seqNo : UInt32}

/-- The constructor's header. -/
def empty : RerrHeader := ⟨0, 0, [], OrderedMap.sorted_nil⟩

def clear (_h : RerrHeader) : RerrHeader := empty

/-- What the header says of a destination. -/
def find (h : RerrHeader) (dst : Ipv4Address) : Option UInt32 := OrderedMap.find dst h.m_unreachableDstSeqNo

/-- The number of destinations. -/
def size (h : RerrHeader) : ℕ := h.m_unreachableDstSeqNo.length

def getDestCount (h : RerrHeader) : UInt8 := UInt8.ofNat h.size

def insert (h : RerrHeader) (dst : Ipv4Address) (seqNo : UInt32) : RerrHeader :=
  { h with
    m_unreachableDstSeqNo := OrderedMap.insert dst seqNo h.m_unreachableDstSeqNo
    sorted := h.sorted.insert dst seqNo }

/-- The answer and the header, unless the assertion fails. The answer is never `false`. -/
def addUnDestination (h : RerrHeader) (dst : Ipv4Address) (seqNo : UInt32) : Option (Bool × RerrHeader) :=
  if (h.find dst).isSome then some (true, h)
  else if h.getDestCount < 255 then some (true, h.insert dst seqNo)
  else none

theorem find_insert {d : Ipv4Address} :
    (h.insert dst seqNo).find d = if d = dst then some seqNo else h.find d :=
  OrderedMap.find_insert _ _ _ _

theorem size_insert (hnew : h.find dst = none) : (h.insert dst seqNo).size = h.size + 1 :=
  OrderedMap.length_insert _ (OrderedMap.find_eq_none.mp hnew)

theorem addUnDestination_true {r : Bool × RerrHeader} (h : h'.addUnDestination dst seqNo = some r) :
    r.1 = true := by
  rw [addUnDestination] at h
  split_ifs at h
  · rw [← Option.some_inj.mp h]
  · rw [← Option.some_inj.mp h]

theorem addUnDestination_of_size_lt (seqNo : UInt32) (hsize : (h.find dst).isSome ∨ h.size < 255) :
    ∃ h', h.addUnDestination dst seqNo = some (true, h') ∧
      (∀ d, h'.find d = (h.find d).or (if d = dst then some seqNo else none)) ∧
      h'.size = h.size + if (h.find dst).isSome then 0 else 1 := by
  by_cases hin : (h.find dst).isSome
  · refine ⟨h, if_pos hin, fun d ↦ ?_, (if_pos hin).symm ▸ rfl⟩
    by_cases hd : d = dst
    · obtain ⟨n, hn⟩ := Option.isSome_iff_exists.mp hin
      rw [hd, hn, Option.some_or]
    · rw [if_neg hd, Option.or_none]
  · have hnone : h.find dst = none := Option.not_isSome_iff_eq_none.mp hin
    have hlt : h.size < 255 := hsize.resolve_left hin
    have hcount : h.getDestCount < 255 := by
      rw [getDestCount, UInt8.lt_iff_toNat_lt, UInt8.toNat_ofNat', Nat.mod_eq_of_lt (hlt.trans (by decide))]
      exact hlt
    refine ⟨h.insert dst seqNo, ?_, fun d ↦ ?_, ?_⟩
    · rw [addUnDestination, if_neg hin, if_pos hcount]
    · rw [find_insert]
      by_cases hd : d = dst
      · rw [if_pos hd, if_pos hd, hd, hnone, Option.none_or]
      · rw [if_neg hd, if_neg hd, Option.or_none]
    · rw [size_insert hnone, if_neg hin]

theorem addUnDestination_of_full (hnew : h.find dst = none) (hfull : h.size = 255) :
    h.addUnDestination dst seqNo = none := by
  rw [addUnDestination, hnew, getDestCount, hfull]
  rfl

/-- The number of destinations when these have been added. -/
def sizeWith (h : RerrHeader) (unreachable : List (Ipv4Address × UInt32)) : ℕ :=
  h.size + (unreachable.filter fun x ↦ (h.find x.1).isNone).length

@[simp] theorem sizeWith_nil : h.sizeWith [] = h.size := rfl

theorem sizeWith_cons {x : Ipv4Address × UInt32} {unreachable : List (Ipv4Address × UInt32)}
    (hnew : x.1 ∉ OrderedMap.keys unreachable)
    (hfind : ∀ d, h'.find d = (h.find d).or (if d = x.1 then some x.2 else none))
    (hsize : h'.size = h.size + if (h.find x.1).isSome then 0 else 1) :
    h.sizeWith (x :: unreachable) = h'.sizeWith unreachable := by
  have hrest : (unreachable.filter fun y ↦ (h'.find y.1).isNone) =
      unreachable.filter fun y ↦ (h.find y.1).isNone := by
    refine List.filter_congr fun y hy ↦ ?_
    rw [hfind, if_neg fun heq : y.1 = x.1 ↦ hnew (heq ▸ List.mem_map_of_mem hy), Option.or_none]
  rw [sizeWith, sizeWith, List.filter_cons, hrest, hsize]
  cases hin : h.find x.1 with
  | none =>
    show h.size + (_ + 1) = h.size + 1 + _
    omega
  | some n => rfl

end RerrHeader

/-! ## Sending -/

/-- The protocol, as far as it sends route errors. The sockets are given by their interfaces. -/
structure RerrSender where
  m_routingTable : RoutingTable
  m_socketAddresses : List Ipv4InterfaceAddress
  m_rerrCount : UInt16
  m_rerrRateLimit : UInt16
  rerrRateLimitTimerRunning : Bool

/-- A message that is scheduled, on which interface and to which address. -/
structure SentRerr where
  rerrHeader : RerrHeader
  iface : Ipv4InterfaceAddress
  destination : Ipv4Address

/-- The address for a broadcast: to all hosts if the mask is of ones, to the subnet otherwise. -/
def Ipv4InterfaceAddress.broadcastDestination (iface : Ipv4InterfaceAddress) : Ipv4Address :=
  if iface.m_mask = 0xffffffff then 0xffffffff else iface.m_broadcast

/-- The interface of a precursor's valid route, if it is new. -/
def collectIface (now : ℤ) (r : RoutingTable × List Ipv4InterfaceAddress) (i : Ipv4Address) :
    RoutingTable × List Ipv4InterfaceAddress :=
  match (r.1.lookupValidRoute i now).2 with
  | none => ((r.1.lookupValidRoute i now).1, r.2)
  | some toPrecursor =>
    ((r.1.lookupValidRoute i now).1,
      if toPrecursor.m_iface ∈ r.2 then r.2 else r.2 ++ [toPrecursor.m_iface])

/-- The interfaces of the precursors with a valid route, each once. -/
def collectIfaces (now : ℤ) (t : RoutingTable) (precursors : List Ipv4Address) :
    RoutingTable × List Ipv4InterfaceAddress :=
  precursors.foldl (collectIface now) (t, [])

/-- `SendRerrMessage`, unless an assertion fails. -/
def sendRerrMessage (now : ℤ) (s : RerrSender) (rerrHeader : RerrHeader) (precursors : List Ipv4Address) :
    Option (RerrSender × List SentRerr) :=
  match precursors with
  | [] => some (s, [])
  | precursor :: others =>
    if s.m_rerrCount = s.m_rerrRateLimit then
      if s.rerrRateLimitTimerRunning then some (s, []) else none
    else if others = [] then
      let r := s.m_routingTable.lookupValidRoute precursor now
      match r.2 with
      | none => some ({ s with m_routingTable := r.1 }, [])
      | some toPrecursor =>
        if toPrecursor.m_iface ∈ s.m_socketAddresses then
          some ({ s with m_routingTable := r.1, m_rerrCount := s.m_rerrCount + 1 },
            [⟨rerrHeader, toPrecursor.m_iface, precursor⟩])
        else none
    else
      let r := collectIfaces now s.m_routingTable precursors
      if ∀ i ∈ r.2, i ∈ s.m_socketAddresses then
        some ({ s with m_routingTable := r.1 }, r.2.map fun i ↦ ⟨rerrHeader, i, i.broadcastDestination⟩)
      else none

/-- The state in which no assertion of `SendRerrMessage` fails for precursors like these: the timer of the
rate limit runs, and the interfaces of their valid routes have sockets. -/
structure RerrSender.Ready (s : RerrSender) (precursor : Ipv4Address → Prop) : Prop where
  timer : s.rerrRateLimitTimerRunning = true
  sockets : ∀ k e, precursor k → s.m_routingTable.find k = some e → e.m_flag = .VALID →
    e.m_iface ∈ s.m_socketAddresses

variable {s s' : RerrSender} {now : ℤ} {nextHop : Ipv4Address} {rerrHeader : RerrHeader}
  {precursors : List Ipv4Address} {precursor : Ipv4Address → Prop}

/-- The table is purged only, and the interfaces are those of valid routes. -/
theorem collectIfaces_spec (now : ℤ) (t : RoutingTable) (precursors : List Ipv4Address) :
    t.PurgedTo now (collectIfaces now t precursors).1 ∧
      ∀ i ∈ (collectIfaces now t precursors).2,
        ∃ k ∈ precursors, ∃ e, t.find k = some e ∧ e.m_flag = .VALID ∧ e.m_iface = i := by
  refine List.foldlRecOn (motive := fun r : RoutingTable × List Ipv4InterfaceAddress ↦ t.PurgedTo now r.1 ∧
      ∀ i ∈ r.2, ∃ k ∈ precursors, ∃ e, t.find k = some e ∧ e.m_flag = .VALID ∧ e.m_iface = i) precursors _
    ⟨.refl t now, fun _ h ↦ absurd h List.not_mem_nil⟩ ?_
  rintro r ⟨hpurged, hifaces⟩ precursor hprecursor
  have hpurged' := hpurged.trans (r.1.lookupValidRoute_purgedTo precursor now)
  rw [collectIface]
  cases hlookup : (r.1.lookupValidRoute precursor now).2 with
  | none => exact ⟨hpurged', hifaces⟩
  | some e =>
    refine ⟨hpurged', fun i hi ↦ ?_⟩
    obtain ⟨hfind, hvalid⟩ := RoutingTable.find_of_lookupValidRoute hlookup
    dsimp only at hi
    by_cases hmem : e.m_iface ∈ r.2
    · rw [if_pos hmem] at hi
      exact hifaces i hi
    · rw [if_neg hmem] at hi
      rcases List.mem_append.mp hi with hi | hi
      · exact hifaces i hi
      · exact ⟨precursor, hprecursor, e, hpurged.find_of_valid hfind hvalid, hvalid,
          (List.mem_singleton.mp hi).symm⟩

theorem sendRerrMessage_purgedTo {r : RerrSender × List SentRerr}
    (h : sendRerrMessage now s rerrHeader precursors = some r) :
    s.m_routingTable.PurgedTo now r.1.m_routingTable := by
  have hlookup := s.m_routingTable.lookupValidRoute_purgedTo
  have hcollect := (collectIfaces_spec now s.m_routingTable precursors).1
  cases precursors with
  | nil =>
    rw [← Option.some_inj.mp h]
    exact .refl _ _
  | cons precursor others =>
    rw [sendRerrMessage] at h
    split_ifs at h
    · rw [← Option.some_inj.mp h]
      exact .refl _ _
    · cases hfound : (s.m_routingTable.lookupValidRoute precursor now).2 with
      | none =>
        simp only [hfound] at h
        rw [← Option.some_inj.mp h]
        exact hlookup precursor now
      | some e =>
        simp only [hfound] at h
        split_ifs at h
        rw [← Option.some_inj.mp h]
        exact hlookup precursor now
    · dsimp only at h
      split_ifs at h
      rw [← Option.some_inj.mp h]
      exact hcollect

theorem RerrSender.Ready.exists_sendRerrMessage (h : s.Ready (· ∈ precursors)) (now : ℤ)
    (rerrHeader : RerrHeader) : ∃ r, sendRerrMessage now s rerrHeader precursors = some r := by
  cases precursors with
  | nil => exact ⟨_, rfl⟩
  | cons precursor others =>
    rw [sendRerrMessage, h.timer]
    by_cases hlimit : s.m_rerrCount = s.m_rerrRateLimit
    · rw [if_pos hlimit]
      exact ⟨_, if_pos rfl⟩
    rw [if_neg hlimit]
    by_cases hothers : others = []
    · rw [if_pos hothers]
      cases hfound : (s.m_routingTable.lookupValidRoute precursor now).2 with
      | none =>
        simp only [hfound]
        exact ⟨_, rfl⟩
      | some e =>
        simp only [hfound]
        obtain ⟨hfind, hvalid⟩ := RoutingTable.find_of_lookupValidRoute hfound
        exact ⟨_, if_pos (h.sockets _ _ List.mem_cons_self hfind hvalid)⟩
    · rw [if_neg hothers]
      refine ⟨_, if_pos fun i hi ↦ ?_⟩
      obtain ⟨k, hk, e, hfind, hvalid, rfl⟩ := (collectIfaces_spec now _ _).2 i hi
      exact h.sockets k e hk hfind hvalid

theorem RerrSender.Ready.purgedTo {t : RoutingTable} (h : s.Ready precursor)
    (ht : s.m_routingTable.PurgedTo now t) (hall : ∀ k ∈ precursors, precursor k) :
    RerrSender.Ready { s with m_routingTable := t } (· ∈ precursors) where
  timer := h.timer
  sockets := fun k e hk he hvalid ↦ h.sockets k e (hall k hk) (ht.find_of_valid he hvalid) hvalid

/-! ## A broken link -/

/-- The variables of `SendRerrWhenBreaksLinkToNextHop`, with the messages that were built. -/
structure RerrLocals where
  rerrHeader : RerrHeader
  precursors : List Ipv4Address
  sender : RerrSender
  built : List RerrHeader
  sent : List SentRerr

/-- The message is built and sent. -/
def RerrLocals.send (now : ℤ) (o : RerrLocals) : Option RerrLocals :=
  (sendRerrMessage now o.sender o.rerrHeader o.precursors).map fun r ↦
    { o with sender := r.1, built := o.built ++ [o.rerrHeader], sent := o.sent ++ r.2 }

/-- The last message is sent, if there is something in it. -/
def RerrLocals.sendLast (now : ℤ) (o : RerrLocals) : Option RerrLocals :=
  if o.rerrHeader.getDestCount ≠ 0 then o.send now else some o

/-- After a destination was taken into the message, its precursors are taken into the list. -/
def RerrLocals.addPrecursors (now : ℤ) (o : RerrLocals) (dst : Ipv4Address) (rerrHeader : RerrHeader) :
    RerrLocals :=
  let r := o.sender.m_routingTable.lookupRoute dst now
  { o with
    rerrHeader := rerrHeader
    precursors := (r.2.map fun toDst ↦ toDst.getPrecursors o.precursors).getD o.precursors
    sender := { o.sender with m_routingTable := r.1 } }

/-- The loop over the unreachable destinations. One that is refused is tried again in an empty message. -/
def rerrLoop (now : ℤ) : ℕ → List (Ipv4Address × UInt32) → RerrLocals → Option RerrLocals
  | _, [], o => some o
  | 0, _ :: _, _ => none
  | fuel + 1, x :: unreachable, o =>
    match o.rerrHeader.addUnDestination x.1 x.2 with
    | none => none
    | some (true, rerrHeader) => rerrLoop now fuel unreachable (o.addPrecursors now x.1 rerrHeader)
    | some (false, _) =>
      match o.send now with
      | none => none
      | some o => rerrLoop now fuel (x :: unreachable) { o with rerrHeader := o.rerrHeader.clear }

/-- The destinations to invalidate: what is unreachable, and the next hop. -/
def withNextHop (unreachable : List (Ipv4Address × UInt32)) (nextHop : Ipv4Address) (seqNo : UInt32) :
    List (Ipv4Address × UInt32) :=
  if OrderedMap.contains nextHop unreachable then unreachable
  else OrderedMap.insert nextHop seqNo unreachable

/-- The variables when it returns, unless an assertion fails. -/
def sendRerrWhenBreaksLinkToNextHop (now : ℤ) (s : RerrSender) (nextHop : Ipv4Address) :
    Option RerrLocals :=
  let r := s.m_routingTable.lookupRoute nextHop now
  match r.2 with
  | none => some ⟨.empty, [], { s with m_routingTable := r.1 }, [], []⟩
  | some toNextHop => do
    let first ← RerrHeader.empty.addUnDestination nextHop toNextHop.m_seqNo
    let u := r.1.getListOfDestinationWithNextHop nextHop now
    let o ← rerrLoop now (2 * u.2.length) u.2
      ⟨first.2, toNextHop.getPrecursors [], { s with m_routingTable := u.1 }, [], []⟩
    let o ← o.sendLast now
    return { o with
      sender := { o.sender with
        m_routingTable := o.sender.m_routingTable.invalidateRoutesWithDst
          (withNextHop u.2 nextHop toNextHop.m_seqNo) now } }

variable {o o' : RerrLocals} {unreachable : List (Ipv4Address × UInt32)} {fuel : ℕ}

theorem RerrLocals.send_purgedTo (h : o.send now = some o') :
    o.sender.m_routingTable.PurgedTo now o'.sender.m_routingTable := by
  obtain ⟨r, hr, rfl⟩ := Option.map_eq_some_iff.mp h
  exact sendRerrMessage_purgedTo hr

theorem rerrLoop_purgedTo (h : rerrLoop now fuel unreachable o = some o') :
    o.sender.m_routingTable.PurgedTo now o'.sender.m_routingTable := by
  induction fuel generalizing unreachable o with
  | zero =>
    cases unreachable with
    | nil =>
      rw [← Option.some_inj.mp h]
      exact .refl _ _
    | cons x unreachable => exact absurd h (Option.some_ne_none _).symm
  | succ fuel ih =>
    cases unreachable with
    | nil =>
      rw [← Option.some_inj.mp h]
      exact .refl _ _
    | cons x unreachable =>
      rw [rerrLoop] at h
      cases hadd : o.rerrHeader.addUnDestination x.1 x.2 with
      | none =>
        rw [hadd] at h
        exact absurd h (Option.some_ne_none _).symm
      | some r =>
        obtain ⟨answer, header⟩ := r
        obtain rfl : answer = true := RerrHeader.addUnDestination_true hadd
        rw [hadd] at h
        exact (RoutingTable.lookupRoute_purgedTo _ x.1 now).trans (ih h)

/-- **The loop fills one message**, as long as all destinations fit into it. -/
theorem rerrLoop_eq_some (now : ℤ) (hkeys : (OrderedMap.keys unreachable).Nodup)
    (hroom : o.rerrHeader.sizeWith unreachable ≤ 255) (hfuel : unreachable.length ≤ fuel) :
    ∃ o' t, rerrLoop now fuel unreachable o = some o' ∧ o.sender.m_routingTable.PurgedTo now t ∧
      o'.sender = { o.sender with m_routingTable := t } ∧ o'.built = o.built ∧
      o'.rerrHeader.size = o.rerrHeader.sizeWith unreachable ∧
      (∀ d, o'.rerrHeader.find d = (o.rerrHeader.find d).or (OrderedMap.find d unreachable)) ∧
      ∀ k ∈ o'.precursors, k ∈ o.precursors ∨ ∃ x ∈ unreachable, ∃ e,
        o.sender.m_routingTable.find x.1 = some e ∧ k ∈ e.m_precursorList := by
  induction unreachable generalizing o fuel with
  | nil =>
    refine ⟨o, o.sender.m_routingTable, ?_, .refl _ _, rfl, rfl, rfl, fun d ↦ Option.or_none.symm,
      fun _ ↦ Or.inl⟩
    cases fuel <;> rfl
  | cons x unreachable ih =>
    obtain ⟨fuel, rfl⟩ := Nat.exists_eq_succ_of_ne_zero (Nat.ne_zero_of_lt hfuel)
    obtain ⟨hnew, hkeys⟩ := List.nodup_cons.mp hkeys
    have hsize : (o.rerrHeader.find x.1).isSome ∨ o.rerrHeader.size < 255 := by
      cases hin : o.rerrHeader.find x.1 with
      | some n => exact Or.inl rfl
      | none =>
        rw [RerrHeader.sizeWith, List.filter_cons, hin] at hroom
        exact Or.inr ((Nat.lt_add_of_pos_right (Nat.succ_pos _)).trans_le hroom)
    obtain ⟨header, hadd, hfind, hlen⟩ := RerrHeader.addUnDestination_of_size_lt x.2 hsize
    rw [RerrHeader.sizeWith_cons hnew hfind hlen] at hroom ⊢
    obtain ⟨o', t, hloop, hpurged, hsender, hbuilt, hcount, hfind', hprecursors⟩ :=
      ih (o := o.addPrecursors now x.1 header) hkeys hroom (Nat.succ_le_succ_iff.mp hfuel)
    have hlookup := o.sender.m_routingTable.lookupRoute_purgedTo x.1 now
    refine ⟨o', t, ?_, hlookup.trans hpurged, hsender, hbuilt, hcount, fun d ↦ ?_, fun k hk ↦ ?_⟩
    · rw [rerrLoop, hadd]
      exact hloop
    · rw [hfind', show (o.addPrecursors now x.1 header).rerrHeader = header from rfl, hfind,
        OrderedMap.find_cons, Option.or_assoc]
      by_cases hd : d = x.1
      · rw [if_pos hd, if_pos hd, Option.some_or]
      · rw [if_neg hd, if_neg hd, Option.none_or]
    · obtain hk | ⟨y, hy, e, he, hk⟩ := hprecursors k hk
      · rw [RerrLocals.addPrecursors] at hk
        cases hfound : (o.sender.m_routingTable.lookupRoute x.1 now).2 with
        | none =>
          rw [hfound] at hk
          exact Or.inl hk
        | some e =>
          rw [hfound] at hk
          obtain ⟨e₀, he₀, -, heq⟩ := hlookup.precursors_of_find hfound
          exact (RoutingTableEntry.mem_of_mem_getPrecursors hk).imp_right fun hk ↦
            ⟨x, List.mem_cons_self, e₀, he₀, heq ▸ hk⟩
      · obtain ⟨e₀, he₀, -, heq⟩ := hlookup.precursors_of_find he
        exact Or.inr ⟨y, List.mem_cons_of_mem _ hy, e₀, he₀, heq ▸ hk⟩

theorem rerrLoop_eq_none (now : ℤ) (hkeys : (OrderedMap.keys unreachable).Nodup)
    (hsize : o.rerrHeader.size ≤ 255) (hroom : 255 < o.rerrHeader.sizeWith unreachable) :
    rerrLoop now fuel unreachable o = none := by
  induction unreachable generalizing o fuel with
  | nil => exact absurd hroom hsize.not_gt
  | cons x unreachable ih =>
    obtain ⟨hnew, hkeys⟩ := List.nodup_cons.mp hkeys
    cases fuel with
    | zero => rfl
    | succ fuel =>
      rw [rerrLoop]
      by_cases hfull : o.rerrHeader.find x.1 = none ∧ o.rerrHeader.size = 255
      · rw [RerrHeader.addUnDestination_of_full hfull.1 hfull.2]
      · have hsize' : (o.rerrHeader.find x.1).isSome ∨ o.rerrHeader.size < 255 := by
          rw [← Option.ne_none_iff_isSome, or_iff_not_imp_left, not_not]
          exact fun hnone ↦ lt_of_le_of_ne hsize fun h ↦ hfull ⟨hnone, h⟩
        obtain ⟨header, hadd, hfind, hlen⟩ := RerrHeader.addUnDestination_of_size_lt x.2 hsize'
        rw [RerrHeader.sizeWith_cons hnew hfind hlen] at hroom
        rw [hadd]
        refine ih (o := o.addPrecursors now x.1 header) hkeys ?_ hroom
        show header.size ≤ 255
        rw [hlen]
        split_ifs with hin
        · exact hsize
        · exact hsize'.resolve_left hin

/-! ## What is reported, and what is invalidated -/

/-- The table whose entries are looked through: it has been purged by the lookup and by the list. -/
def RerrSender.seen (s : RerrSender) (now : ℤ) : RoutingTable := (s.m_routingTable.purge now).purge now

/-- The destinations over the next hop, other than the next hop itself. -/
def RerrSender.others (s : RerrSender) (now : ℤ) (nextHop : Ipv4Address) : List (Ipv4Address × UInt32) :=
  ((s.seen now).usersOf nextHop).filter fun x ↦ x.1 ≠ nextHop

theorem mem_keys_withNextHop {k : Ipv4Address} {seqNo : UInt32} :
    k ∈ OrderedMap.keys (withNextHop unreachable nextHop seqNo) ↔
      k = nextHop ∨ k ∈ OrderedMap.keys unreachable := by
  rw [withNextHop]
  split_ifs with hin
  · constructor
    · exact Or.inr
    · rintro (rfl | hk)
      · exact OrderedMap.contains_iff.mp hin
      · exact hk
  · exact OrderedMap.mem_keys_insert _ _ _

/-- **What it does to the table.** Unless it knows no entry for the next hop, it purges the table and
invalidates. -/
theorem table_of_sendRerrWhenBreaksLinkToNextHop
    (h : sendRerrWhenBreaksLinkToNextHop now s nextHop = some o') :
    o'.sender.m_routingTable = s.m_routingTable.purge now ∧
        (s.m_routingTable.purge now).find nextHop = none ∨
      ∃ t toNextHop, (s.seen now).PurgedTo now t ∧
        (s.m_routingTable.purge now).find nextHop = some toNextHop ∧
        o'.sender.m_routingTable = t.invalidateRoutesWithDst
          (withNextHop ((s.seen now).usersOf nextHop) nextHop toNextHop.m_seqNo) now := by
  rw [sendRerrWhenBreaksLinkToNextHop] at h
  cases hfound : (s.m_routingTable.lookupRoute nextHop now).2 with
  | none =>
    simp only [hfound] at h
    rw [← Option.some_inj.mp h]
    exact Or.inl ⟨rfl, hfound⟩
  | some toNextHop =>
    simp only [hfound] at h
    obtain ⟨first, -, h⟩ := Option.bind_eq_some_iff.mp h
    obtain ⟨o, hloop, h⟩ := Option.bind_eq_some_iff.mp h
    obtain ⟨o₁, hsend, h⟩ := Option.bind_eq_some_iff.mp h
    refine Or.inr ⟨o₁.sender.m_routingTable, toNextHop, ?_, hfound, ?_⟩
    · refine (rerrLoop_purgedTo hloop).trans ?_
      rw [RerrLocals.sendLast] at hsend
      split_ifs at hsend
      · exact RerrLocals.send_purgedTo hsend
      · rw [Option.some_inj.mp hsend]
        exact .refl _ _
    · rw [← Option.some_inj.mp h]
      rfl

/-- The link to a next hop is reported broken: what is built, and the table in the end. -/
structure Reported (now : ℤ) (s : RerrSender) (nextHop : Ipv4Address) (seqNo : UInt32) (o : RerrLocals) :
    Prop where
  /-- The messages are not too large. -/
  few : ∀ h ∈ o.built, h.size ≤ 255
  /-- The next hop and each destination over it are in a message, with their sequence numbers. -/
  own : ∃ h ∈ o.built, h.find nextHop = some seqNo
  carried : ∀ d e, (s.seen now).find d = some e → e.getNextHop = nextHop → d ≠ nextHop →
    ∃ h ∈ o.built, h.find d = some e.m_seqNo
  /-- None of them is valid in the end. -/
  invalid : ∀ d e, o.sender.m_routingTable.find d = some e → d = nextHop ∨ e.getNextHop = nextHop →
    e.m_flag ≠ .VALID
  /-- The messages carry nothing else, and nothing else is changed. -/
  only : ∀ h ∈ o.built, ∀ d n, h.find d = some n → d = nextHop ∨
    ∃ e, (s.seen now).find d = some e ∧ e.getNextHop = nextHop ∧ e.m_seqNo = n
  others : ∀ d, d ≠ nextHop → (∀ e, (s.seen now).find d = some e → e.getNextHop ≠ nextHop) →
    ∃ t, s.m_routingTable.PurgedTo now t ∧ o.sender.m_routingTable.find d = t.find d

section Reported

variable {toNextHop : RoutingTableEntry}

theorem find_header {header : RerrHeader} {first : RerrHeader} {seqNo : UInt32}
    (hfirst : ∀ d, first.find d = if d = nextHop then some seqNo else none)
    (hheader : ∀ d, header.find d = (first.find d).or (OrderedMap.find d ((s.seen now).usersOf nextHop)))
    (d : Ipv4Address) (n : UInt32) :
    header.find d = some n ↔ d = nextHop ∧ n = seqNo ∨
      d ≠ nextHop ∧ ∃ e, (s.seen now).find d = some e ∧ e.getNextHop = nextHop ∧ e.m_seqNo = n := by
  rw [hheader, hfirst]
  by_cases hd : d = nextHop
  · rw [if_pos hd, Option.some_or, Option.some_inj, or_iff_left fun h ↦ h.1 hd, eq_comm]
    exact (and_iff_right hd).symm
  · rw [if_neg hd, Option.none_or, or_iff_right fun h ↦ hd h.1, and_iff_right hd,
      (RoutingTable.sorted_usersOf _ _).find_eq_some, RoutingTable.mem_usersOf]

theorem find_invalidated {t : RoutingTable} (nextHop : Ipv4Address) (seqNo : UInt32)
    (ht : (s.seen now).PurgedTo now t) :
    let t' := t.invalidateRoutesWithDst (withNextHop ((s.seen now).usersOf nextHop) nextHop seqNo) now
    (∀ d e, t'.find d = some e → d = nextHop ∨ e.getNextHop = nextHop → e.m_flag ≠ .VALID) ∧
      ∀ d, d ≠ nextHop → (∀ e, (s.seen now).find d = some e → e.getNextHop ≠ nextHop) →
        t'.find d = (t.purge now).find d := by
  intro t'
  have hpurged := ht.trans (.purge t now)
  refine ⟨fun d e he hd hvalid ↦ ?_, fun d hd hnot ↦ ?_⟩
  · rw [RoutingTable.find_invalidateRoutesWithDst] at he
    obtain ⟨e₀, he₀, rfl⟩ := Option.map_eq_some_iff.mp he
    rw [RoutingTableEntry.getNextHop, RoutingTable.invalidateIf_route] at hd
    have hmem : d ∈ OrderedMap.keys (withNextHop ((s.seen now).usersOf nextHop) nextHop seqNo) := by
      rw [mem_keys_withNextHop]
      refine hd.imp_right fun hvia ↦ ?_
      obtain ⟨e₁, he₁, hvia₁⟩ := hpurged.nextHop_of_find he₀
      exact OrderedMap.mem_keys.mpr ⟨(d, e₁.m_seqNo), RoutingTable.mem_usersOf.mpr
        ⟨e₁, he₁, hvia₁.trans hvia, rfl⟩, rfl⟩
    rw [RoutingTable.invalidateIf] at hvalid
    split_ifs at hvalid with hflag
    · rw [RoutingTableEntry.invalidate_flag] at hvalid
      exact absurd hvalid (by decide)
    · exact hflag ⟨hmem, hvalid⟩
  · have hnotmem : d ∉ OrderedMap.keys (withNextHop ((s.seen now).usersOf nextHop) nextHop seqNo) := by
      rw [mem_keys_withNextHop, not_or]
      refine ⟨hd, fun hmem ↦ ?_⟩
      obtain ⟨x, hx, rfl⟩ := OrderedMap.mem_keys.mp hmem
      obtain ⟨e, he, hvia, -⟩ := RoutingTable.mem_usersOf.mp hx
      exact hnot e he hvia
    rw [RoutingTable.find_invalidateRoutesWithDst]
    have hid : t.invalidateIf (withNextHop ((s.seen now).usersOf nextHop) nextHop seqNo) now d = id :=
      funext fun e ↦ if_neg fun h ↦ hnotmem h.1
    rw [hid, Option.map_id, id]

theorem sendRerrWhenBreaksLinkToNextHop_eq {first : Bool × RerrHeader}
    (hfound : (s.m_routingTable.purge now).find nextHop = some toNextHop)
    (hadd : RerrHeader.empty.addUnDestination nextHop toNextHop.m_seqNo = some first)
    (hloop : rerrLoop now (2 * ((s.seen now).usersOf nextHop).length) ((s.seen now).usersOf nextHop)
      ⟨first.2, toNextHop.getPrecursors [], { s with m_routingTable := s.seen now }, [], []⟩ = some o)
    (hsend : o.sendLast now = some o') :
    sendRerrWhenBreaksLinkToNextHop now s nextHop = some { o' with
      sender := { o'.sender with
        m_routingTable := o'.sender.m_routingTable.invalidateRoutesWithDst
          (withNextHop ((s.seen now).usersOf nextHop) nextHop toNextHop.m_seqNo) now } } := by
  rw [sendRerrWhenBreaksLinkToNextHop]
  dsimp only
  rw [show (s.m_routingTable.lookupRoute nextHop now).2 = some toNextHop from hfound]
  exact (congrArg (Option.bind · _) hadd).trans ((congrArg (Option.bind · _) hloop).trans
    (congrArg (Option.bind · _) hsend))

theorem exists_first (s : RerrSender) (now : ℤ) (nextHop : Ipv4Address) (seqNo : UInt32) :
    ∃ first, RerrHeader.empty.addUnDestination nextHop seqNo = some (true, first) ∧
      (∀ d, first.find d = if d = nextHop then some seqNo else none) ∧ first.size = 1 ∧
      first.sizeWith ((s.seen now).usersOf nextHop) = (s.others now nextHop).length + 1 := by
  have hempty : ∃ first, RerrHeader.empty.addUnDestination nextHop seqNo = some (true, first) ∧
      (∀ d, first.find d = if d = nextHop then some seqNo else none) ∧ first.size = 1 :=
    RerrHeader.addUnDestination_of_size_lt seqNo (Or.inr (by decide))
  obtain ⟨first, hadd, hfirst, hsize⟩ := hempty
  refine ⟨first, hadd, hfirst, hsize, ?_⟩
  rw [RerrHeader.sizeWith, hsize, Nat.add_comm, RerrSender.others]
  congr 2
  refine List.filter_congr fun x _ ↦ ?_
  rw [hfirst]
  by_cases hx : x.1 = nextHop
  · rw [if_pos hx]
    exact (decide_eq_false (not_not.mpr hx)).symm
  · rw [if_neg hx]
    exact (decide_eq_true hx).symm

/-- A precursor of the next hop's entry, or of an entry that uses the next hop. -/
def RerrSender.PrecursorOver (s : RerrSender) (nextHop k : Ipv4Address) : Prop :=
  ∃ d e, s.m_routingTable.find d = some e ∧ (d = nextHop ∨ e.getNextHop = nextHop) ∧ k ∈ e.m_precursorList

theorem exists_sendRerrWhenBreaksLinkToNextHop (hready : s.Ready (s.PrecursorOver nextHop))
    (hfound : (s.m_routingTable.purge now).find nextHop = some toNextHop)
    (hfew : (s.others now nextHop).length + 1 ≤ 255) :
    ∃ o header, sendRerrWhenBreaksLinkToNextHop now s nextHop = some o ∧ o.built = [header] ∧
      header.size = (s.others now nextHop).length + 1 ∧
      ∀ d n, header.find d = some n ↔ d = nextHop ∧ n = toNextHop.m_seqNo ∨
        d ≠ nextHop ∧ ∃ e, (s.seen now).find d = some e ∧ e.getNextHop = nextHop ∧ e.m_seqNo = n := by
  obtain ⟨first, hadd, hfirst, -, hwith⟩ := exists_first s now nextHop toNextHop.m_seqNo
  have hloop := rerrLoop_eq_some (o := ⟨first, toNextHop.getPrecursors [],
    { s with m_routingTable := s.seen now }, [], []⟩) now
    (RoutingTable.sorted_usersOf (s.seen now) nextHop).nodup (hwith.trans_le hfew)
    (Nat.le_mul_of_pos_left _ two_pos)
  obtain ⟨o, t, hloop, hpurged, hsender, hbuilt, hcount, hheader, hprecursors⟩ := hloop
  have hcount := hcount.trans hwith
  have hpurge := RoutingTable.PurgedTo.purge s.m_routingTable now
  have hseen : s.m_routingTable.PurgedTo now (s.seen now) := hpurge.trans (.purge _ now)
  have hover : ∀ k ∈ o.precursors, s.PrecursorOver nextHop k := by
    intro k hk
    obtain hk | ⟨x, hx, e, he, hk⟩ := hprecursors k hk
    · obtain ⟨e, he, -, heq⟩ := hpurge.precursors_of_find hfound
      exact ⟨nextHop, e, he, Or.inl rfl,
        heq ▸ (RoutingTableEntry.mem_of_mem_getPrecursors hk).resolve_left List.not_mem_nil⟩
    · obtain ⟨e', he', hvia, -⟩ := RoutingTable.mem_usersOf.mp hx
      obtain rfl := Option.some_inj.mp (he.symm.trans he')
      obtain ⟨e₀, he₀, hvia₀, heq⟩ := hseen.precursors_of_find he
      exact ⟨x.1, e₀, he₀, Or.inr (hvia₀.trans hvia), heq ▸ hk⟩
  have hready' : o.sender.Ready (· ∈ o.precursors) := by
    rw [hsender]
    exact hready.purgedTo (hseen.trans hpurged) hover
  obtain ⟨r, hr⟩ := hready'.exists_sendRerrMessage now o.rerrHeader
  have hne : o.rerrHeader.getDestCount ≠ 0 := by
    have hmod : o.rerrHeader.getDestCount.toNat = o.rerrHeader.size :=
      Nat.mod_eq_of_lt ((hcount.trans_le hfew).trans_lt (by decide))
    intro h
    rw [h, hcount] at hmod
    exact absurd hmod (Nat.succ_ne_zero _).symm
  have hsend : o.sendLast now = some { o with
      sender := r.1, built := o.built ++ [o.rerrHeader], sent := o.sent ++ r.2 } := by
    rw [RerrLocals.sendLast, if_pos hne, RerrLocals.send, hr, Option.map_some]
  exact ⟨_, o.rerrHeader, sendRerrWhenBreaksLinkToNextHop_eq hfound hadd hloop hsend,
    congrArg (· ++ [o.rerrHeader]) hbuilt, hcount, find_header hfirst hheader⟩

theorem sendRerrWhenBreaksLinkToNextHop_eq_none
    (hfound : (s.m_routingTable.purge now).find nextHop = some toNextHop)
    (hmany : 255 < (s.others now nextHop).length + 1) :
    sendRerrWhenBreaksLinkToNextHop now s nextHop = none := by
  obtain ⟨first, hadd, -, hsize, hwith⟩ := exists_first s now nextHop toNextHop.m_seqNo
  have hloop : rerrLoop now (2 * ((s.seen now).usersOf nextHop).length) ((s.seen now).usersOf nextHop)
      ⟨first, toNextHop.getPrecursors [], { s with m_routingTable := s.seen now }, [], []⟩ = none :=
    rerrLoop_eq_none now (RoutingTable.sorted_usersOf _ _).nodup (hsize.trans_le (by decide))
      (hmany.trans_eq hwith.symm)
  rw [sendRerrWhenBreaksLinkToNextHop]
  dsimp only
  rw [show (s.m_routingTable.lookupRoute nextHop now).2 = some toNextHop from hfound]
  exact (congrArg (Option.bind · _) hadd).trans (congrArg (Option.bind · _) hloop)

/-- **A broken link is reported**, when there are at most 255 destinations to report: the next hop, and
those whose entries use it. -/
theorem sendRerrWhenBreaksLinkToNextHop_reported (hready : s.Ready (s.PrecursorOver nextHop))
    (hfound : (s.m_routingTable.purge now).find nextHop = some toNextHop)
    (hfew : (s.others now nextHop).length + 1 ≤ 255) :
    ∃ o, sendRerrWhenBreaksLinkToNextHop now s nextHop = some o ∧
      Reported now s nextHop toNextHop.m_seqNo o := by
  obtain ⟨o, header, hrun, hbuilt, hsize, hfind⟩ :=
    exists_sendRerrWhenBreaksLinkToNextHop hready hfound hfew
  obtain ⟨-, hnone⟩ | ⟨t, e, ht, he, htable⟩ := table_of_sendRerrWhenBreaksLinkToNextHop hrun
  · exact absurd (hnone.symm.trans hfound) (Option.some_ne_none _).symm
  obtain rfl := Option.some_inj.mp (he.symm.trans hfound)
  obtain ⟨hinvalid, hkept⟩ := find_invalidated nextHop e.m_seqNo ht
  rw [← htable] at hinvalid hkept
  have hmem : ∀ h, h ∈ o.built ↔ h = header := by
    rw [hbuilt]
    exact fun h ↦ List.mem_singleton
  refine ⟨o, hrun, ?_, ?_, ?_, hinvalid, ?_, ?_⟩
  · intro h hh
    rw [(hmem h).mp hh, hsize]
    exact hfew
  · exact ⟨header, (hmem _).mpr rfl, (hfind _ _).mpr (Or.inl ⟨rfl, rfl⟩)⟩
  · intro d e' he' hvia hd
    exact ⟨header, (hmem _).mpr rfl, (hfind _ _).mpr (Or.inr ⟨hd, e', he', hvia, rfl⟩)⟩
  · intro h hh d n hn
    rw [(hmem h).mp hh] at hn
    exact ((hfind d n).mp hn).imp And.left And.right
  · intro d hd hnot
    have hseen : s.m_routingTable.PurgedTo now (s.seen now) :=
      (RoutingTable.PurgedTo.purge _ now).trans (.purge _ now)
    exact ⟨t.purge now, (hseen.trans ht).trans (.purge t now), hkept d hd hnot⟩

/-! ## What other entries see of it -/

variable {k : Ipv4Address}

theorem badLinkLifetime_of_sendRerrWhenBreaksLinkToNextHop
    (h : sendRerrWhenBreaksLinkToNextHop now s nextHop = some o) :
    o.sender.m_routingTable.m_badLinkLifetime = s.m_routingTable.m_badLinkLifetime := by
  obtain ⟨htable, -⟩ | ⟨t, e, ht, -, htable⟩ := table_of_sendRerrWhenBreaksLinkToNextHop h
  · rw [htable]
    rfl
  · rw [htable]
    exact ht.badLinkLifetime

/-- An entry for another destination over another neighbour is purged only. -/
theorem find_of_sendRerrWhenBreaksLinkToNextHop
    (h : sendRerrWhenBreaksLinkToNextHop now s nextHop = some o) (hk : k ≠ nextHop)
    (hvia : ∀ e, s.m_routingTable.find k = some e → e.getNextHop ≠ nextHop) :
    ∃ t, (s.m_routingTable.purge now).PurgedTo now t ∧ o.sender.m_routingTable.find k = t.find k := by
  obtain ⟨htable, -⟩ | ⟨t, e, ht, -, htable⟩ := table_of_sendRerrWhenBreaksLinkToNextHop h
  · exact ⟨_, .refl _ _, by rw [htable]⟩
  · have hseen : (s.m_routingTable.purge now).PurgedTo now (s.seen now) := .purge _ now
    refine ⟨t.purge now, (hseen.trans ht).trans (.purge t now), ?_⟩
    rw [htable]
    refine (find_invalidated nextHop e.m_seqNo ht).2 k hk fun e' he' ↦ ?_
    obtain ⟨e₀, he₀, hvia₀⟩ := ((RoutingTable.PurgedTo.purge _ now).trans hseen).nextHop_of_find he'
    rw [← hvia₀]
    exact hvia e₀ he₀

theorem find_of_valid_sendRerrWhenBreaksLinkToNextHop {e : RoutingTableEntry}
    (h : sendRerrWhenBreaksLinkToNextHop now s nextHop = some o)
    (he : o.sender.m_routingTable.find k = some e) (hvalid : e.m_flag = .VALID) :
    s.m_routingTable.find k = some e := by
  obtain ⟨htable, -⟩ | ⟨t, _, ht, -, htable⟩ := table_of_sendRerrWhenBreaksLinkToNextHop h
  · rw [htable] at he
    exact (RoutingTable.PurgedTo.purge _ now).find_of_valid he hvalid
  · rw [htable] at he
    have hseen : s.m_routingTable.PurgedTo now (s.seen now) :=
      (RoutingTable.PurgedTo.purge _ now).trans (.purge _ now)
    exact ((hseen.trans ht).trans (.purge t now)).find_of_valid
      (RoutingTable.find_of_invalidateRoutesWithDst he hvalid) hvalid

theorem not_valid_of_sendRerrWhenBreaksLinkToNextHop {e : RoutingTableEntry}
    (h : sendRerrWhenBreaksLinkToNextHop now s nextHop = some o)
    (he : o.sender.m_routingTable.find k = some e)
    (hk : k = nextHop ∨ e.getNextHop = nextHop ∧ (s.m_routingTable.purge now).find nextHop ≠ none) :
    e.m_flag ≠ .VALID := by
  obtain ⟨htable, hnone⟩ | ⟨t, toNextHop, ht, -, htable⟩ := table_of_sendRerrWhenBreaksLinkToNextHop h
  · rcases hk with rfl | ⟨-, hfound⟩
    · rw [htable, hnone] at he
      exact absurd he (Option.some_ne_none _).symm
    · exact absurd hnone hfound
  · rw [htable] at he
    exact (find_invalidated nextHop toNextHop.m_seqNo ht).1 k e he (hk.imp_right And.left)

end Reported

/-! ## Three tables -/

/-- An interface, with the index of its device. -/
def wlan (n : ℕ) : Ipv4InterfaceAddress := ⟨n, 0xffffff00, 255⟩

/-- A valid entry with a lifetime of 10, on the first interface. -/
def entryVia (dst nextHop : Ipv4Address) (seqNo : UInt32) : RoutingTableEntry :=
  .new 0 dst true seqNo (wlan 0) 2 nextHop 10 0

/-- A table with such entries. -/
def tableOf (es : List RoutingTableEntry)
    (sorted : OrderedMap.Sorted (es.map fun e ↦ (e.getDestination, e))) : RoutingTable where
  m_badLinkLifetime := 15
  m_ipv4AddressEntry := es.map fun e ↦ (e.getDestination, e)
  sorted := sorted
  keyed := by
    intro x hx
    obtain ⟨e, -, rfl⟩ := List.mem_map.mp hx
    rfl

/-- A sender with a socket on the first interface. -/
def senderOf (t : RoutingTable) : RerrSender := ⟨t, [wlan 0], 0, 10, true⟩

/-- The route to the node itself, on an interface without a socket. -/
def loopback : RoutingTableEntry :=
  .new 1 0x7f000001 true 0 ⟨0x7f000001, 0xff000000, 0x7fffffff⟩ 1 0x7f000001 10 0

/-- The next hop 1 is itself reached over 9; so is 6, and 5 is reached over 1. -/
def detour : RerrSender :=
  senderOf (tableOf [entryVia 1 9 11, { entryVia 5 1 15 with m_precursorList := [6] }, entryVia 6 9 16,
    loopback] (by decide))

theorem detour_ready : detour.Ready (detour.PrecursorOver 1) where
  timer := rfl
  sockets := by
    rintro k e ⟨d, e', he', -, hk⟩ he -
    have hall : ∀ x ∈ detour.m_routingTable.m_ipv4AddressEntry, ∀ y ∈ detour.m_routingTable.m_ipv4AddressEntry,
        y.1 ∈ x.2.m_precursorList → y.2.m_iface ∈ detour.m_socketAddresses := by decide
    exact hall _ (RoutingTable.find_eq_some.mp he') _ (RoutingTable.find_eq_some.mp he) hk

theorem sendRerrWhenBreaksLinkToNextHop_reported_detour :
    ∃ o, sendRerrWhenBreaksLinkToNextHop 0 detour 1 = some o ∧ Reported 0 detour 1 11 o := by
  have hfound : (detour.m_routingTable.purge 0).find 1 = some (entryVia 1 9 11) := by decide
  exact sendRerrWhenBreaksLinkToNextHop_reported detour_ready hfound (by decide)

theorem pairwise_ofNat_lt :
    (List.range 256).Pairwise fun i j ↦ BitVec.ofNat 32 (i + 1) < BitVec.ofNat 32 (j + 1) :=
  List.pairwise_lt_range.imp_of_mem fun _ hj hij ↦ by
    have hj := List.mem_range.mp hj
    exact BitVec.ofNat_lt_ofNat.mpr (by omega)

/-- 256 destinations over the next hop 1, itself among them. -/
def crowded : RerrSender :=
  senderOf (tableOf ((List.range 256).map fun i ↦ entryVia (.ofNat 32 (i + 1)) 1 0)
    (List.pairwise_map.mpr (List.pairwise_map.mpr (List.pairwise_map.mpr pairwise_ofNat_lt))))

/-- **A valid route to the next hop over another neighbour is invalidated**, 256 destinations are too many
for the message, and a precursor's route needs a socket. -/
theorem not_reported_for_every_table :
    (∃ o e, sendRerrWhenBreaksLinkToNextHop 0 detour 1 = some o ∧
      (∀ t, detour.m_routingTable.PurgedTo 0 t → t.find 1 = some e) ∧
      e.getNextHop = 9 ∧ e.m_flag = .VALID ∧ o.sender.m_routingTable.find 1 = some (e.invalidate 15 0)) ∧
    ((crowded.m_routingTable.purge 0).find 1 = some (entryVia 1 1 0) ∧
      sendRerrWhenBreaksLinkToNextHop 0 crowded 1 = none) ∧
    sendRerrWhenBreaksLinkToNextHop 0 { detour with m_socketAddresses := [] } 1 = none := by
  refine ⟨?_, ?_, ?_⟩
  · have hrun : (sendRerrWhenBreaksLinkToNextHop 0 detour 1).bind
        (fun o ↦ o.sender.m_routingTable.find 1) = some ((entryVia 1 9 11).invalidate 15 0) := by decide
    obtain ⟨o, ho, hfind⟩ := Option.bind_eq_some_iff.mp hrun
    exact ⟨o, entryVia 1 9 11, ho, fun t ht ↦ ht.find_of_live (by decide) (by decide), rfl, rfl, hfind⟩
  · have hfound : (crowded.m_routingTable.purge 0).find 1 = some (entryVia 1 1 0) := by decide +kernel
    exact ⟨hfound, sendRerrWhenBreaksLinkToNextHop_eq_none hfound (by decide +kernel)⟩
  · exact Option.isNone_iff_eq_none.mp (by decide)

end Routing

end Aodv

end Ns3
