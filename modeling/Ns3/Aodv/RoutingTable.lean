import Ns3.Library.OrderedMap
import Ns3.Network.Ipv4Address

/-!
# The routing table of AODV

The table is a map from destinations to entries. Most operations begin with a purge: an entry whose
lifetime is over becomes invalid, and an invalid entry whose lifetime is over is removed. An operation may
purge the table several times at one moment; only when the lifetime of a bad link is negative does a second
purge find something to do.

An entry shares its route with the copies that a lookup hands out. Every writer of such a copy stores it
back before anything else reads the table, so that the route is a value here.
-/

namespace Ns3

namespace Aodv

namespace Routing

inductive RouteFlags where
  | VALID
  | INVALID
  | IN_SEARCH
  deriving DecidableEq

/-- What is used of an `Ipv4InterfaceAddress`. -/
structure Ipv4InterfaceAddress where
  m_local : Ipv4Address
  m_mask : Ipv4Mask
  m_broadcast : Ipv4Address
  deriving DecidableEq

/-- The route of an entry, with the index of its output device. -/
structure EntryRoute where
  m_dest : Ipv4Address
  m_source : Ipv4Address
  m_gateway : Ipv4Address
  m_outputDevice : ℕ
  deriving DecidableEq

structure RoutingTableEntry where
  m_validSeqNo : Bool
  m_seqNo : UInt32
  m_hops : UInt16
  m_lifeTime : ℤ
  m_ipv4Route : EntryRoute
  m_iface : Ipv4InterfaceAddress
  m_flag : RouteFlags
  m_precursorList : List Ipv4Address
  m_reqCount : UInt8
  m_blackListState : Bool
  deriving DecidableEq

namespace RoutingTableEntry

variable {e : RoutingTableEntry} {badLinkLifetime now : ℤ}

/-- The constructor. -/
def new (dev : ℕ) (dst : Ipv4Address) (vSeqNo : Bool) (seqNo : UInt32) (iface : Ipv4InterfaceAddress)
    (hops : UInt16) (nextHop : Ipv4Address) (lifetime now : ℤ) : RoutingTableEntry where
  m_validSeqNo := vSeqNo
  m_seqNo := seqNo
  m_hops := hops
  m_lifeTime := lifetime + now
  m_ipv4Route := ⟨dst, iface.m_local, nextHop, dev⟩
  m_iface := iface
  m_flag := .VALID
  m_precursorList := []
  m_reqCount := 0
  m_blackListState := false

def getDestination (e : RoutingTableEntry) : Ipv4Address := e.m_ipv4Route.m_dest

def getNextHop (e : RoutingTableEntry) : Ipv4Address := e.m_ipv4Route.m_gateway

def getLifeTime (e : RoutingTableEntry) (now : ℤ) : ℤ := e.m_lifeTime - now

def insertPrecursor (e : RoutingTableEntry) (id : Ipv4Address) : RoutingTableEntry :=
  if id ∈ e.m_precursorList then e else { e with m_precursorList := e.m_precursorList ++ [id] }

/-- The precursors that are not in the list yet are appended to it. -/
def getPrecursors (e : RoutingTableEntry) (prec : List Ipv4Address) : List Ipv4Address :=
  e.m_precursorList.foldl (fun prec i ↦ if i ∈ prec then prec else prec ++ [i]) prec

theorem mem_of_mem_getPrecursors {prec : List Ipv4Address} {i : Ipv4Address}
    (h : i ∈ e.getPrecursors prec) : i ∈ prec ∨ i ∈ e.m_precursorList := by
  refine List.foldlRecOn (motive := fun l ↦ i ∈ l → i ∈ prec ∨ i ∈ e.m_precursorList) _ _ Or.inl ?_ h
  intro l ih j hj hi
  split_ifs at hi
  · exact ih hi
  · rcases List.mem_append.mp hi with hi | hi
    · exact ih hi
    · exact Or.inr (List.mem_singleton.mp hi ▸ hj)

def invalidate (e : RoutingTableEntry) (badLinkLifetime now : ℤ) : RoutingTableEntry :=
  if e.m_flag = .INVALID then e
  else { e with m_flag := .INVALID, m_reqCount := 0, m_lifeTime := badLinkLifetime + now }

@[simp] theorem invalidate_flag : (e.invalidate badLinkLifetime now).m_flag = .INVALID := by
  rw [invalidate]
  split_ifs with h
  · exact h
  · rfl

@[simp] theorem invalidate_route : (e.invalidate badLinkLifetime now).m_ipv4Route = e.m_ipv4Route := by
  rw [invalidate]
  split_ifs <;> rfl

@[simp] theorem invalidate_precursors :
    (e.invalidate badLinkLifetime now).m_precursorList = e.m_precursorList := by
  rw [invalidate]
  split_ifs <;> rfl

/-- What a purge leaves of an entry. -/
def purge (badLinkLifetime now : ℤ) (e : RoutingTableEntry) : Option RoutingTableEntry :=
  if e.getLifeTime now < 0 then
    match e.m_flag with
    | .INVALID => none
    | .VALID => some (e.invalidate badLinkLifetime now)
    | .IN_SEARCH => some e
  else some e

theorem purge_of_live (h : 0 ≤ e.getLifeTime now) : e.purge badLinkLifetime now = some e :=
  if_neg h.not_gt

/-- A purge leaves an entry as it is, or makes an invalid entry of a valid one. -/
theorem eq_of_purge {e' : RoutingTableEntry} (h : e.purge badLinkLifetime now = some e') :
    e' = e ∨ e' = e.invalidate badLinkLifetime now := by
  rw [purge] at h
  split_ifs at h
  · cases hflag : e.m_flag <;> rw [hflag] at h
    · exact Or.inr (Option.some_inj.mp h).symm
    · exact absurd h (Option.some_ne_none _).symm
    · exact Or.inl (Option.some_inj.mp h).symm
  · exact Or.inl (Option.some_inj.mp h).symm

theorem route_of_purge {e' : RoutingTableEntry} (h : e.purge badLinkLifetime now = some e') :
    e'.m_ipv4Route = e.m_ipv4Route := by
  rcases eq_of_purge h with rfl | rfl
  · rfl
  · exact invalidate_route

theorem of_purge_valid {e' : RoutingTableEntry} (h : e.purge badLinkLifetime now = some e')
    (hvalid : e'.m_flag = .VALID) : e' = e ∧ 0 ≤ e.getLifeTime now := by
  rw [purge] at h
  split_ifs at h with hlife
  · cases hflag : e.m_flag <;> rw [hflag] at h
    · rw [← Option.some_inj.mp h, invalidate_flag] at hvalid
      exact absurd hvalid (by decide)
    · exact absurd h (Option.some_ne_none _).symm
    · rw [← Option.some_inj.mp h, hflag] at hvalid
      exact absurd hvalid (by decide)
  · exact ⟨(Option.some_inj.mp h).symm, not_lt.mp hlife⟩

theorem exists_purge_of_valid (badLinkLifetime now : ℤ) (hvalid : e.m_flag = .VALID) :
    ∃ e', e.purge badLinkLifetime now = some e' ∧ e'.getNextHop = e.getNextHop ∧
      (e' = e ∧ 0 ≤ e.getLifeTime now ∨ e'.m_flag = .INVALID ∧ e'.getLifeTime now = badLinkLifetime) := by
  by_cases hlife : e.getLifeTime now < 0
  · refine ⟨e.invalidate badLinkLifetime now, by rw [purge, if_pos hlife, hvalid],
      congrArg EntryRoute.m_gateway invalidate_route, Or.inr ⟨invalidate_flag, ?_⟩⟩
    rw [invalidate, if_neg (by rw [hvalid]; decide)]
    exact add_sub_cancel_right _ _
  · exact ⟨e, purge_of_live (not_lt.mp hlife), rfl, Or.inl ⟨rfl, not_lt.mp hlife⟩⟩

/-- `SetRreqCnt (0)` for an entry that is not searched for. -/
def resetRreqCnt (e : RoutingTableEntry) : RoutingTableEntry :=
  if e.m_flag ≠ .IN_SEARCH then { e with m_reqCount := 0 } else e

@[simp] theorem resetRreqCnt_flag : e.resetRreqCnt.m_flag = e.m_flag := by
  rw [resetRreqCnt]
  split_ifs <;> rfl

@[simp] theorem resetRreqCnt_route : e.resetRreqCnt.m_ipv4Route = e.m_ipv4Route := by
  rw [resetRreqCnt]
  split_ifs <;> rfl

end RoutingTableEntry

/-! ## The table -/

/-- The table: a map from the destinations of its entries. -/
structure RoutingTable where
  m_badLinkLifetime : ℤ
  m_ipv4AddressEntry : List (Ipv4Address × RoutingTableEntry)
  sorted : OrderedMap.Sorted m_ipv4AddressEntry
  keyed : ∀ x ∈ m_ipv4AddressEntry, x.2.getDestination = x.1

namespace RoutingTable

variable {t : RoutingTable} {now : ℤ} {k : Ipv4Address}

/-- The entry of a destination. -/
def find (t : RoutingTable) (k : Ipv4Address) : Option RoutingTableEntry :=
  OrderedMap.find k t.m_ipv4AddressEntry

theorem find_eq_some {e : RoutingTableEntry} : t.find k = some e ↔ (k, e) ∈ t.m_ipv4AddressEntry :=
  t.sorted.find_eq_some

theorem getDestination_of_find {e : RoutingTableEntry} (h : t.find k = some e) : e.getDestination = k :=
  t.keyed _ (find_eq_some.mp h)

/-- Each entry is changed or removed; the destinations stay. -/
def change (t : RoutingTable) (f : Ipv4Address → RoutingTableEntry → Option RoutingTableEntry)
    (hf : ∀ k e e', f k e = some e' → e'.m_ipv4Route = e.m_ipv4Route) : RoutingTable where
  m_badLinkLifetime := t.m_badLinkLifetime
  m_ipv4AddressEntry := OrderedMap.update f t.m_ipv4AddressEntry
  sorted := t.sorted.update f
  keyed := by
    rintro ⟨k, e'⟩ hx
    obtain ⟨e, he, hchange⟩ := OrderedMap.mem_update.mp hx
    exact (congrArg EntryRoute.m_dest (hf k e e' hchange)).trans (t.keyed _ he)

theorem find_change {f : Ipv4Address → RoutingTableEntry → Option RoutingTableEntry}
    {hf : ∀ k e e', f k e = some e' → e'.m_ipv4Route = e.m_ipv4Route} :
    (t.change f hf).find k = (t.find k).bind (f k) :=
  t.sorted.find_update f k

def purge (t : RoutingTable) (now : ℤ) : RoutingTable :=
  t.change (fun _ ↦ RoutingTableEntry.purge t.m_badLinkLifetime now) fun _ _ _ ↦
    RoutingTableEntry.route_of_purge

@[simp] theorem purge_badLinkLifetime : (t.purge now).m_badLinkLifetime = t.m_badLinkLifetime := rfl

theorem find_purge :
    (t.purge now).find k = (t.find k).bind (RoutingTableEntry.purge t.m_badLinkLifetime now) :=
  find_change

def lookupRoute (t : RoutingTable) (id : Ipv4Address) (now : ℤ) :
    RoutingTable × Option RoutingTableEntry :=
  (t.purge now, (t.purge now).find id)

/-- The table after the lookup, and the entry if it is a valid one. -/
def lookupValidRoute (t : RoutingTable) (id : Ipv4Address) (now : ℤ) :
    RoutingTable × Option RoutingTableEntry :=
  ((t.lookupRoute id now).1, (t.lookupRoute id now).2.filter fun e ↦ e.m_flag = .VALID)

/-- The entry of a destination is set. -/
def set (t : RoutingTable) (rt : RoutingTableEntry) : RoutingTable where
  m_badLinkLifetime := t.m_badLinkLifetime
  m_ipv4AddressEntry := OrderedMap.insert rt.getDestination rt t.m_ipv4AddressEntry
  sorted := t.sorted.insert _ _
  keyed := by
    intro x hx
    have hfind := (t.sorted.insert rt.getDestination rt).find_eq_some.mpr hx
    rw [OrderedMap.find_insert] at hfind
    split_ifs at hfind with hk
    · rw [← Option.some_inj.mp hfind, hk]
    · exact t.getDestination_of_find hfind

theorem find_set {rt : RoutingTableEntry} :
    (t.set rt).find k = if k = rt.getDestination then some rt else t.find k :=
  OrderedMap.find_insert _ _ _ _

def addRoute (t : RoutingTable) (rt : RoutingTableEntry) (now : ℤ) : RoutingTable × Bool :=
  if ((t.purge now).find rt.getDestination).isSome then (t.purge now, false)
  else ((t.purge now).set rt.resetRreqCnt, true)

def update (t : RoutingTable) (rt : RoutingTableEntry) : RoutingTable × Bool :=
  if (t.find rt.getDestination).isSome then (t.set rt.resetRreqCnt, true) else (t, false)

theorem find_update {rt : RoutingTableEntry} :
    (t.update rt).1.find k =
      if k = rt.getDestination ∧ (t.find k).isSome then some rt.resetRreqCnt else t.find k := by
  have hdest : rt.resetRreqCnt.getDestination = rt.getDestination :=
    congrArg EntryRoute.m_dest RoutingTableEntry.resetRreqCnt_route
  rw [update]
  by_cases hk : k = rt.getDestination
  · rw [← hk]
    by_cases hfound : (t.find k).isSome
    · rw [if_pos hfound, if_pos ⟨rfl, hfound⟩, find_set, if_pos (hk.trans hdest.symm)]
    · rw [if_neg hfound, if_neg (not_and_of_not_right _ hfound)]
  · rw [if_neg (not_and_of_not_left _ hk)]
    by_cases hfound : (t.find rt.getDestination).isSome
    · rw [if_pos hfound, find_set, if_neg fun h ↦ hk (h.trans hdest)]
    · rw [if_neg hfound]

theorem find_addRoute {rt : RoutingTableEntry} (hnew : t.find rt.getDestination = none) :
    (t.addRoute rt now).1.find k =
      if k = rt.getDestination then some rt.resetRreqCnt else (t.purge now).find k := by
  have hdest : rt.resetRreqCnt.getDestination = rt.getDestination :=
    congrArg EntryRoute.m_dest RoutingTableEntry.resetRreqCnt_route
  have hnone : (t.purge now).find rt.getDestination = none := by rw [find_purge, hnew, Option.bind_none]
  rw [addRoute, hnone, if_neg (by decide), find_set, hdest]

@[simp] theorem update_badLinkLifetime {rt : RoutingTableEntry} :
    (t.update rt).1.m_badLinkLifetime = t.m_badLinkLifetime := by
  rw [update]
  split_ifs <;> rfl

@[simp] theorem addRoute_badLinkLifetime {rt : RoutingTableEntry} :
    (t.addRoute rt now).1.m_badLinkLifetime = t.m_badLinkLifetime := by
  rw [addRoute]
  split_ifs <;> rfl

/-- The destinations of the entries that use the next hop, with their sequence numbers. -/
def usersOf (t : RoutingTable) (nextHop : Ipv4Address) : List (Ipv4Address × UInt32) :=
  OrderedMap.update (fun _ e ↦ if e.getNextHop = nextHop then some e.m_seqNo else none)
    t.m_ipv4AddressEntry

def getListOfDestinationWithNextHop (t : RoutingTable) (nextHop : Ipv4Address) (now : ℤ) :
    RoutingTable × List (Ipv4Address × UInt32) :=
  (t.purge now, (t.purge now).usersOf nextHop)

/-- What becomes of an entry when these destinations are invalidated. -/
def invalidateIf (t : RoutingTable) (unreachable : List (Ipv4Address × UInt32)) (now : ℤ)
    (k : Ipv4Address) (e : RoutingTableEntry) : RoutingTableEntry :=
  if k ∈ OrderedMap.keys unreachable ∧ e.m_flag = .VALID then e.invalidate t.m_badLinkLifetime now else e

theorem invalidateIf_route {unreachable : List (Ipv4Address × UInt32)} {e : RoutingTableEntry} :
    (t.invalidateIf unreachable now k e).m_ipv4Route = e.m_ipv4Route := by
  rw [invalidateIf]
  split_ifs
  · exact RoutingTableEntry.invalidate_route
  · rfl

def invalidateRoutesWithDst (t : RoutingTable) (unreachable : List (Ipv4Address × UInt32)) (now : ℤ) :
    RoutingTable :=
  (t.purge now).change (fun k e ↦ some (t.invalidateIf unreachable now k e)) fun _ _ _ h ↦
    (congrArg RoutingTableEntry.m_ipv4Route (Option.some_inj.mp h)).symm.trans invalidateIf_route

theorem find_invalidateRoutesWithDst {unreachable : List (Ipv4Address × UInt32)} :
    (t.invalidateRoutesWithDst unreachable now).find k =
      ((t.purge now).find k).map (t.invalidateIf unreachable now k) := by
  rw [invalidateRoutesWithDst, find_change]
  exact Option.map_eq_bind.symm

/-- A valid entry was there before destinations were invalidated. -/
theorem find_of_invalidateRoutesWithDst {unreachable : List (Ipv4Address × UInt32)} {e : RoutingTableEntry}
    (he : (t.invalidateRoutesWithDst unreachable now).find k = some e) (hvalid : e.m_flag = .VALID) :
    (t.purge now).find k = some e := by
  rw [find_invalidateRoutesWithDst] at he
  obtain ⟨e₀, he₀, rfl⟩ := Option.map_eq_some_iff.mp he
  rw [invalidateIf] at hvalid ⊢
  split_ifs at hvalid ⊢
  · rw [RoutingTableEntry.invalidate_flag] at hvalid
    exact absurd hvalid (by decide)
  · exact he₀

theorem mem_usersOf {nextHop : Ipv4Address} {x : Ipv4Address × UInt32} :
    x ∈ t.usersOf nextHop ↔ ∃ e, t.find x.1 = some e ∧ e.getNextHop = nextHop ∧ e.m_seqNo = x.2 := by
  rw [usersOf, OrderedMap.mem_update]
  refine exists_congr fun e ↦ and_congr find_eq_some.symm ?_
  by_cases h : e.getNextHop = nextHop
  · rw [if_pos h, Option.some_inj]
    exact (and_iff_right h).symm
  · rw [if_neg h]
    exact iff_of_false (Option.some_ne_none _).symm fun hx ↦ h hx.1

theorem sorted_usersOf (t : RoutingTable) (nextHop : Ipv4Address) :
    OrderedMap.Sorted (t.usersOf nextHop) :=
  t.sorted.update _

/-! ## Purged tables -/

/-- The table was purged, any number of times. -/
def PurgedTo (t : RoutingTable) (now : ℤ) (t' : RoutingTable) : Prop :=
  ∃ n, t' = (fun t ↦ t.purge now)^[n] t

namespace PurgedTo

variable {t' t'' : RoutingTable}

theorem refl (t : RoutingTable) (now : ℤ) : t.PurgedTo now t := ⟨0, rfl⟩

theorem trans (h : t.PurgedTo now t') (h' : t'.PurgedTo now t'') : t.PurgedTo now t'' := by
  obtain ⟨n, rfl⟩ := h
  obtain ⟨m, rfl⟩ := h'
  exact ⟨m + n, (Function.iterate_add_apply _ m n t).symm⟩

theorem purge (t : RoutingTable) (now : ℤ) : t.PurgedTo now (t.purge now) := ⟨1, rfl⟩

theorem badLinkLifetime (h : t.PurgedTo now t') : t'.m_badLinkLifetime = t.m_badLinkLifetime := by
  obtain ⟨n, rfl⟩ := h
  induction n with
  | zero => rfl
  | succ n ih =>
    rw [Function.iterate_succ_apply']
    exact ih

/-- **What a purge keeps, any number of purges keeps.** -/
theorem keeps {p : Option RoutingTableEntry → Prop} (h : t.PurgedTo now t')
    (hp : ∀ o, p o → p (o.bind (RoutingTableEntry.purge t.m_badLinkLifetime now))) (hk : p (t.find k)) :
    p (t'.find k) := by
  obtain ⟨n, rfl⟩ := h
  induction n with
  | zero => exact hk
  | succ n ih =>
    rw [Function.iterate_succ_apply', find_purge, badLinkLifetime ⟨n, rfl⟩]
    exact hp _ ih

theorem find_of_live {e : RoutingTableEntry} (h : t.PurgedTo now t') (he : t.find k = some e)
    (hlive : 0 ≤ e.getLifeTime now) : t'.find k = some e := by
  refine h.keeps (p := fun o ↦ o = some e) ?_ he
  rintro _ rfl
  exact RoutingTableEntry.purge_of_live hlive

theorem find_none (h : t.PurgedTo now t') (he : t.find k = none) : t'.find k = none := by
  refine h.keeps (p := fun o ↦ o = none) ?_ he
  rintro _ rfl
  rfl

/-- The entries of a purged table were there before, and each valid one has time left. -/
theorem of_find {e' : RoutingTableEntry} (h : t.PurgedTo now t') (he : t'.find k = some e') :
    ∃ e, t.find k = some e ∧ (e' = e ∨ e' = e.invalidate t.m_badLinkLifetime now) := by
  obtain ⟨n, rfl⟩ := h
  induction n generalizing e' with
  | zero => exact ⟨e', he, Or.inl rfl⟩
  | succ n ih =>
    rw [Function.iterate_succ_apply', find_purge, badLinkLifetime ⟨n, rfl⟩] at he
    obtain ⟨e₁, he₁, hpurge⟩ := Option.bind_eq_some_iff.mp he
    obtain ⟨e, he, heq⟩ := ih he₁
    refine ⟨e, he, ?_⟩
    rcases RoutingTableEntry.eq_of_purge hpurge with rfl | rfl
    · exact heq
    · rcases heq with rfl | rfl
      · exact Or.inr rfl
      · refine Or.inr ?_
        rw [RoutingTableEntry.invalidate, if_pos RoutingTableEntry.invalidate_flag]

theorem find_of_valid {e : RoutingTableEntry} (h : t.PurgedTo now t') (he : t'.find k = some e)
    (hvalid : e.m_flag = .VALID) : t.find k = some e := by
  obtain ⟨e₀, he₀, rfl | rfl⟩ := h.of_find he
  · exact he₀
  · rw [RoutingTableEntry.invalidate_flag] at hvalid
    exact absurd hvalid (by decide)

theorem precursors_of_find {e' : RoutingTableEntry} (h : t.PurgedTo now t') (he : t'.find k = some e') :
    ∃ e, t.find k = some e ∧ e.getNextHop = e'.getNextHop ∧ e.m_precursorList = e'.m_precursorList := by
  obtain ⟨e, hfind, rfl | rfl⟩ := h.of_find he
  · exact ⟨e', hfind, rfl, rfl⟩
  · exact ⟨e, hfind, congrArg EntryRoute.m_gateway RoutingTableEntry.invalidate_route.symm,
      RoutingTableEntry.invalidate_precursors.symm⟩

theorem nextHop_of_find {e' : RoutingTableEntry} (h : t.PurgedTo now t') (he : t'.find k = some e') :
    ∃ e, t.find k = some e ∧ e.getNextHop = e'.getNextHop := by
  obtain ⟨e, hfind, hvia, -⟩ := h.precursors_of_find he
  exact ⟨e, hfind, hvia⟩

end PurgedTo

theorem lookupRoute_purgedTo (t : RoutingTable) (id : Ipv4Address) (now : ℤ) :
    t.PurgedTo now (t.lookupRoute id now).1 :=
  PurgedTo.purge t now

theorem lookupValidRoute_purgedTo (t : RoutingTable) (id : Ipv4Address) (now : ℤ) :
    t.PurgedTo now (t.lookupValidRoute id now).1 :=
  PurgedTo.purge t now

theorem find_of_lookupValidRoute {id : Ipv4Address} {e : RoutingTableEntry}
    (h : (t.lookupValidRoute id now).2 = some e) : t.find id = some e ∧ e.m_flag = .VALID := by
  obtain ⟨he, hvalid⟩ := Option.filter_eq_some_iff.mp h
  have hvalid := of_decide_eq_true hvalid
  exact ⟨(PurgedTo.purge t now).find_of_valid he hvalid, hvalid⟩

end RoutingTable

end Routing

end Aodv

end Ns3
