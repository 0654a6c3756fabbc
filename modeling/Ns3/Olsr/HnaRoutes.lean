import Ns3.Library.CheapestByKey
import Ns3.Library.Machine
import Ns3.Olsr.RoutingTable

/-!
# Routes to announced networks

A computation of the routing table ends with the routes to the networks that gateways announce. The routes of
the last computation are to be removed first, and then each association offers the route to its gateway, which
is taken if there is none to the network or only one that is longer.

The loop that removes the routes counts up to their number, which falls as it counts: it leaves the second
half of them (`clearHna_eq_drop`). A route that is left takes part as if it had been offered first, so it
stays unless a gateway of its network is nearer than it says. The routes then follow the associations just
where that does no harm (`LeftoversFit`).
-/

namespace Ns3

namespace Olsr

/-- The network of a route, as it is compared. -/
def HnaRoute.network (r : HnaRoute) : Ipv4Address × Ipv4Mask := (r.destNetwork, r.destNetworkMask)

namespace RoutingProtocol

variable {p : RoutingProtocol} {table : RoutingTable} {routes : List HnaRoute} {r : HnaRoute}

/-! ## What the routes are to be -/

/-- The table has the entry for a gateway of the network, which the node does not announce itself. -/
structure Gateway (p : RoutingProtocol) (table : RoutingTable) (network : Ipv4Address × Ipv4Mask)
    (e : RoutingTableEntry) : Prop where
  foreign : ∀ a ∈ p.m_state.m_associations, (a.networkAddr, a.netmask) ≠ network
  announced : ∃ t ∈ p.m_state.m_associationSet, (t.networkAddr, t.netmask) = network ∧
    table t.gatewayAddr = some e

/-- The route is one to a gateway of its network that no other is nearer than. -/
structure Nearest (p : RoutingProtocol) (table : RoutingTable) (r : HnaRoute) : Prop where
  gateway : ∃ e, p.Gateway table r.network e ∧ r.gateway = e.nextAddr ∧ r.interface = e.interface ∧
    r.metric = e.distance
  least : ∀ e, p.Gateway table r.network e → r.metric ≤ e.distance

/-- **The routes follow the associations**: one for each network with a gateway, and no others. -/
structure Follows (p : RoutingProtocol) : Prop where
  one : ∀ network e, p.Gateway p.m_table network e →
    ∃ r, p.m_hnaRoutingTable.filter (fun r ↦ r.network = network) = [r]
  nearest : ∀ r ∈ p.m_hnaRoutingTable, p.Nearest p.m_table r

/-- Each route of the second half is still that to a nearest gateway, or it is longer than that to one. -/
def LeftoversFit (p : RoutingProtocol) (table : RoutingTable) : Prop :=
  ∀ r ∈ p.m_hnaRoutingTable.drop ((p.m_hnaRoutingTable.length + 1) / 2),
    (∃ e, p.Gateway table r.network e ∧ e.distance < r.metric) ∨ p.Nearest table r

/-! ## The loops -/

theorem clearHna_eq_drop (i : ℕ) (routes : List HnaRoute) :
    clearHna i routes = routes.drop ((routes.length - i + 1) / 2) := by
  induction routes generalizing i with
  | nil => rw [clearHna, List.drop_nil]
  | cons r routes ih =>
    rw [clearHna, List.length_cons]
    split_ifs with hi
    · have hhalf : (routes.length + 1 - i + 1) / 2 = (routes.length - (i + 1) + 1) / 2 + 1 := by omega
      rw [ih, hhalf, List.drop_succ_cons]
    · rw [show (routes.length + 1 - i + 1) / 2 = 0 by omega, List.drop_zero]

/-- The route that an association offers. -/
def offered (p : RoutingProtocol) (table : RoutingTable) (t : AssociationTuple) : Option HnaRoute :=
  if ∃ a ∈ p.m_state.m_associations, a.networkAddr = t.networkAddr ∧ a.netmask = t.netmask then none
  else (table t.gatewayAddr).map fun e ↦ ⟨t.networkAddr, t.netmask, e.nextAddr, e.interface, e.distance⟩

theorem mem_offered : r ∈ p.m_state.m_associationSet.filterMap (p.offered table) ↔
    ∃ e, p.Gateway table r.network e ∧ r.gateway = e.nextAddr ∧ r.interface = e.interface ∧
      r.metric = e.distance := by
  have hforeign : ∀ t : AssociationTuple,
      (¬ ∃ a ∈ p.m_state.m_associations, a.networkAddr = t.networkAddr ∧ a.netmask = t.netmask) ↔
        ∀ a ∈ p.m_state.m_associations, (a.networkAddr, a.netmask) ≠ (t.networkAddr, t.netmask) := by
    intro t
    push Not
    simp only [ne_eq, Prod.mk.injEq, not_and]
  rw [List.mem_filterMap]
  constructor
  · rintro ⟨t, ht, hr⟩
    rw [offered] at hr
    split_ifs at hr with hlocal
    obtain ⟨e, he, rfl⟩ := Option.map_eq_some_iff.mp hr
    exact ⟨e, ⟨(hforeign t).mp hlocal, t, ht, rfl, he⟩, rfl, rfl, rfl⟩
  · rintro ⟨e, ⟨hall, t, ht, hnetwork, he⟩, hgateway, hinterface, hmetric⟩
    refine ⟨t, ht, ?_⟩
    rw [← hnetwork] at hall
    rw [offered, if_neg ((hforeign t).mpr hall), he, Option.map_some, ← hgateway, ← hinterface,
      ← hmetric]
    obtain ⟨hdest, hmask⟩ := Prod.mk.inj hnetwork
    rw [hdest, hmask]

theorem addAssociation_eq (p : RoutingProtocol) (table : RoutingTable) (routes : List HnaRoute)
    (t : AssociationTuple) : p.addAssociation table routes t = match p.offered table t with
      | none => routes
      | some route => CheapestByKey.offer HnaRoute.network HnaRoute.metric routes route := by
  rw [addAssociation, offered]
  by_cases hlocal : ∃ a ∈ p.m_state.m_associations, a.networkAddr = t.networkAddr ∧ a.netmask = t.netmask
  · rw [if_pos hlocal, if_pos hlocal]
  · rw [if_neg hlocal, if_neg hlocal]
    cases table t.gatewayAddr with
    | none => rfl
    | some e =>
      have htest : (fun r : HnaRoute ↦
          decide (r.destNetwork = t.networkAddr ∧ r.destNetworkMask = t.netmask)) =
          fun r ↦ decide (r.network = (t.networkAddr, t.netmask)) := by
        funext r
        rw [decide_eq_decide, HnaRoute.network, Prod.mk.injEq]
      dsimp only [Option.map_some]
      rw [htest, CheapestByKey.offer_eq_findIdx?]
      rfl

theorem foldl_addAssociation (p : RoutingProtocol) (table : RoutingTable) (routes : List HnaRoute) :
    p.m_state.m_associationSet.foldl (p.addAssociation table) routes =
      (p.m_state.m_associationSet.filterMap (p.offered table)).foldl
        (CheapestByKey.offer HnaRoute.network HnaRoute.metric) routes := by
  rw [List.foldl_filterMap]
  congr 1
  funext routes t
  rw [addAssociation_eq]
  cases p.offered table t <;> rfl

/-! ## One computation -/

/-- The routing table before the announced networks are looked at; `none` where `fuel` levels are not
enough. -/
def tableStages (p : RoutingProtocol) (now : ℤ) (fuel : ℕ) : Option RoutingTable :=
  (RoutingTable.topologyLoop p.m_state.m_topologySet fuel 2 (p.twoHopStage (p.neighborStage now))).map
    fun table ↦ p.m_state.m_ifaceAssocSet.foldl addIfaceAssoc table

/-- The last stage. -/
def hnaStage (p : RoutingProtocol) (table : RoutingTable) : RoutingProtocol :=
  { p with
    m_table := table
    m_hnaRoutingTable :=
      p.m_state.m_associationSet.foldl (p.addAssociation table) (clearHna 0 p.m_hnaRoutingTable) }

theorem routingTableComputation_eq (p : RoutingProtocol) (now : ℤ) (fuel : ℕ) :
    p.routingTableComputation now fuel = (p.tableStages now fuel).map p.hnaStage := by
  rw [routingTableComputation, tableStages, Option.map_map]
  rfl

theorem exists_tableStages (p : RoutingProtocol) (now : ℤ) :
    ∃ table, p.tableStages now (p.m_state.m_topologySet.length + 1) = some table := by
  have hcount : p.edges.countP (fun e ↦
      (p.twoHopStage (p.neighborStage now)).distances e.2 = none) ≤ p.m_state.m_topologySet.length :=
    List.countP_le_length.trans_eq (List.length_map RoutingTable.edge)
  obtain ⟨d, hd⟩ := LevelSearch.exists_levels 2 (Nat.lt_succ_of_le hcount)
  rw [← RoutingTable.topologyLoop_distances, Option.map_eq_some_iff] at hd
  obtain ⟨table, htable, -⟩ := hd
  exact ⟨_, Option.map_eq_some_iff.mpr ⟨table, htable, rfl⟩⟩

/-- There are no two routes to one network. -/
def Distinct (p : RoutingProtocol) : Prop := (p.m_hnaRoutingTable.map HnaRoute.network).Nodup

theorem Distinct.clearHna (h : p.Distinct) :
    ((clearHna 0 p.m_hnaRoutingTable).map HnaRoute.network).Nodup := by
  rw [clearHna_eq_drop]
  exact List.Nodup.sublist (List.Sublist.map _ (List.drop_sublist _ _)) h

theorem Distinct.hnaStage (h : p.Distinct) (table : RoutingTable) : (p.hnaStage table).Distinct := by
  rw [Distinct, RoutingProtocol.hnaStage, foldl_addAssociation]
  exact CheapestByKey.nodup_foldl_offer h.clearHna _

theorem gateway_hnaStage {network : Ipv4Address × Ipv4Mask} {e : RoutingTableEntry} :
    (p.hnaStage table).Gateway table network e ↔ p.Gateway table network e :=
  ⟨fun ⟨h, h'⟩ ↦ ⟨h, h'⟩, fun ⟨h, h'⟩ ↦ ⟨h, h'⟩⟩

theorem nearest_hnaStage : (p.hnaStage table).Nearest table r ↔ p.Nearest table r := by
  constructor
  · rintro ⟨⟨e, he, hr⟩, hleast⟩
    exact ⟨⟨e, gateway_hnaStage.mp he, hr⟩, fun f hf ↦ hleast f (gateway_hnaStage.mpr hf)⟩
  · rintro ⟨⟨e, he, hr⟩, hleast⟩
    exact ⟨⟨e, gateway_hnaStage.mpr he, hr⟩, fun f hf ↦ hleast f (gateway_hnaStage.mp hf)⟩

theorem Gateway.offered {network : Ipv4Address × Ipv4Mask} {e : RoutingTableEntry}
    (h : p.Gateway table network e) : ∃ r ∈ p.m_state.m_associationSet.filterMap (p.offered table),
      r.network = network ∧ r.metric = e.distance :=
  ⟨⟨network.1, network.2, e.nextAddr, e.interface, e.distance⟩,
    mem_offered.mpr ⟨e, h, rfl, rfl, rfl⟩, rfl, rfl⟩

/-- **A computation** leaves routes that follow the associations exactly where the routes that it does not
remove fit. -/
theorem follows_hnaStage (h : p.Distinct) (table : RoutingTable) :
    (p.hnaStage table).Follows ↔ p.LeftoversFit table := by
  have hroutes : (p.hnaStage table).m_hnaRoutingTable =
      (p.m_state.m_associationSet.filterMap (p.offered table)).foldl
        (CheapestByKey.offer HnaRoute.network HnaRoute.metric) (clearHna 0 p.m_hnaRoutingTable) :=
    p.foldl_addAssociation table _
  have hleft : clearHna 0 p.m_hnaRoutingTable =
      p.m_hnaRoutingTable.drop ((p.m_hnaRoutingTable.length + 1) / 2) := clearHna_eq_drop 0 _
  constructor
  · intro hfollows r hr
    by_cases hcheaper : ∃ e, p.Gateway table r.network e ∧ e.distance < r.metric
    · exact Or.inl hcheaper
    · -- no offer is cheaper, so the route is still there
      refine Or.inr (nearest_hnaStage.mp (hfollows.nearest r ?_))
      rw [hroutes]
      refine CheapestByKey.mem_foldl_offer_of_forall_le h.clearHna (hleft ▸ hr) fun a ha hak ↦ ?_
      obtain ⟨e, he, -, -, hmetric⟩ := mem_offered.mp ha
      rw [hmetric]
      exact Nat.le_of_not_lt fun hlt ↦ hcheaper ⟨e, hak ▸ he, hlt⟩
  · intro hfit
    constructor
    · intro network e he
      obtain ⟨a, ha, rfl, -⟩ := (gateway_hnaStage.mp he).offered
      obtain ⟨r, hr, hkey⟩ := CheapestByKey.exists_mem_foldl_offer HnaRoute.metric h.clearHna (Or.inr ha)
      rw [← hroutes] at hr
      refine ⟨r, ?_⟩
      rw [CheapestByKey.filter_eq_toList (h.hnaStage table), ← hkey,
        CheapestByKey.find?_eq_some_of_mem (h.hnaStage table) hr, Option.toList_some]
    · intro r hr
      rw [hroutes] at hr
      obtain ⟨hmem, -, hle⟩ := CheapestByKey.le_of_mem_foldl_offer h.clearHna hr
      have hleast : ∀ e, p.Gateway table r.network e → r.metric ≤ e.distance := fun e he ↦ by
        obtain ⟨a, ha, hak, hmetric⟩ := he.offered
        exact hmetric ▸ hle a ha hak
      refine nearest_hnaStage.mpr ?_
      rcases hmem with hr | hr
      · rcases hfit r (hleft ▸ hr) with ⟨e, he, hlt⟩ | hnearest
        · exact absurd (hleast e he) (Nat.not_le_of_lt hlt)
        · exact hnearest
      · exact ⟨mem_offered.mp hr, hleast⟩

/-! ## Runs -/

/-- What can happen: the information bases, the addresses and the routing table change in any way, or the
routing table is computed. -/
inductive HnaOp
  | change (m_mainAddress : Ipv4Address) (m_ipv4 : List (List Ipv4Address)) (m_state : OlsrState)
    (m_table : RoutingTable)
  | compute (now : ℤ)

/-- A step. -/
def hnaStep (p : RoutingProtocol) : HnaOp → Option RoutingProtocol
  | .change m_mainAddress m_ipv4 m_state m_table =>
    some ⟨m_mainAddress, m_ipv4, m_state, m_table, p.m_hnaRoutingTable⟩
  | .compute now => p.routingTableComputation now (p.m_state.m_topologySet.length + 1)

/-- The runs from a node without routes. -/
def hnaMachine : Machine RoutingProtocol HnaOp :=
  ⟨⟨0, [], OlsrState.empty, fun _ ↦ none, []⟩, hnaStep⟩

theorem step_distinct {p' : RoutingProtocol} (op : HnaOp) (h : p.Distinct)
    (hs : p.hnaStep op = some p') : p'.Distinct := by
  cases op with
  | change =>
    rw [hnaStep, Option.some_inj] at hs
    rw [← hs]
    exact h
  | compute now =>
    rw [hnaStep, routingTableComputation_eq, Option.map_eq_some_iff] at hs
    obtain ⟨table, -, rfl⟩ := hs
    exact h.hnaStage table

/-- **After every run** a computation ends, and the routes follow the associations exactly where those fit
that are in the second half of the old ones. -/
theorem follows_iff_of_run {ops : List HnaOp} (hr : hnaMachine.Run Machine.unguarded ops p) (now : ℤ) :
    ∃ table p', p.tableStages now (p.m_state.m_topologySet.length + 1) = some table ∧
      p.hnaStep (.compute now) = some p' ∧ p'.m_table = table ∧ p'.m_state = p.m_state ∧
      (p'.Follows ↔ p.LeftoversFit table) := by
  have hinit : Distinct hnaMachine.init := List.nodup_nil
  have hdistinct : p.Distinct := hr.invariant hinit fun _ op _ h _ hs ↦ step_distinct op h hs
  obtain ⟨table, htable⟩ := p.exists_tableStages now
  refine ⟨table, p.hnaStage table, htable, ?_, rfl, rfl, follows_hnaStage hdistinct table⟩
  rw [hnaStep, routingTableComputation_eq, htable, Option.map_some]

/-- A gateway that is a neighbor announces some networks. -/
def announcing (networks : List Ipv4Address) : HnaOp :=
  .change 0 [[127], [100]] { OlsrState.empty with
    m_linkSet := [⟨100, 1, 50, 50, 50⟩]
    m_neighborSet := [⟨1, .STATUS_SYM, 3⟩]
    m_associationSet := networks.map fun network ↦ ⟨1, network, 24, 50⟩ } fun _ ↦ none

/-- A third network is announced after the routes to two have been computed. -/
theorem follows_iff_of_run_announcing : ∃ p : RoutingProtocol,
    (p.m_hnaRoutingTable.map HnaRoute.network = [(8, 24), (9, 24)] ∧
      p.m_state.m_associationSet.length = 3) ∧
    ∃ table p', p.tableStages 10 (p.m_state.m_topologySet.length + 1) = some table ∧
      p.hnaStep (.compute 10) = some p' ∧ p'.m_table = table ∧ p'.m_state = p.m_state ∧
      (p'.Follows ↔ p.LeftoversFit table) := by
  have hrun : ∃ p, hnaMachine.Run Machine.unguarded
      [announcing [8, 9], .compute 10, announcing [7, 8, 9]] p ∧
      p.m_hnaRoutingTable.map HnaRoute.network = [(8, 24), (9, 24)] ∧
      p.m_state.m_associationSet.length = 3 :=
    Machine.exists_run_of_exec (p := fun p : RoutingProtocol ↦
      p.m_hnaRoutingTable.map HnaRoute.network = [(8, 24), (9, 24)] ∧
      p.m_state.m_associationSet.length = 3) (by decide +kernel)
  obtain ⟨p, hr, hp⟩ := hrun
  exact ⟨p, hp, follows_iff_of_run hr 10⟩

/-- The route to the second of two networks is left when neither is announced any more. -/
theorem not_follows : ∃ p, hnaMachine.Run Machine.unguarded
    [announcing [8, 9], .compute 10, announcing [], .compute 20] p ∧
    p.m_state.m_associationSet = [] ∧ p.m_hnaRoutingTable = [⟨9, 24, 1, 1, 1⟩] ∧ ¬ p.Follows := by
  refine Machine.exists_run_and
    (p := fun p : RoutingProtocol ↦ p.m_state.m_associationSet = [] ∧
      p.m_hnaRoutingTable = [⟨9, 24, 1, 1, 1⟩])
    (by decide +kernel) fun p hr ⟨hset, hroutes⟩ ↦ ?_
  refine ⟨hset, hroutes, fun hfollows ↦ ?_⟩
  obtain ⟨⟨e, he, -⟩, -⟩ := hfollows.nearest ⟨9, 24, 1, 1, 1⟩ (hroutes ▸ List.mem_singleton_self _)
  obtain ⟨t, ht, -⟩ := he.announced
  rw [hset] at ht
  exact absurd ht List.not_mem_nil

end RoutingProtocol

end Olsr

end Ns3
