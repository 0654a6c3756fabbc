import Ns3.Library.LevelSearch
import Ns3.Olsr.OlsrState

/-!
# The routing table of an OLSR node

The table is computed anew from the information bases: entries at distance 1 for the symmetric neighbors and
the addresses of their live links, entries at distance 2 for two-hop tuples, and then, level by level,
entries for topology tuples; those for further interface addresses and announced networks come last.

The entries at distance 1 of the first stage are never written again, as later stages only write the
addresses of nodes, and not those of neighbors. So the next address of every entry is the destination of one
of them (`Extends`). That the level by level search is one for shortest paths is the library's.
-/

namespace Ns3

namespace Olsr

/-- A `RoutingTableEntry`. -/
structure RoutingTableEntry where
  destAddr : Ipv4Address
  nextAddr : Ipv4Address
  interface : ℕ
  distance : ℕ
  deriving DecidableEq, Repr

/-- The map of the entries; applied to an address it is `Lookup`. -/
abbrev RoutingTable := Ipv4Address → Option RoutingTableEntry

/-- A network route of the table for announced networks. -/
structure HnaRoute where
  destNetwork : Ipv4Address
  destNetworkMask : Ipv4Mask
  gateway : Ipv4Address
  interface : ℕ
  metric : ℕ
  deriving DecidableEq, Repr

/-- What is used of a `RoutingProtocol`; of `m_ipv4` the addresses of each interface. -/
structure RoutingProtocol where
  m_mainAddress : Ipv4Address
  m_ipv4 : List (List Ipv4Address)
  m_state : OlsrState
  m_table : RoutingTable
  m_hnaRoutingTable : List HnaRoute

namespace RoutingTable

def addEntry (table : RoutingTable) (dest next : Ipv4Address) (interface distance : ℕ) :
    RoutingTable :=
  Function.update table dest (some ⟨dest, next, interface, distance⟩)

/-- `FindSendEntry`, for at most `fuel` entries. -/
def findSendEntry (table : RoutingTable) : ℕ → RoutingTableEntry → Option (Option RoutingTableEntry)
  | 0, _ => none
  | fuel + 1, outEntry =>
    if outEntry.destAddr = outEntry.nextAddr then some (some outEntry)
    else
      match table outEntry.nextAddr with
      | some entry => findSendEntry table fuel entry
      | none => some none

/-! ## Topology tuples -/

/-- A loop over the topology tuples at level `h`, and whether it has added an entry. -/
def topologyPass (h : ℕ) : List TopologyTuple → RoutingTable × Bool → RoutingTable × Bool
  | [], r => r
  | t :: ts, (table, added) =>
    match table t.destAddr, table t.lastAddr with
    | none, some lastAddrEntry =>
      if lastAddrEntry.distance = h then
        topologyPass h ts (table.addEntry t.destAddr lastAddrEntry.nextAddr
          lastAddrEntry.interface (h + 1), true)
      else topologyPass h ts (table, added)
    | _, _ => topologyPass h ts (table, added)

/-- The loop over the levels; `none` where `fuel` of them are not enough. -/
def topologyLoop (topology : List TopologyTuple) : ℕ → ℕ → RoutingTable → Option RoutingTable
  | 0, _, _ => none
  | fuel + 1, h, table =>
    match topologyPass h topology (table, false) with
    | (table, true) => topologyLoop topology fuel (h + 1) table
    | (table, false) => some table

end RoutingTable

namespace RoutingProtocol

/-- The interface that has an address; the assertion that there is one is left to a debug build. -/
def interfaceOf (p : RoutingProtocol) (interfaceAddress : Ipv4Address) : ℕ :=
  (p.m_ipv4.findIdx? fun addresses ↦ interfaceAddress ∈ addresses).getD 0

/-! ## Neighbors -/

/-- The variables of the loop over the links of a neighbor. -/
structure LinkLoop where
  table : RoutingTable
  nbMainAddr : Bool
  lt : Option LinkTuple

/-- The link is one to the neighbor, and has not expired. -/
def LiveLink (p : RoutingProtocol) (now : ℤ) (mainAddr : Ipv4Address) (l : LinkTuple) : Prop :=
  p.m_state.getMainAddress l.neighborIfaceAddr = mainAddr ∧ l.time ≥ now

instance (p : RoutingProtocol) (now : ℤ) (mainAddr : Ipv4Address) (l : LinkTuple) :
    Decidable (p.LiveLink now mainAddr l) := inferInstanceAs (Decidable (_ ∧ _))

/-- A turn of the loop over the links. -/
def addLink (p : RoutingProtocol) (now : ℤ) (nb : NeighborTuple) (r : LinkLoop) (l : LinkTuple) :
    LinkLoop :=
  if p.LiveLink now nb.neighborMainAddr l then
    { table := r.table.addEntry l.neighborIfaceAddr l.neighborIfaceAddr
        (p.interfaceOf l.localIfaceAddr) 1
      nbMainAddr := r.nbMainAddr || decide (l.neighborIfaceAddr = nb.neighborMainAddr)
      lt := some l }
  else r

/-- A turn of the loop over the neighbors. -/
def addNeighbor (p : RoutingProtocol) (now : ℤ) (table : RoutingTable) (nb : NeighborTuple) :
    RoutingTable :=
  if nb.Sym then
    let r := p.m_state.m_linkSet.foldl (p.addLink now nb) ⟨table, false, none⟩
    match r.nbMainAddr, r.lt with
    | false, some lt => r.table.addEntry nb.neighborMainAddr lt.neighborIfaceAddr
        (p.interfaceOf lt.localIfaceAddr) 1
    | _, _ => r.table
  else table

/-- The entries at distance 1. -/
def neighborStage (p : RoutingProtocol) (now : ℤ) : RoutingTable :=
  p.m_state.m_neighborSet.foldl (p.addNeighbor now) fun _ ↦ none

/-! ## Two-hop neighbors -/

/-- A neighbor of any status has the address, and forwards. -/
def Nb2hopOk (p : RoutingProtocol) (neighborMainAddr : Ipv4Address) : Prop :=
  ∃ n ∈ p.m_state.m_neighborSet, n.neighborMainAddr = neighborMainAddr ∧ n.willingness ≠ willNever

instance (p : RoutingProtocol) (a : Ipv4Address) : Decidable (p.Nb2hopOk a) :=
  inferInstanceAs (Decidable (∃ n ∈ p.m_state.m_neighborSet, _))

/-- A turn of the loop over the two-hop tuples. -/
def addTwoHop (p : RoutingProtocol) (table : RoutingTable) (t : TwoHopNeighborTuple) : RoutingTable :=
  if (p.m_state.findSymNeighborTuple t.twoHopNeighborAddr).isSome then table
  else if t.twoHopNeighborAddr = p.m_mainAddress then table
  else if p.Nb2hopOk t.neighborMainAddr then
    match table t.neighborMainAddr with
    | some entry => table.addEntry t.twoHopNeighborAddr entry.nextAddr entry.interface 2
    | none => table
  else table

/-- The entries at distance 2. -/
def twoHopStage (p : RoutingProtocol) (table : RoutingTable) : RoutingTable :=
  p.m_state.m_twoHopNeighborSet.foldl p.addTwoHop table

/-! ## Interface addresses and announced networks -/

/-- A turn of the loop over the interface associations. -/
def addIfaceAssoc (table : RoutingTable) (t : IfaceAssocTuple) : RoutingTable :=
  match table t.mainAddr, table t.ifaceAddr with
  | some entry1, none => table.addEntry t.ifaceAddr entry1.nextAddr entry1.interface entry1.distance
  | _, _ => table

/-- The loop that is to clear the routes: as they get fewer with each turn it ends half way. -/
def clearHna (i : ℕ) : List HnaRoute → List HnaRoute
  | [] => []
  | r :: rs => if i < rs.length + 1 then clearHna (i + 1) rs else r :: rs

/-- A turn of the loop over the associations. -/
def addAssociation (p : RoutingProtocol) (table : RoutingTable) (routes : List HnaRoute)
    (t : AssociationTuple) : List HnaRoute :=
  if ∃ a ∈ p.m_state.m_associations, a.networkAddr = t.networkAddr ∧ a.netmask = t.netmask then routes
  else
    match table t.gatewayAddr with
    | none => routes
    | some gatewayEntry =>
      let route : HnaRoute := ⟨t.networkAddr, t.netmask, gatewayEntry.nextAddr,
        gatewayEntry.interface, gatewayEntry.distance⟩
      match routes.findIdx? fun r ↦ r.destNetwork = t.networkAddr ∧ r.destNetworkMask = t.netmask with
      | none => routes ++ [route]
      | some routeIndex =>
        if ∃ r ∈ routes[routeIndex]?, r.metric > gatewayEntry.distance then
          routes.eraseIdx routeIndex ++ [route]
        else routes

/-! ## The computation -/

/-- `RoutingTableComputation`; `none` where `fuel` levels are not enough. -/
def routingTableComputation (p : RoutingProtocol) (now : ℤ) (fuel : ℕ) : Option RoutingProtocol :=
  let table := p.twoHopStage (p.neighborStage now)
  (RoutingTable.topologyLoop p.m_state.m_topologySet fuel 2 table).map fun table ↦
    let table := p.m_state.m_ifaceAssocSet.foldl addIfaceAssoc table
    { p with
      m_table := table
      m_hnaRoutingTable :=
        p.m_state.m_associationSet.foldl (p.addAssociation table) (clearHna 0 p.m_hnaRoutingTable) }

end RoutingProtocol

/-! ## Writing an entry -/

namespace RoutingTable

variable {table : RoutingTable} {dest next : Ipv4Address} {interface distance : ℕ}

@[simp] theorem addEntry_self :
    table.addEntry dest next interface distance dest = some ⟨dest, next, interface, distance⟩ :=
  Function.update_self ..

theorem addEntry_of_ne {a : Ipv4Address} (h : a ≠ dest) :
    table.addEntry dest next interface distance a = table a :=
  Function.update_of_ne h ..

/-- The distances of a table. -/
def distances (table : RoutingTable) : Ipv4Address → Option ℕ :=
  fun a ↦ (table a).map RoutingTableEntry.distance

theorem distances_addEntry : (table.addEntry dest next interface distance).distances =
    Function.update table.distances dest (some distance) := by
  funext a
  by_cases h : a = dest
  · rw [distances, h, addEntry_self, Function.update_self, Option.map_some]
  · rw [distances, addEntry_of_ne h, Function.update_of_ne h, distances]

theorem distances_eq_none {a : Ipv4Address} : table.distances a = none ↔ table a = none :=
  Option.map_eq_none_iff

theorem distances_eq_some {a : Ipv4Address} {k : ℕ} :
    table.distances a = some k ↔ ∃ e, table a = some e ∧ e.distance = k :=
  Option.map_eq_some_iff

end RoutingTable

/-! ## The entries at distance 1 -/

namespace RoutingProtocol

section Neighbors

variable {p : RoutingProtocol} {now : ℤ} {nb : NeighborTuple} {a : Ipv4Address}

/-- The live links to an address. -/
def linksTo (p : RoutingProtocol) (now : ℤ) (a : Ipv4Address) : List LinkTuple :=
  p.m_state.m_linkSet.filter fun l ↦ l.neighborIfaceAddr = a ∧ l.time ≥ now

/-- The entry for an address that a link reaches. -/
def linkEntry (p : RoutingProtocol) (l : LinkTuple) : RoutingTableEntry :=
  ⟨l.neighborIfaceAddr, l.neighborIfaceAddr, p.interfaceOf l.localIfaceAddr, 1⟩

theorem getLast?_filter_of_getLast? {α : Type*} {P Q : α → Bool} {l : List α} {x : α}
    (hx : (l.filter P).getLast? = some x) (hQ : Q x = true) (hPQ : ∀ y, Q y = true → P y = true) :
    (l.filter Q).getLast? = some x := by
  have hfilter : l.filter Q = (l.filter P).filter Q := by
    rw [List.filter_filter]
    refine List.filter_congr fun y _ ↦ ?_
    cases hy : Q y with
    | false => rfl
    | true => rw [hPQ y hy, Bool.and_self]
  obtain ⟨init, hinit⟩ := List.getLast?_eq_some_iff.mp hx
  rw [hfilter, hinit, List.filter_append, List.filter_cons_of_pos hQ]
  simp

theorem foldl_addLink (p : RoutingProtocol) (now : ℤ) (nb : NeighborTuple) (links : List LinkTuple) (table : RoutingTable) :
    let r := links.foldl (p.addLink now nb) ⟨table, false, none⟩
    (∀ a, r.table a = match (links.filter fun l ↦ l.neighborIfaceAddr = a ∧
        p.LiveLink now nb.neighborMainAddr l).getLast? with
      | some l => some (p.linkEntry l)
      | none => table a) ∧
    (r.nbMainAddr = true ↔ ∃ l ∈ links, p.LiveLink now nb.neighborMainAddr l ∧
      l.neighborIfaceAddr = nb.neighborMainAddr) ∧
    r.lt = (links.filter fun l ↦ p.LiveLink now nb.neighborMainAddr l).getLast? := by
  induction links using List.reverseRecOn with
  | nil => simp
  | append_singleton links l ih =>
    obtain ⟨htable, hmain, hlt⟩ := ih
    simp only [List.foldl_append, List.foldl_cons, List.foldl_nil]
    by_cases hlive : p.LiveLink now nb.neighborMainAddr l
    · rw [addLink, if_pos hlive]
      dsimp only
      refine ⟨fun a ↦ ?_, ?_, ?_⟩
      · by_cases ha : l.neighborIfaceAddr = a
        · subst ha
          simp [List.filter_append, hlive, linkEntry]
        · rw [RoutingTable.addEntry_of_ne (Ne.symm ha), htable a]
          simp [List.filter_append, ha]
      · simp [hmain, hlive, or_and_right, exists_or]
      · simp [List.filter_append, hlive]
    · rw [addLink, if_neg hlive]
      refine ⟨fun a ↦ ?_, ?_, ?_⟩
      · rw [htable a]
        simp [List.filter_append, hlive]
      · rw [hmain]
        simp [hlive, or_and_right, exists_or]
      · rw [hlt]
        simp [List.filter_append, hlive]

theorem filter_liveLink (p : RoutingProtocol) (now : ℤ) (m a : Ipv4Address) :
    (p.m_state.m_linkSet.filter fun l ↦ l.neighborIfaceAddr = a ∧ p.LiveLink now m l) =
      if p.m_state.getMainAddress a = m then p.linksTo now a else [] := by
  split_ifs with hm
  · refine List.filter_congr fun l _ ↦ ?_
    rw [decide_eq_decide]
    refine and_congr_right fun ha ↦ ?_
    rw [LiveLink, ha, and_iff_right hm]
  · refine List.filter_eq_nil_iff.mpr fun l _ ↦ ?_
    rw [decide_eq_true_eq]
    rintro ⟨rfl, hlive⟩
    exact hm hlive.1

theorem mem_linksTo {l : LinkTuple} : l ∈ p.linksTo now a ↔
    l ∈ p.m_state.m_linkSet ∧ l.neighborIfaceAddr = a ∧ l.time ≥ now := by
  simp [linksTo]

/-- There is a symmetric neighbor with the address. -/
def SymAt (p : RoutingProtocol) (a : Ipv4Address) : Prop :=
  ∃ n ∈ p.m_state.m_neighborSet, n.neighborMainAddr = a ∧ n.Sym

/-- There is a live link to a neighbor. -/
def Linked (p : RoutingProtocol) (now : ℤ) (m : Ipv4Address) : Prop :=
  ∃ l ∈ p.m_state.m_linkSet, p.LiveLink now m l

/-- What a turn of the loop over the neighbors leaves of the table. -/
def afterLinks (p : RoutingProtocol) (now : ℤ) (m : Ipv4Address) (table : RoutingTable) : RoutingTable :=
  fun a ↦ if p.m_state.getMainAddress a = m then
    ((p.linksTo now a).getLast?.map p.linkEntry).or (table a) else table a

/-- **A turn of the loop over the neighbors** writes the entries of the live links, and one for the main
address where no link reaches that one. -/
theorem addNeighbor_cases (p : RoutingProtocol) (now : ℤ) (table : RoutingTable) (hsym : nb.Sym) :
    (p.addNeighbor now table nb = p.afterLinks now nb.neighborMainAddr table ∧
      (p.Linked now nb.neighborMainAddr → p.linksTo now nb.neighborMainAddr ≠ [])) ∨
    ∃ lt, (p.linksTo now lt.neighborIfaceAddr).getLast? = some lt ∧
      p.m_state.getMainAddress lt.neighborIfaceAddr = nb.neighborMainAddr ∧
      ¬ (∃ l ∈ p.m_state.m_linkSet, p.LiveLink now nb.neighborMainAddr l ∧
        l.neighborIfaceAddr = nb.neighborMainAddr) ∧
      p.addNeighbor now table nb = (p.afterLinks now nb.neighborMainAddr table).addEntry
        nb.neighborMainAddr lt.neighborIfaceAddr (p.interfaceOf lt.localIfaceAddr) 1 := by
  obtain ⟨htable, hmain, hlt⟩ := p.foldl_addLink now nb p.m_state.m_linkSet table
  have hafter : (p.m_state.m_linkSet.foldl (p.addLink now nb) ⟨table, false, none⟩).table =
      p.afterLinks now nb.neighborMainAddr table := by
    funext a
    rw [htable a, filter_liveLink, afterLinks]
    split_ifs
    · cases (p.linksTo now a).getLast? <;> rfl
    · rfl
  rw [addNeighbor, if_pos hsym]
  dsimp only
  generalize p.m_state.m_linkSet.foldl (p.addLink now nb) ⟨table, false, none⟩ = r at *
  obtain ⟨rtable, nbMainAddr, lt⟩ := r
  dsimp only at *
  subst hafter
  cases nbMainAddr with
  | true =>
    obtain ⟨l, hl, hlive, ha⟩ := hmain.mp rfl
    exact Or.inl ⟨rfl, fun _ ↦ List.ne_nil_of_mem (mem_linksTo.mpr ⟨hl, ha, hlive.2⟩)⟩
  | false =>
    have hno : ¬ (∃ l ∈ p.m_state.m_linkSet, p.LiveLink now nb.neighborMainAddr l ∧
        l.neighborIfaceAddr = nb.neighborMainAddr) := fun h ↦ Bool.false_ne_true (hmain.mpr h)
    cases lt with
    | none =>
      refine Or.inl ⟨rfl, fun ⟨l, hl, hlive⟩ ↦ ?_⟩
      have hnil := List.getLast?_eq_none_iff.mp hlt.symm
      exact absurd (List.mem_filter.mpr ⟨hl, decide_eq_true hlive⟩)
        (hnil ▸ List.not_mem_nil)
    | some lt =>
      have hmem := List.mem_of_getLast? hlt.symm
      rw [List.mem_filter, decide_eq_true_eq] at hmem
      refine Or.inr ⟨lt, getLast?_filter_of_getLast? hlt.symm ?_ ?_, hmem.2.1, hno, rfl⟩
      · exact decide_eq_true ⟨rfl, hmem.2.2⟩
      · intro l hl
        rw [decide_eq_true_eq] at hl ⊢
        exact ⟨hl.1 ▸ hmem.2.1, hl.2⟩

/-- An entry at distance 1: its next address is one that the entry's link reaches, and has an entry of its
own. -/
structure DirectEntry (p : RoutingProtocol) (now : ℤ) (table : RoutingTable) (a : Ipv4Address)
    (e : RoutingTableEntry) : Prop where
  dest : e.destAddr = a
  distance : e.distance = 1
  link : ∃ l, (p.linksTo now e.nextAddr).getLast? = some l ∧
    e.interface = p.interfaceOf l.localIfaceAddr ∧ table e.nextAddr = some (p.linkEntry l)
  sym : p.SymAt (p.m_state.getMainAddress e.nextAddr)
  addr : a = e.nextAddr ∨ a = p.m_state.getMainAddress e.nextAddr

/-- All entries are at distance 1. -/
def Direct (p : RoutingProtocol) (now : ℤ) (table : RoutingTable) : Prop :=
  ∀ a e, table a = some e → p.DirectEntry now table a e

theorem neighborIfaceAddr_of_getLast? {l : LinkTuple} (hl : (p.linksTo now a).getLast? = some l) :
    l.neighborIfaceAddr = a :=
  (mem_linksTo.mp (List.mem_of_getLast? hl)).2.1

theorem afterLinks_of_link {m : Ipv4Address} {table : RoutingTable} {l : LinkTuple}
    (hl : (p.linksTo now a).getLast? = some l)
    (h : p.m_state.getMainAddress a = m ∨ table a = some (p.linkEntry l)) :
    p.afterLinks now m table a = some (p.linkEntry l) := by
  unfold afterLinks
  split_ifs with hm
  · rw [hl]
    rfl
  · exact h.resolve_left hm

theorem directEntry_linkEntry {table : RoutingTable} {l : LinkTuple}
    (hl : (p.linksTo now a).getLast? = some l) (hsym : p.SymAt (p.m_state.getMainAddress a))
    (ha : table a = some (p.linkEntry l)) : p.DirectEntry now table a (p.linkEntry l) := by
  obtain rfl := neighborIfaceAddr_of_getLast? hl
  exact ⟨rfl, rfl, ⟨l, hl, rfl, ha⟩, hsym, Or.inl rfl⟩

theorem Direct.afterLinks {table : RoutingTable} (h : p.Direct now table) {m : Ipv4Address}
    (hsym : p.SymAt m) : p.Direct now (p.afterLinks now m table) := by
  intro a e he
  have hold : table a = some e → p.DirectEntry now (p.afterLinks now m table) a e := fun htable ↦ by
    obtain ⟨hdest, hdistance, ⟨l, hl, hinterface, hnext⟩, hsym, haddr⟩ := h a e htable
    exact ⟨hdest, hdistance, ⟨l, hl, hinterface, afterLinks_of_link hl (Or.inr hnext)⟩, hsym, haddr⟩
  have he' := he
  rw [RoutingProtocol.afterLinks] at he'
  split_ifs at he' with hm
  · cases hl : (p.linksTo now a).getLast? with
    | none =>
      rw [hl] at he'
      exact hold he'
    | some l =>
      rw [hl, Option.map_some, Option.some_or, Option.some_inj] at he'
      subst he'
      exact directEntry_linkEntry hl (hm ▸ hsym) he
  · exact hold he'

theorem Direct.addEntry_main {table : RoutingTable} (h : p.Direct now table) {m : Ipv4Address}
    {lt : LinkTuple} (hlt : (p.linksTo now lt.neighborIfaceAddr).getLast? = some lt)
    (hmain : p.m_state.getMainAddress lt.neighborIfaceAddr = m) (hsym : p.SymAt m)
    (hm : p.m_state.getMainAddress m = m)
    (hno : ¬ ∃ l ∈ p.m_state.m_linkSet, p.LiveLink now m l ∧ l.neighborIfaceAddr = m)
    (htable : table lt.neighborIfaceAddr = some (p.linkEntry lt)) :
    p.Direct now (table.addEntry m lt.neighborIfaceAddr (p.interfaceOf lt.localIfaceAddr) 1) := by
  -- no link reaches the address that is written, so it is not the next address of an entry
  have hne : ∀ {b l}, (p.linksTo now b).getLast? = some l → b ≠ m := by
    rintro b l hl rfl
    obtain ⟨hmem, haddr, hlive⟩ := mem_linksTo.mp (List.mem_of_getLast? hl)
    exact hno ⟨l, hmem, ⟨by rw [haddr, hm], hlive⟩, haddr⟩
  intro a e he
  by_cases ha : a = m
  · subst ha
    rw [RoutingTable.addEntry_self, Option.some_inj] at he
    subst he
    refine ⟨rfl, rfl, ⟨lt, hlt, rfl, ?_⟩, ?_, Or.inr ?_⟩
    · rw [RoutingTable.addEntry_of_ne (hne hlt)]
      exact htable
    · exact hmain.symm ▸ hsym
    · exact hmain.symm
  · rw [RoutingTable.addEntry_of_ne ha] at he
    obtain ⟨hdest, hdistance, ⟨l, hl, hinterface, hnext⟩, hsym, haddr⟩ := h a e he
    refine ⟨hdest, hdistance, ⟨l, hl, hinterface, ?_⟩, hsym, haddr⟩
    rw [RoutingTable.addEntry_of_ne (hne hl)]
    exact hnext

theorem Direct.addNeighbor {table : RoutingTable} (h : p.Direct now table)
    (hnb : nb ∈ p.m_state.m_neighborSet)
    (hm : p.m_state.getMainAddress nb.neighborMainAddr = nb.neighborMainAddr) :
    p.Direct now (p.addNeighbor now table nb) := by
  by_cases hsym : nb.Sym
  · have hsymAt : p.SymAt nb.neighborMainAddr := ⟨nb, hnb, rfl, hsym⟩
    rcases p.addNeighbor_cases now table hsym with ⟨heq, -⟩ | ⟨lt, hlt, hmain, hno, heq⟩
    · rw [heq]
      exact h.afterLinks hsymAt
    · rw [heq]
      exact (h.afterLinks hsymAt).addEntry_main hlt hmain hsymAt hm hno
        (afterLinks_of_link hlt (Or.inl hmain))
  · rw [RoutingProtocol.addNeighbor, if_neg hsym]
    exact h

theorem addNeighbor_isSome {table : RoutingTable} (h : (table a).isSome) :
    (p.addNeighbor now table nb a).isSome := by
  have hafter : (p.afterLinks now nb.neighborMainAddr table a).isSome := by
    unfold RoutingProtocol.afterLinks
    split_ifs
    · rw [Option.isSome_or, h, Bool.or_true]
    · exact h
  by_cases hsym : nb.Sym
  · rcases p.addNeighbor_cases now table hsym with ⟨heq, -⟩ | ⟨lt, hlt, hmain, hno, heq⟩
    · rw [heq]
      exact hafter
    · rw [heq]
      by_cases ha : a = nb.neighborMainAddr
      · rw [ha, RoutingTable.addEntry_self]
        rfl
      · rw [RoutingTable.addEntry_of_ne ha]
        exact hafter
  · rw [RoutingProtocol.addNeighbor, if_neg hsym]
    exact h

theorem addNeighbor_main_isSome (table : RoutingTable) (hsym : nb.Sym)
    (hm : p.m_state.getMainAddress nb.neighborMainAddr = nb.neighborMainAddr)
    (hlinked : p.Linked now nb.neighborMainAddr) :
    (p.addNeighbor now table nb nb.neighborMainAddr).isSome := by
  rcases p.addNeighbor_cases now table hsym with ⟨heq, hne⟩ | ⟨lt, hlt, hmain, hno, heq⟩
  · have hsome := List.getLast?_isSome.mpr (hne hlinked)
    rw [heq, RoutingProtocol.afterLinks, if_pos hm, Option.isSome_or, Option.isSome_map, hsome,
      Bool.true_or]
  · rw [heq, RoutingTable.addEntry_self]
    rfl

/-- **The entries at distance 1** are those for the symmetric neighbors and the addresses of their links. -/
theorem neighborStage_spec (p : RoutingProtocol) (now : ℤ)
    (hm : ∀ n ∈ p.m_state.m_neighborSet,
      p.m_state.getMainAddress n.neighborMainAddr = n.neighborMainAddr) :
    p.Direct now (p.neighborStage now) ∧ ∀ n ∈ p.m_state.m_neighborSet, n.Sym →
      p.Linked now n.neighborMainAddr → (p.neighborStage now n.neighborMainAddr).isSome := by
  suffices hfold : ∀ l : List NeighborTuple, (∀ n ∈ l, n ∈ p.m_state.m_neighborSet) →
      ∀ table, p.Direct now table → p.Direct now (l.foldl (p.addNeighbor now) table) ∧
        ∀ a, (table a).isSome ∨ (∃ n ∈ l, n.neighborMainAddr = a ∧ n.Sym ∧ p.Linked now a) →
          (l.foldl (p.addNeighbor now) table a).isSome by
    have hempty : p.Direct now fun _ ↦ none := fun a e he ↦ by cases he
    obtain ⟨hdirect, hsome⟩ := hfold p.m_state.m_neighborSet (fun n hn ↦ hn) (fun _ ↦ none) hempty
    exact ⟨hdirect, fun n hn hsym hlinked ↦ hsome _ (Or.inr ⟨n, hn, rfl, hsym, hlinked⟩)⟩
  intro l
  induction l with
  | nil =>
    intro _ table hdirect
    refine ⟨hdirect, fun a ha ↦ ha.resolve_right ?_⟩
    rintro ⟨n, hn, -⟩
    exact List.not_mem_nil hn
  | cons nb l ih =>
    intro hl table hdirect
    have hnb := hl nb List.mem_cons_self
    obtain ⟨hdirect', hsome⟩ := ih (fun n hn ↦ hl n (List.mem_cons_of_mem nb hn)) _
      (hdirect.addNeighbor hnb (hm nb hnb))
    refine ⟨hdirect', fun a ha ↦ hsome a ?_⟩
    rcases ha with ha | ⟨n, hn, rfl, hsym, hlinked⟩
    · exact Or.inl (addNeighbor_isSome ha)
    · rcases List.mem_cons.mp hn with rfl | hn
      · exact Or.inl (addNeighbor_main_isSome table hsym (hm n hnb) hlinked)
      · exact Or.inr ⟨n, hn, rfl, hsym, hlinked⟩

end Neighbors

end RoutingProtocol

/-! ## Later entries -/

namespace RoutingTable

variable {direct table : RoutingTable} {a b dest : Ipv4Address} {e : RoutingTableEntry}

/-- The next address of an entry is the destination of one at distance 1, which leads to it itself. -/
def Via (direct : RoutingTable) (e : RoutingTableEntry) : Prop :=
  ∃ f, direct e.nextAddr = some f ∧ f.destAddr = e.nextAddr ∧ f.nextAddr = e.nextAddr ∧
    f.distance = 1 ∧ f.interface = e.interface

/-- The table has all entries at distance 1, and every entry goes over one of them. -/
structure Extends (direct table : RoutingTable) : Prop where
  kept : ∀ a e, direct a = some e → table a = some e
  dest : ∀ a e, table a = some e → e.destAddr = a
  via : ∀ a e, table a = some e → Via direct e

theorem Extends.addEntry (h : Extends direct table) (he : table b = some e) (hdest : direct dest = none)
    (k : ℕ) : Extends direct (table.addEntry dest e.nextAddr e.interface k) where
  kept a f hf := by
    rw [addEntry_of_ne (fun ha ↦ by rw [ha, hdest] at hf; cases hf)]
    exact h.kept a f hf
  dest a f hf := by
    by_cases ha : a = dest
    · rw [ha, addEntry_self, Option.some_inj] at hf
      rw [← hf, ha]
    · rw [addEntry_of_ne ha] at hf
      exact h.dest a f hf
  via a f hf := by
    by_cases ha : a = dest
    · rw [ha, addEntry_self, Option.some_inj] at hf
      subst hf
      exact h.via b e he
    · rw [addEntry_of_ne ha] at hf
      exact h.via a f hf

theorem Extends.direct_eq_none (h : Extends direct table) (ha : table a = none) : direct a = none := by
  cases hd : direct a with
  | none => rfl
  | some e => rw [h.kept a e hd] at ha; cases ha

theorem Extends.findSendEntry (h : Extends direct table) (he : table a = some e) :
    ∃ out, ∀ fuel, 2 ≤ fuel → table.findSendEntry fuel e = some (some out) := by
  obtain ⟨f, hf, hdest, hnext, -⟩ := h.via a e he
  by_cases heq : e.destAddr = e.nextAddr
  · refine ⟨e, fun fuel hfuel ↦ ?_⟩
    obtain ⟨fuel, rfl⟩ := Nat.exists_eq_add_of_le' hfuel
    rw [RoutingTable.findSendEntry, if_pos heq]
  · refine ⟨f, fun fuel hfuel ↦ ?_⟩
    obtain ⟨fuel, rfl⟩ := Nat.exists_eq_add_of_le' hfuel
    rw [RoutingTable.findSendEntry, if_neg heq, h.kept _ f hf]
    dsimp only
    rw [RoutingTable.findSendEntry, if_pos (hdest.trans hnext.symm)]

/-! ## The levels -/

/-- A topology tuple is an edge. -/
def edge (t : TopologyTuple) : Ipv4Address × Ipv4Address := (t.lastAddr, t.destAddr)

/-- **The loop over the topology tuples is a pass** of the search. -/
theorem topologyPass_distances (h : ℕ) (topology : List TopologyTuple) (table : RoutingTable)
    (added : Bool) :
    ((topologyPass h topology (table, added)).1.distances,
        (topologyPass h topology (table, added)).2) =
      LevelSearch.pass h (topology.map edge) (table.distances, added) := by
  induction topology generalizing table added with
  | nil => rfl
  | cons t topology ih =>
    rw [List.map_cons, edge, topologyPass, LevelSearch.pass]
    split
    · rename_i hdest hlast
      split_ifs with hdistance hpass hpass
      · rw [ih, distances_addEntry]
      · exact absurd ⟨distances_eq_none.mpr hdest,
          distances_eq_some.mpr ⟨_, hlast, hdistance⟩⟩ hpass
      · obtain ⟨e, he, hdistance'⟩ := distances_eq_some.mp hpass.2
        rw [hlast, Option.some_inj] at he
        exact absurd (he ▸ hdistance') hdistance
      · exact ih table added
    · rename_i hno
      rw [if_neg, ih]
      rintro ⟨hdest, hlast⟩
      obtain ⟨e, he, -⟩ := distances_eq_some.mp hlast
      exact hno e (distances_eq_none.mp hdest) he

theorem topologyLoop_distances (topology : List TopologyTuple) (fuel h : ℕ) (table : RoutingTable) :
    (topologyLoop topology fuel h table).map distances =
      LevelSearch.levels (topology.map edge) fuel h table.distances := by
  induction fuel generalizing h table with
  | zero => rfl
  | succ fuel ih =>
    rw [topologyLoop, LevelSearch.levels, ← topologyPass_distances]
    obtain ⟨table', added⟩ := topologyPass h topology (table, false)
    cases added with
    | true => exact ih (h + 1) table'
    | false => rfl

theorem topologyLoop_mono {topology : List TopologyTuple} {fuel fuel' h : ℕ} {table table' : RoutingTable}
    (hloop : topologyLoop topology fuel h table = some table') (hfuel : fuel ≤ fuel') :
    topologyLoop topology fuel' h table = some table' := by
  induction fuel generalizing h table fuel' with
  | zero => cases hloop
  | succ fuel ih =>
    obtain ⟨fuel', rfl⟩ := Nat.exists_eq_add_of_le' hfuel
    rw [topologyLoop] at hloop
    rw [← Nat.add_assoc, topologyLoop]
    cases hpass : topologyPass h topology (table, false) with
    | mk table₁ added =>
      rw [hpass] at hloop
      cases added with
      | true => exact ih hloop (Nat.le_add_left _ _)
      | false => exact hloop

theorem Extends.topologyPass (h : Extends direct table) (level : ℕ) (topology : List TopologyTuple)
    (added : Bool) : Extends direct (topologyPass level topology (table, added)).1 := by
  induction topology generalizing table added with
  | nil => exact h
  | cons t topology ih =>
    rw [RoutingTable.topologyPass]
    split
    · rename_i hdest hlast
      split_ifs
      · exact ih (h.addEntry hlast (h.direct_eq_none hdest) _) _
      · exact ih h _
    · exact ih h _

theorem Extends.topologyLoop (h : Extends direct table) {topology : List TopologyTuple}
    {fuel level : ℕ} {table' : RoutingTable}
    (hloop : RoutingTable.topologyLoop topology fuel level table = some table') : Extends direct table' := by
  induction fuel generalizing level table with
  | zero => cases hloop
  | succ fuel ih =>
    have hpass := h.topologyPass level topology false
    rw [RoutingTable.topologyLoop] at hloop
    cases heq : RoutingTable.topologyPass level topology (table, false) with
    | mk table₁ added =>
      rw [heq] at hloop hpass
      cases added with
      | true => exact ih hpass hloop
      | false =>
        rw [← Option.some_inj.mp hloop]
        exact hpass

end RoutingTable

/-! ## Two-hop neighbors and interface addresses -/

namespace RoutingProtocol

section Stages

variable {p : RoutingProtocol} {now : ℤ} {direct table : RoutingTable} {a : Ipv4Address}

open RoutingTable (Extends)

/-- The first hop of a path: a symmetric neighbor that forwards, with a live link. -/
def FirstHop (p : RoutingProtocol) (now : ℤ) (m : Ipv4Address) : Prop :=
  (∃ n ∈ p.m_state.m_neighborSet, n.neighborMainAddr = m ∧ n.Sym ∧ n.willingness ≠ willNever) ∧
    p.Linked now m

instance (p : RoutingProtocol) (now : ℤ) (m : Ipv4Address) : Decidable (p.FirstHop now m) :=
  inferInstanceAs (Decidable ((∃ n ∈ p.m_state.m_neighborSet, _) ∧ ∃ l ∈ p.m_state.m_linkSet, _))

/-- The address of a two-hop neighbor that is not the node or a symmetric neighbor. -/
def Strict (p : RoutingProtocol) (a : Ipv4Address) : Prop := ¬ p.SymAt a ∧ a ≠ p.m_mainAddress

/-- Two-hop tuples of neighbors that forward are those of symmetric ones. -/
def SymTwoHop (p : RoutingProtocol) : Prop :=
  ∀ t ∈ p.m_state.m_twoHopNeighborSet, ∀ n ∈ p.m_state.m_neighborSet,
    n.neighborMainAddr = t.neighborMainAddr → n.willingness ≠ willNever → n.Sym

/-- The addresses of the information bases are main addresses. -/
structure MainAddresses (s : OlsrState) : Prop where
  neighbor : ∀ n ∈ s.m_neighborSet, s.getMainAddress n.neighborMainAddr = n.neighborMainAddr
  twoHop : ∀ t ∈ s.m_twoHopNeighborSet, s.getMainAddress t.neighborMainAddr = t.neighborMainAddr ∧
    s.getMainAddress t.twoHopNeighborAddr = t.twoHopNeighborAddr
  topology : ∀ t ∈ s.m_topologySet, s.getMainAddress t.destAddr = t.destAddr ∧
    s.getMainAddress t.lastAddr = t.lastAddr

theorem Direct.symAt (h : p.Direct now direct) {e : RoutingTableEntry} (he : direct a = some e)
    (ha : p.m_state.getMainAddress a = a) : p.SymAt a ∧ p.Linked now a := by
  obtain ⟨-, -, ⟨l, hl, -⟩, hsym, haddr⟩ := h a e he
  have hmain : p.m_state.getMainAddress e.nextAddr = a := by
    rcases haddr with hnext | hmain
    · rw [← hnext, ha]
    · exact hmain.symm
  obtain ⟨hmem, hladdr, hlive⟩ := mem_linksTo.mp (List.mem_of_getLast? hl)
  exact ⟨hmain ▸ hsym, l, hmem, by rw [hladdr, hmain], hlive⟩

theorem Direct.extends (h : p.Direct now direct) : Extends direct direct where
  kept _ _ he := he
  dest a e he := (h a e he).dest
  via a e he := by
    obtain ⟨-, -, ⟨l, hl, hinterface, hnext⟩, -⟩ := h a e he
    have haddr := neighborIfaceAddr_of_getLast? hl
    exact ⟨_, hnext, haddr, haddr, rfl, hinterface.symm⟩

theorem findSymNeighborTuple_isSome_iff : (p.m_state.findSymNeighborTuple a).isSome ↔ p.SymAt a :=
  OlsrState.findSymNeighborTuple_isSome

theorem addTwoHop_cases (p : RoutingProtocol) (table : RoutingTable) (t : TwoHopNeighborTuple) :
    (∃ e, p.Strict t.twoHopNeighborAddr ∧ p.Nb2hopOk t.neighborMainAddr ∧
      table t.neighborMainAddr = some e ∧
      p.addTwoHop table t = table.addEntry t.twoHopNeighborAddr e.nextAddr e.interface 2) ∨
    (p.addTwoHop table t = table ∧ ¬ (p.Strict t.twoHopNeighborAddr ∧
      p.Nb2hopOk t.neighborMainAddr ∧ (table t.neighborMainAddr).isSome)) := by
  by_cases hsym : (p.m_state.findSymNeighborTuple t.twoHopNeighborAddr).isSome
  · refine Or.inr ⟨by rw [addTwoHop, if_pos hsym], fun h ↦ ?_⟩
    exact h.1.1 (findSymNeighborTuple_isSome_iff.mp hsym)
  · by_cases hself : t.twoHopNeighborAddr = p.m_mainAddress
    · exact Or.inr ⟨by rw [addTwoHop, if_neg hsym, if_pos hself], fun h ↦ h.1.2 hself⟩
    · by_cases hok : p.Nb2hopOk t.neighborMainAddr
      · have hstrict : p.Strict t.twoHopNeighborAddr :=
          ⟨fun h ↦ hsym (findSymNeighborTuple_isSome_iff.mpr h), hself⟩
        cases he : table t.neighborMainAddr with
        | some e =>
          refine Or.inl ⟨e, hstrict, hok, rfl, ?_⟩
          rw [addTwoHop, if_neg hsym, if_neg hself, if_pos hok, he]
        | none =>
          refine Or.inr ⟨?_, fun h ↦ by cases h.2.2⟩
          rw [addTwoHop, if_neg hsym, if_neg hself, if_pos hok, he]
      · exact Or.inr ⟨by rw [addTwoHop, if_neg hsym, if_neg hself, if_neg hok], fun h ↦ hok h.2.1⟩

/-- Where the search for topology tuples starts. -/
def Start (p : RoutingProtocol) (now : ℤ) (a : Ipv4Address) : Prop :=
  ∃ t ∈ p.m_state.m_twoHopNeighborSet, t.twoHopNeighborAddr = a ∧
    p.FirstHop now t.neighborMainAddr ∧ p.Strict a

/-- The table in the loop over the two-hop tuples, of which `done` are done. -/
structure TwoHop (p : RoutingProtocol) (now : ℤ) (direct : RoutingTable)
    (done : List TwoHopNeighborTuple) (table : RoutingTable) : Prop where
  ext : Extends direct table
  new : ∀ a e, table a = some e → direct a = none →
    e.distance = 2 ∧ p.Strict a ∧ (p.SymTwoHop → p.Start now a)
  complete : ∀ t ∈ done, p.FirstHop now t.neighborMainAddr → p.Strict t.twoHopNeighborAddr →
    (table t.twoHopNeighborAddr).isSome

theorem TwoHop.addTwoHop (hdirect : p.Direct now direct) (hmain : MainAddresses p.m_state)
    (hlinked : ∀ n ∈ p.m_state.m_neighborSet, n.Sym → p.Linked now n.neighborMainAddr →
      (direct n.neighborMainAddr).isSome)
    {done : List TwoHopNeighborTuple} (h : p.TwoHop now direct done table) {t : TwoHopNeighborTuple}
    (ht : t ∈ p.m_state.m_twoHopNeighborSet) :
    p.TwoHop now direct (done ++ [t]) (p.addTwoHop table t) := by
  obtain ⟨hnbmain, htwomain⟩ := hmain.twoHop t ht
  rcases p.addTwoHop_cases table t with ⟨e, hstrict, hok, he, heq⟩ | ⟨heq, hno⟩
  · have hnone : direct t.twoHopNeighborAddr = none := by
      cases hd : direct t.twoHopNeighborAddr with
      | none => rfl
      | some f => exact absurd (hdirect.symAt hd htwomain).1 hstrict.1
    rw [heq]
    refine ⟨h.ext.addEntry he hnone 2, fun a f hf hda ↦ ?_, fun u hu hfirst hu' ↦ ?_⟩
    · by_cases ha : a = t.twoHopNeighborAddr
      · subst ha
        rw [RoutingTable.addEntry_self, Option.some_inj] at hf
        refine ⟨by rw [← hf], hstrict, fun hsymTwoHop ↦ ⟨t, ht, rfl, ?_, hstrict⟩⟩
        -- the tuple's neighbor is symmetric, so its entry is one of the first stage
        obtain ⟨n, hn, hna, hw⟩ := hok
        have hsym := hsymTwoHop t ht n hn hna hw
        refine ⟨⟨n, hn, hna, hsym, hw⟩, ?_⟩
        cases hd : direct t.neighborMainAddr with
        | none => exact absurd ⟨n, hn, hna, hsym⟩ (h.new _ e he hd).2.1.1
        | some g => exact (hdirect.symAt hd hnbmain).2
      · rw [RoutingTable.addEntry_of_ne ha] at hf
        exact h.new a f hf hda
    · by_cases ha : u.twoHopNeighborAddr = t.twoHopNeighborAddr
      · rw [ha, RoutingTable.addEntry_self]
        rfl
      · rw [RoutingTable.addEntry_of_ne ha]
        rcases List.mem_append.mp hu with hu | hu
        · exact h.complete u hu hfirst hu'
        · rw [List.mem_singleton] at hu
          exact absurd (hu ▸ rfl) ha
  · rw [heq]
    refine ⟨h.ext, h.new, fun u hu hfirst hu' ↦ ?_⟩
    rcases List.mem_append.mp hu with hu | hu
    · exact h.complete u hu hfirst hu'
    · rw [List.mem_singleton] at hu
      subst hu
      obtain ⟨⟨n, hn, hna, hsym, hw⟩, hlink⟩ := hfirst
      obtain ⟨f, hf⟩ := Option.isSome_iff_exists.mp (hlinked n hn hsym (hna.symm ▸ hlink))
      refine absurd ⟨hu', ⟨n, hn, hna, hw⟩, ?_⟩ hno
      rw [← hna, h.ext.kept _ f hf]
      rfl

/-- **The second stage** gives distance 2 to the addresses that a search starts from. -/
theorem twoHopStage_spec (hdirect : p.Direct now direct) (hmain : MainAddresses p.m_state)
    (hlinked : ∀ n ∈ p.m_state.m_neighborSet, n.Sym → p.Linked now n.neighborMainAddr →
      (direct n.neighborMainAddr).isSome) :
    p.TwoHop now direct p.m_state.m_twoHopNeighborSet (p.twoHopStage direct) := by
  suffices hfold : ∀ l done : List TwoHopNeighborTuple,
      (∀ t ∈ l, t ∈ p.m_state.m_twoHopNeighborSet) → ∀ table, p.TwoHop now direct done table →
        p.TwoHop now direct (done ++ l) (l.foldl p.addTwoHop table) by
    refine hfold _ [] (fun t ht ↦ ht) direct ⟨hdirect.extends, fun a e he hd ↦ ?_, fun t ht ↦ ?_⟩
    · rw [hd] at he
      cases he
    · exact absurd ht List.not_mem_nil
  intro l
  induction l with
  | nil =>
    intro done _ table h
    rw [List.append_nil]
    exact h
  | cons t l ih =>
    intro done hl table h
    have hstep := h.addTwoHop hdirect hmain hlinked (hl t List.mem_cons_self)
    have hrest := ih (done ++ [t]) (fun u hu ↦ hl u (List.mem_cons_of_mem t hu)) _ hstep
    rw [List.append_assoc, List.singleton_append] at hrest
    exact hrest

theorem foldl_addIfaceAssoc (assocs : List IfaceAssocTuple) (h : Extends direct table) :
    Extends direct (assocs.foldl addIfaceAssoc table) ∧
      ∀ a e, table a = some e → assocs.foldl addIfaceAssoc table a = some e := by
  induction assocs generalizing table with
  | nil => exact ⟨h, fun a e he ↦ he⟩
  | cons t assocs ih =>
    rw [List.foldl_cons, addIfaceAssoc]
    split
    · rename_i entry1 hmain hiface
      obtain ⟨hext, hkept⟩ := ih (h.addEntry hmain (h.direct_eq_none hiface) entry1.distance)
      refine ⟨hext, fun a e he ↦ hkept a e ?_⟩
      rw [RoutingTable.addEntry_of_ne (fun ha ↦ by rw [ha, hiface] at he; cases he)]
      exact he
    · exact ih h

end Stages

/-! ## Shortest paths -/

section Shortest

variable {p : RoutingProtocol} {now : ℤ}

/-- A path: a live link to a symmetric neighbor that forwards, one of its two-hop tuples, and then topology
tuples, where `twoHop` and `later` say which addresses these may lead to. -/
inductive Path (p : RoutingProtocol) (now : ℤ) (twoHop later : Ipv4Address → Prop) :
    ℕ → Ipv4Address → Prop
  | twoHop {t : TwoHopNeighborTuple} (ht : t ∈ p.m_state.m_twoHopNeighborSet)
    (hfirst : p.FirstHop now t.neighborMainAddr) (ha : twoHop t.twoHopNeighborAddr) :
    Path p now twoHop later 2 t.twoHopNeighborAddr
  | topology {h : ℕ} {t : TopologyTuple} (hlast : Path p now twoHop later h t.lastAddr)
    (ht : t ∈ p.m_state.m_topologySet) (ha : later t.destAddr) :
    Path p now twoHop later (h + 1) t.destAddr

/-- A symmetric neighbor with a live link, which has distance 1. -/
def OneHop (p : RoutingProtocol) (now : ℤ) (a : Ipv4Address) : Prop := p.SymAt a ∧ p.Linked now a

/-- Paths whose two-hop neighbor is not the node or a symmetric neighbor, and which do not come back to a
neighbor at distance 1. -/
abbrev StrictPath (p : RoutingProtocol) (now : ℤ) : ℕ → Ipv4Address → Prop :=
  p.Path now p.Strict fun a ↦ ¬ p.OneHop now a

theorem Path.two_le {twoHop later : Ipv4Address → Prop} {h : ℕ} {a : Ipv4Address}
    (hpath : p.Path now twoHop later h a) : 2 ≤ h := by
  induction hpath with
  | twoHop => exact le_refl 2
  | topology _ _ _ ih => exact Nat.le_succ_of_le ih

theorem Path.three_le {twoHop later : Ipv4Address → Prop} {h : ℕ} {a : Ipv4Address}
    (hpath : p.Path now twoHop later h a)
    (ha : ∀ t ∈ p.m_state.m_twoHopNeighborSet, t.twoHopNeighborAddr = a →
      ¬ p.FirstHop now t.neighborMainAddr) : 3 ≤ h := by
  cases hpath with
  | twoHop ht hfirst => exact absurd hfirst (ha _ ht rfl)
  | topology hlast => exact Nat.succ_le_succ hlast.two_le

/-- A neighbor has an entry from the first stage. -/
def Blocked (p : RoutingProtocol) (now : ℤ) (a : Ipv4Address) : Prop :=
  (p.neighborStage now a).isSome

/-- An address has an entry from the second stage. -/
def Begun (p : RoutingProtocol) (now : ℤ) (a : Ipv4Address) : Prop :=
  p.neighborStage now a = none ∧ (p.twoHopStage (p.neighborStage now) a).isSome

/-- The edges of the topology. -/
abbrev edges (p : RoutingProtocol) : List (Ipv4Address × Ipv4Address) :=
  p.m_state.m_topologySet.map RoutingTable.edge

theorem blocked_iff (hmain : MainAddresses p.m_state) {a : Ipv4Address}
    (ha : p.m_state.getMainAddress a = a) : p.Blocked now a ↔ p.OneHop now a := by
  obtain ⟨hdirect, hlinked⟩ := p.neighborStage_spec now hmain.neighbor
  constructor
  · intro h
    obtain ⟨e, he⟩ := Option.isSome_iff_exists.mp h
    exact hdirect.symAt he ha
  · rintro ⟨⟨n, hn, rfl, hsym⟩, hlink⟩
    exact hlinked n hn hsym hlink

theorem begun_iff (hmain : MainAddresses p.m_state) (hsym : p.SymTwoHop) {a : Ipv4Address} :
    p.Begun now a ↔ p.Start now a := by
  obtain ⟨hdirect, hlinked⟩ := p.neighborStage_spec now hmain.neighbor
  have htwoHop := twoHopStage_spec hdirect hmain hlinked
  constructor
  · rintro ⟨hnone, hsome⟩
    obtain ⟨e, he⟩ := Option.isSome_iff_exists.mp hsome
    exact (htwoHop.new a e he hnone).2.2 hsym
  · rintro ⟨t, ht, rfl, hfirst, hstrict⟩
    refine ⟨?_, htwoHop.complete t ht hfirst hstrict⟩
    cases hd : p.neighborStage now t.twoHopNeighborAddr with
    | none => rfl
    | some e => exact absurd (hdirect.symAt hd (hmain.twoHop t ht).2).1 hstrict.1

theorem strictPath_iff (hmain : MainAddresses p.m_state) (hsym : p.SymTwoHop) {m : ℕ}
    {a : Ipv4Address} :
    LevelSearch.Walk (p.Begun now) (p.Blocked now) p.edges m a ↔ p.StrictPath now (m + 2) a := by
  constructor
  · intro hwalk
    induction hwalk with
    | start hv =>
      obtain ⟨t, ht, rfl, hfirst, hstrict⟩ := (begun_iff hmain hsym).mp hv
      exact .twoHop ht hfirst hstrict
    | step hu he hv ih =>
      obtain ⟨t, ht, hedge⟩ := List.mem_map.mp he
      rw [RoutingTable.edge, Prod.mk.injEq] at hedge
      obtain ⟨rfl, rfl⟩ := hedge
      exact .topology ih ht fun h ↦ hv ((blocked_iff hmain (hmain.topology t ht).1).mpr h)
  · intro hpath
    generalize hk : m + 2 = k at hpath
    induction hpath generalizing m with
    | twoHop ht hfirst hstrict =>
      obtain rfl : m = 0 := by omega
      exact .start ((begun_iff hmain hsym).mpr ⟨_, ht, rfl, hfirst, hstrict⟩)
    | topology hlast ht ha ih =>
      have htwo := hlast.two_le
      obtain ⟨m, rfl⟩ : ∃ k, m = k + 1 := Nat.exists_eq_succ_of_ne_zero (by omega)
      exact .step (ih (by omega)) (List.mem_map.mpr ⟨_, ht, rfl⟩)
        fun h ↦ ha ((blocked_iff hmain (hmain.topology _ ht).1).mp h)

theorem levels_twoHopStage (p : RoutingProtocol) (now : ℤ) (hmain : MainAddresses p.m_state) :
    LevelSearch.Levels (p.Begun now) (p.Blocked now) p.edges 2 0
      (p.twoHopStage (p.neighborStage now)).distances := by
  obtain ⟨hdirect, hlinked⟩ := p.neighborStage_spec now hmain.neighbor
  have htwoHop := twoHopStage_spec hdirect hmain hlinked
  have hnew : ∀ a, p.neighborStage now a = none → ∀ e,
      p.twoHopStage (p.neighborStage now) a = some e → e.distance = 2 :=
    fun a hnone e he ↦ (htwoHop.new a e he hnone).1
  constructor
  · intro a ha
    obtain ⟨e, he⟩ := Option.isSome_iff_exists.mp ha
    exact ⟨1, by omega, RoutingTable.distances_eq_some.mpr
      ⟨e, htwoHop.ext.kept a e he, (hdirect a e he).distance⟩⟩
  · intro a k ha hd
    obtain ⟨e, he, rfl⟩ := RoutingTable.distances_eq_some.mp hd
    have hnone := Option.not_isSome_iff_eq_none.mp ha
    exact ⟨0, le_refl 0, hnew a hnone e he, .start ⟨hnone, Option.isSome_iff_exists.mpr ⟨e, he⟩⟩⟩
  · intro m a hwalk hm
    obtain rfl : m = 0 := Nat.le_zero.mp hm
    cases hwalk with
    | start ha =>
      obtain ⟨e, he⟩ := Option.isSome_iff_exists.mp ha.2
      exact ⟨0, le_refl 0, RoutingTable.distances_eq_some.mpr ⟨e, he, hnew a ha.1 e he⟩⟩

/-- **The routing table is one of shortest paths.** With main addresses in the information bases every entry
goes over one at distance 1 with the same interface, and has a send entry; and where two-hop tuples are those
of symmetric neighbors each destination that a path leads to has the length of a shortest one. -/
theorem routingTableComputation_shortest (p : RoutingProtocol) (now : ℤ)
    (hmain : MainAddresses p.m_state) :
    ∃ p', (∀ fuel, p.m_state.m_topologySet.length < fuel →
        p.routingTableComputation now fuel = some p') ∧
      (∀ a e, p'.m_table a = some e → e.destAddr = a ∧ ∃ f, p'.m_table e.nextAddr = some f ∧
        f.destAddr = e.nextAddr ∧ f.distance = 1 ∧ f.interface = e.interface) ∧
      (∀ a e, p'.m_table a = some e →
        ∃ out, ∀ fuel, 2 ≤ fuel → p'.m_table.findSendEntry fuel e = some (some out)) ∧
      (p.SymTwoHop → ∀ a h, IsLeast {h | p.StrictPath now h a} h →
        ∃ e, p'.m_table a = some e ∧ e.distance = h) := by
  obtain ⟨hdirect, hlinked⟩ := p.neighborStage_spec now hmain.neighbor
  have htwoHop := twoHopStage_spec hdirect hmain hlinked
  have hstart : ∀ a, p.Begun now a → ¬ p.Blocked now a := fun a ha ↦
    Option.not_isSome_iff_eq_none.mpr ha.1
  obtain ⟨d, hloop, -, hsound, hcomplete⟩ :=
    LevelSearch.levels_isLeast (p.levels_twoHopStage now hmain) hstart
  have hcount : p.edges.countP (fun e ↦
      (p.twoHopStage (p.neighborStage now)).distances e.2 = none) ≤ p.m_state.m_topologySet.length :=
    List.countP_le_length.trans_eq (List.length_map RoutingTable.edge)
  have hlevels := hloop (p.m_state.m_topologySet.length + 1) (Nat.lt_succ_of_le hcount)
  rw [← RoutingTable.topologyLoop_distances, Option.map_eq_some_iff] at hlevels
  obtain ⟨table, htable, rfl⟩ := hlevels
  obtain ⟨hext, hkept⟩ :=
    foldl_addIfaceAssoc p.m_state.m_ifaceAssocSet (htwoHop.ext.topologyLoop htable)
  have hcomputed : ∀ fuel, p.m_state.m_topologySet.length < fuel →
      p.routingTableComputation now fuel = some { p with
        m_table := p.m_state.m_ifaceAssocSet.foldl addIfaceAssoc table
        m_hnaRoutingTable := p.m_state.m_associationSet.foldl
          (p.addAssociation (p.m_state.m_ifaceAssocSet.foldl addIfaceAssoc table))
          (clearHna 0 p.m_hnaRoutingTable) } := fun fuel hfuel ↦ by
    rw [routingTableComputation]
    dsimp only
    rw [RoutingTable.topologyLoop_mono htable hfuel, Option.map_some]
  refine ⟨_, hcomputed, fun a e he ↦ ?_, fun a e he ↦ hext.findSendEntry he, fun hsym a h hleast ↦ ?_⟩
  · obtain ⟨f, hf, hdest, -, hdistance, hinterface⟩ := hext.via a e he
    exact ⟨hext.dest a e he, f, hext.kept _ f hf, hdest, hdistance, hinterface⟩
  · obtain ⟨m, rfl⟩ := Nat.exists_eq_add_of_le' hleast.1.two_le
    have hwalk := (strictPath_iff hmain hsym).mpr hleast.1
    obtain ⟨k, hk, hd⟩ := hcomplete m a hwalk
    obtain ⟨m', hm', hleast'⟩ := hsound a _ (hwalk.not_blocked hstart) hd
    have hle := hleast.2 ((strictPath_iff hmain hsym).mp hleast'.1)
    obtain ⟨e, he, hdistance⟩ := RoutingTable.distances_eq_some.mp hd
    exact ⟨e, hkept a e he, by omega⟩

end Shortest

/-- A node with two neighbors, one of them over two interfaces, and a path over three hops. -/
def sample : RoutingProtocol where
  m_mainAddress := 0
  m_ipv4 := [[127], [0, 100], [101]]
  m_state := { OlsrState.empty with
    m_linkSet := [⟨100, 1, 50, 50, 50⟩, ⟨101, 21, 50, 50, 50⟩, ⟨101, 3, 50, 50, 5⟩]
    m_neighborSet := [⟨1, .STATUS_SYM, 3⟩, ⟨2, .STATUS_SYM, 3⟩, ⟨3, .STATUS_SYM, 3⟩]
    m_twoHopNeighborSet := [⟨2, 4, 50⟩, ⟨1, 2, 50⟩]
    m_topologySet := [⟨6, 5, 1, 50⟩, ⟨5, 4, 1, 50⟩]
    m_ifaceAssocSet := [⟨21, 2, 50⟩, ⟨41, 4, 50⟩] }
  m_table := fun _ ↦ none
  m_hnaRoutingTable := []

/-- The table of the sample. -/
theorem routingTableComputation_shortest_sample :
    MainAddresses sample.m_state ∧ sample.SymTwoHop ∧
    ∃ p', (∀ fuel, sample.m_state.m_topologySet.length < fuel →
        sample.routingTableComputation 10 fuel = some p') ∧
      (∀ a e, p'.m_table a = some e → e.destAddr = a ∧ ∃ f, p'.m_table e.nextAddr = some f ∧
        f.destAddr = e.nextAddr ∧ f.distance = 1 ∧ f.interface = e.interface) ∧
      (∀ a e, p'.m_table a = some e →
        ∃ out, ∀ fuel, 2 ≤ fuel → p'.m_table.findSendEntry fuel e = some (some out)) ∧
      (sample.SymTwoHop → ∀ a h, IsLeast {h | sample.StrictPath 10 h a} h →
        ∃ e, p'.m_table a = some e ∧ e.distance = h) :=
  ⟨⟨by decide, by decide, by decide⟩, by unfold SymTwoHop; decide,
    routingTableComputation_shortest sample 10 ⟨by decide, by decide, by decide⟩⟩

example : (sample.routingTableComputation 10 3).bind (fun p ↦ p.m_table 6) = some ⟨6, 21, 2, 4⟩ := by
  decide +kernel

/-- A two-hop neighbor that is a symmetric neighbor, and one topology tuple from it. -/
def overNeighbor : RoutingProtocol :=
  { sample with m_state := { OlsrState.empty with
    m_linkSet := [⟨100, 1, 50, 50, 50⟩, ⟨100, 2, 50, 50, 50⟩]
    m_neighborSet := [⟨1, .STATUS_SYM, 3⟩, ⟨2, .STATUS_SYM, 3⟩]
    m_twoHopNeighborSet := [⟨1, 2, 50⟩]
    m_topologySet := [⟨9, 2, 1, 50⟩] } }

/-- The same where it is a neighbor that is not symmetric and has a two-hop tuple left. -/
def overLostNeighbor : RoutingProtocol :=
  { sample with m_state := { OlsrState.empty with
    m_linkSet := [⟨100, 1, 50, 50, 50⟩, ⟨100, 2, 5, 50, 50⟩]
    m_neighborSet := [⟨1, .STATUS_SYM, 3⟩, ⟨2, .STATUS_NOT_SYM, 3⟩]
    m_twoHopNeighborSet := [⟨1, 2, 50⟩, ⟨2, 9, 50⟩]
    m_topologySet := [⟨9, 2, 1, 50⟩] } }

/-- A path of three hops over a neighbor is not found, and one over a neighbor that is not symmetric is taken
for one of two hops. -/
theorem not_shortest :
    (MainAddresses overNeighbor.m_state ∧
      IsLeast {h | overNeighbor.Path 10 (fun _ ↦ True) (fun _ ↦ True) h 9} 3 ∧
      ∃ p', overNeighbor.routingTableComputation 10 2 = some p' ∧ p'.m_table 9 = none) ∧
    MainAddresses overLostNeighbor.m_state ∧
      IsLeast {h | overLostNeighbor.Path 10 (fun _ ↦ True) (fun _ ↦ True) h 9} 3 ∧
      ∃ p', overLostNeighbor.routingTableComputation 10 2 = some p' ∧
        p'.m_table 9 = some ⟨9, 1, 1, 2⟩ := by
  refine ⟨⟨⟨by decide, by decide, by decide⟩, ⟨?_, ?_⟩, ?_⟩,
    ⟨by decide, by decide, by decide⟩, ⟨?_, ?_⟩, ?_⟩
  · exact .topology (t := ⟨9, 2, 1, 50⟩)
      (.twoHop (t := ⟨1, 2, 50⟩) (by decide) (by decide) trivial) (by decide) trivial
  · exact fun h hpath ↦ hpath.three_le (by decide)
  · exact Option.map_eq_some_iff.mp (by decide +kernel :
      (overNeighbor.routingTableComputation 10 2).map (fun p ↦ p.m_table 9) = some none)
  · exact .topology (t := ⟨9, 2, 1, 50⟩)
      (.twoHop (t := ⟨1, 2, 50⟩) (by decide) (by decide) trivial) (by decide) trivial
  · exact fun h hpath ↦ hpath.three_le (by decide)
  · exact Option.map_eq_some_iff.mp (by decide +kernel :
      (overLostNeighbor.routingTableComputation 10 2).map (fun p ↦ p.m_table 9) =
        some (some ⟨9, 1, 1, 2⟩))

end RoutingProtocol

end Olsr

end Ns3
