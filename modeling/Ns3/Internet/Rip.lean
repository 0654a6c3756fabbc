import Mathlib
import Ns3.Library.Machine
import Ns3.Network.Ipv4Address

/-!
# RIP routes and their timers

A route that was learned from a Response has a timer: until it is invalidated while it is valid, and
until it is deleted once it is invalid. Both timers are in the same field, and each entry of a Response
replaces, refreshes or invalidates the route and its timer by hand.

## The order of events

An event fires when none is earlier, and a Response arrives when no event is overdue; with events at the
time of its arrival either may come first. The entries of a Response are handled one after the other, and
nothing else happens in between (`execFrom_receive`).
-/

namespace Ns3

namespace Rip

open Ipv4Address Ipv4Mask

/-! ## Routes -/

/-- A `RipRoutingTableEntry::Status_e`. -/
inductive Status
  | valid
  | invalid
  deriving DecidableEq

/-- An `EventId`. -/
structure EventId where
  uid : ℕ
  ts : ℕ
  deriving DecidableEq

/-- A `RipRoutingTableEntry` of the table, with its address, and with the event that stands beside it in
the table. Two fields are not the program's: that it was made for a Response, and when it became
invalid. -/
structure Route where
  id : ℕ
  destNetwork : Ipv4Address
  destNetworkMask : Ipv4Mask
  gateway : Ipv4Address
  interface : ℕ
  m_tag : ℕ
  m_metric : ℕ
  m_status : Status
  m_changed : Bool
  event : Option EventId
  fromResponse : Bool
  invalidSince : ℕ
  deriving DecidableEq

namespace Route

/-- The constructor of a `RipRoutingTableEntry`. -/
def create (id : ℕ) (network : Ipv4Address) (networkPrefix : Ipv4Mask) (nextHop : Ipv4Address)
    (interface : ℕ) (fromResponse : Bool) : Route where
  id := id
  destNetwork := network
  destNetworkMask := networkPrefix
  gateway := nextHop
  interface := interface
  m_tag := 0
  m_metric := 0
  m_status := .invalid
  m_changed := false
  event := none
  fromResponse := fromResponse
  invalidSince := 0

def setRouteTag (r : Route) (routeTag : ℕ) : Route :=
  if r.m_tag ≠ routeTag then { r with m_tag := routeTag, m_changed := true } else r

/-- `SetRouteMetric`, of which the argument is a byte. -/
def setRouteMetric (r : Route) (routeMetric : ℕ) : Route :=
  if r.m_metric ≠ routeMetric % 256 then
    { r with m_metric := routeMetric % 256, m_changed := true }
  else r

def setRouteStatus (r : Route) (status : Status) : Route :=
  if r.m_status ≠ status then { r with m_status := status, m_changed := true } else r

def setRouteChanged (r : Route) (changed : Bool) : Route := { r with m_changed := changed }

/-- What is set of a route that is advertised: its metric, its status, its tag, and that it changed. -/
def advertise (r : Route) (metric tag : ℕ) : Route :=
  (((r.setRouteMetric metric).setRouteStatus .valid).setRouteTag tag).setRouteChanged true

/-- The route came from a Response: it was made for one, or it has got a timer. -/
def Learned (r : Route) : Prop := r.fromResponse = true ∨ r.event.isSome = true

instance (r : Route) : Decidable r.Learned := inferInstanceAs (Decidable (_ ∨ _))

/-- The network and the mask of a route. -/
def key (r : Route) : Ipv4Address × Ipv4Mask := (r.destNetwork, r.destNetworkMask)

end Route

/-! ## The scheduler -/

/-- The function that an event calls. -/
inductive Kind
  | invalidateRoute
  | deleteRoute
  deriving DecidableEq

/-- A pending event and the route that it is called with. -/
structure Event where
  uid : ℕ
  time : ℕ
  kind : Kind
  route : ℕ
  deriving DecidableEq

/-- The simulator: the time, and the events that have neither fired nor been cancelled. -/
structure Simulator where
  now : ℕ
  pending : List Event
  nextUid : ℕ
  deriving DecidableEq

namespace Simulator

/-- `Simulator::Schedule`. -/
def schedule (sim : Simulator) (delay : ℕ) (kind : Kind) (route : ℕ) : Simulator × EventId :=
  ({ sim with
      pending := sim.pending ++ [⟨sim.nextUid, sim.now + delay, kind, route⟩]
      nextUid := sim.nextUid + 1 },
    ⟨sim.nextUid, sim.now + delay⟩)

/-- `EventId::IsRunning`. -/
def IsRunning (sim : Simulator) (ev : Option EventId) : Prop :=
  ∃ id ∈ ev, ∃ e ∈ sim.pending, e.uid = id.uid

instance (sim : Simulator) (ev : Option EventId) : Decidable (sim.IsRunning ev) :=
  inferInstanceAs (Decidable (∃ id ∈ ev, ∃ e ∈ sim.pending, _))

/-- `EventId::Cancel`. -/
def cancel (sim : Simulator) : Option EventId → Simulator
  | none => sim
  | some id => { sim with pending := sim.pending.filter (·.uid ≠ id.uid) }

/-- `Simulator::GetDelayLeft`. -/
def getDelayLeft (sim : Simulator) (ev : Option EventId) : ℕ :=
  match ev with
  | none => 0
  | some id => if sim.IsRunning ev then id.ts - sim.now else 0

end Simulator

/-! ## The protocol -/

/-- A route that is added by `AddNetworkRouteTo`; its next hop is zero when none is given. -/
structure NetworkRoute where
  network : Ipv4Address
  networkPrefix : Ipv4Mask
  nextHop : Ipv4Address
  interface : ℕ
  deriving DecidableEq

/-- The attributes, the settings of the interfaces, the routes that are configured, and the source
address that is selected for an interface and a destination. -/
structure Config where
  m_linkDown : ℕ
  m_timeoutDelay : ℕ
  m_garbageCollectionDelay : ℕ
  m_interfaceExclusions : List ℕ
  m_interfaceMetrics : ℕ → Option ℕ
  networkRoutes : List NetworkRoute
  sourceAddressSelection : ℕ → Ipv4Address → Ipv4Address

/-- A `Rip`: the table, the scheduler, the address of the next route, and whether an abort was reached;
with the number of triggered updates. -/
structure State where
  m_routes : List Route
  sim : Simulator
  nextRoute : ℕ
  aborted : Bool
  triggered : ℕ
  deriving DecidableEq

/-- A `RipRte`. -/
structure Rte where
  tag : ℕ
  addrPrefix : Ipv4Address
  subnetMask : Ipv4Mask
  metric : ℕ
  deriving DecidableEq

/-- A Response as it is handled. -/
structure Response where
  senderAddress : Ipv4Address
  incomingInterface : ℕ
  rtes : List Rte
  deriving DecidableEq

namespace State

variable (c : Config)

def addNetworkRouteTo (s : State) (a : NetworkRoute) : State :=
  { s with
    m_routes := s.m_routes ++ [((((Route.create s.nextRoute a.network a.networkPrefix a.nextHop
      a.interface false).setRouteMetric 1).setRouteStatus .valid).setRouteChanged true)]
    nextRoute := s.nextRoute + 1 }

/-- A new `Rip` with the routes that are configured. -/
def create : State :=
  c.networkRoutes.foldl addNetworkRouteTo ⟨[], ⟨0, [], 0⟩, 0, false, 0⟩

/-- The loop of `InvalidateRoute`; `none` where the route is not found. -/
def invalidateRouteLoop (route : ℕ) : List Route → Simulator → Option (List Route × Simulator)
  | [], _ => none
  | r :: rs, sim =>
    if r.id = route then
      let since := if r.m_status = .valid then sim.now else r.invalidSince
      let r := ((r.setRouteStatus .invalid).setRouteMetric c.m_linkDown).setRouteChanged true
      let sim := if sim.IsRunning r.event then sim.cancel r.event else sim
      let sched := sim.schedule c.m_garbageCollectionDelay .deleteRoute route
      some ({ r with event := some sched.2, invalidSince := since } :: rs, sched.1)
    else (invalidateRouteLoop route rs sim).map fun x ↦ (r :: x.1, x.2)

def invalidateRoute (s : State) (route : ℕ) : State :=
  match invalidateRouteLoop c route s.m_routes s.sim with
  | some (routes, sim) => { s with m_routes := routes, sim := sim }
  | none => { s with aborted := true }

def deleteRoute (s : State) (route : ℕ) : State :=
  if ∃ r ∈ s.m_routes, r.id = route then
    { s with m_routes := s.m_routes.eraseP (·.id = route) }
  else { s with aborted := true }

/-! ## Lookup -/

/-- An `Ipv4Route`; the output device by its interface. -/
structure Ipv4Route where
  source : Ipv4Address
  destination : Ipv4Address
  gateway : Ipv4Address
  outputInterface : ℕ
  deriving DecidableEq

/-- A turn of the loop of `Lookup`, with the route so far and the longest mask. -/
def lookupStep (dst : Ipv4Address) (interface : Option ℕ) (acc : Option Ipv4Route × ℕ) (j : Route) :
    Option Ipv4Route × ℕ :=
  if j.m_status = .valid then
    let maskLen := getPrefixLength j.destNetworkMask
    if IsMatch j.destNetworkMask dst j.destNetwork ∧ (interface = none ∨ interface = some j.interface)
        ∧ ¬ maskLen < acc.2 then
      (some {
        source := c.sourceAddressSelection j.interface
          (if j.destNetwork = 0 then j.gateway else j.destNetwork)
        destination := j.destNetwork
        gateway := j.gateway
        outputInterface := j.interface }, maskLen)
    else acc
  else acc

/-- `Lookup`; the outer `none` where it is asserted that an interface is given. -/
def lookup (s : State) (dst : Ipv4Address) (interface : Option ℕ) : Option (Option Ipv4Route) :=
  if IsLocalMulticast dst then
    interface.map fun i ↦ some ⟨c.sourceAddressSelection i dst, dst, 0, i⟩
  else some (s.m_routes.foldl (lookupStep c dst interface) (none, 0)).1

/-! ## Responses -/

/-- The metric of an entry with that of the interface, at most the link-down metric. -/
def rteMetric (incomingInterface : ℕ) (rte : Rte) : ℕ :=
  min ((rte.metric + (c.m_interfaceMetrics incomingInterface).getD 1) % 2 ^ 32) c.m_linkDown

/-- The route is one for the network of the entry. -/
def Matches (rte : Rte) (r : Route) : Prop :=
  r.destNetwork = combineMask rte.addrPrefix rte.subnetMask ∧ r.destNetworkMask = rte.subnetMask

instance (rte : Rte) (r : Route) : Decidable (Matches rte r) := inferInstanceAs (Decidable (_ ∧ _))

/-- A route is put at `i`; the event that stands there is cancelled, and a timeout is scheduled. -/
def refresh (s : State) (i : ℕ) (r : Route) : State :=
  let sched := (s.sim.cancel r.event).schedule c.m_timeoutDelay .invalidateRoute r.id
  { s with m_routes := s.m_routes.set i { r with event := some sched.2 }, sim := sched.1 }

/-- A turn of the inner loop of `HandleResponses`, for the route at `i`; with whether there is a route for
the network and whether the table has changed. -/
def visit (senderAddress : Ipv4Address) (incomingInterface : ℕ) (rte : Rte) (i : ℕ)
    (t : State × Bool × Bool) : State × Bool × Bool :=
  let s := t.1
  match s.m_routes[i]? with
  | none => t
  | some r =>
    if Matches rte r then
      let metric := rteMetric c incomingInterface rte
      -- a route that takes the place of `r`, with the event that is there
      let route := { Route.create s.nextRoute (combineMask rte.addrPrefix rte.subnetMask)
        rte.subnetMask senderAddress incomingInterface true with event := r.event }
      let s' := { s with nextRoute := s.nextRoute + 1 }
      if metric < r.m_metric then
        if senderAddress ≠ r.gateway then
          (refresh c s' i (route.advertise metric rte.tag), true, true)
        else (refresh c s i (r.advertise metric rte.tag), true, true)
      else if metric = r.m_metric then
        if senderAddress = r.gateway then (refresh c s i r, true, t.2.2)
        else if s.sim.getDelayLeft r.event < c.m_timeoutDelay / 2 then
          (refresh c s' i (route.advertise metric rte.tag), true, true)
        else (s, true, t.2.2)
      else if senderAddress = r.gateway then
        let s := { s with sim := s.sim.cancel r.event }
        if metric < c.m_linkDown then
          (refresh c s i (r.advertise metric rte.tag), true, true)
        else (invalidateRoute c s r.id, true, true)
      else (s, true, t.2.2)
    else t

/-- The inner loop of `HandleResponses`, for `n` routes from that at `i`. -/
def visitAll (senderAddress : Ipv4Address) (incomingInterface : ℕ) (rte : Rte) :
    ℕ → ℕ → State × Bool × Bool → State × Bool × Bool
  | 0, _, t => t
  | n + 1, i, t =>
    visitAll senderAddress incomingInterface rte n (i + 1) (visit c senderAddress incomingInterface rte i t)

/-- A route for the network of an entry that has none. -/
def addRoute (senderAddress : Ipv4Address) (incomingInterface : ℕ) (rte : Rte) (s : State) : State :=
  let route := (((Route.create s.nextRoute (combineMask rte.addrPrefix rte.subnetMask) rte.subnetMask
    senderAddress incomingInterface true).setRouteMetric (rteMetric c incomingInterface
    rte)).setRouteStatus .valid).setRouteChanged true
  let sched := s.sim.schedule c.m_timeoutDelay .invalidateRoute route.id
  { s with
    m_routes := { route with event := some sched.2 } :: s.m_routes
    sim := sched.1
    nextRoute := s.nextRoute + 1 }

/-- A turn of the outer loop of `HandleResponses`, with whether the table has changed. -/
def handleRte (senderAddress : Ipv4Address) (incomingInterface : ℕ) (s : State × Bool) (rte : Rte) :
    State × Bool :=
  let t := visitAll c senderAddress incomingInterface rte s.1.m_routes.length 0 (s.1, false, s.2)
  if t.2.1 = false ∧ rteMetric c incomingInterface rte ≠ c.m_linkDown then
    (addRoute c senderAddress incomingInterface rte t.1, true)
  else (t.1, t.2.2)

/-- What `HandleResponses` checks of an entry before it handles any. -/
def WellFormed (rte : Rte) : Prop :=
  ¬ (rte.metric = 0 ∨ c.m_linkDown < rte.metric) ∧
    ¬ (IsLocalhost rte.addrPrefix ∨ IsBroadcast rte.addrPrefix ∨ IsMulticast rte.addrPrefix)

instance (rte : Rte) : Decidable (WellFormed c rte) := inferInstanceAs (Decidable (_ ∧ _))

/-- A Response that is not ignored. -/
def Accepts (m : Response) : Prop :=
  m.incomingInterface ∉ c.m_interfaceExclusions ∧ ∀ rte ∈ m.rtes, WellFormed c rte

instance (m : Response) : Decidable (Accepts c m) := inferInstanceAs (Decidable (_ ∧ _))

/-- The end of `HandleResponses`. -/
def finish (s : State × Bool) : State :=
  if s.2 then { s.1 with triggered := s.1.triggered + 1 } else s.1

end State

/-! ## Runs -/

/-- A `Rip`, and the Response that is being handled: what is left of it, and whether the table has
changed. -/
structure Node where
  rip : State
  current : Option (Response × Bool)
  deriving DecidableEq

inductive Op
  | receive (t : ℕ) (m : Response)
  | entry
  | fire (uid : ℕ)
  deriving DecidableEq

namespace Node

variable (c : Config)

/-- Nothing is overdue at `t`. -/
def Idle (s : Node) (t : ℕ) : Prop :=
  s.current = none ∧ s.rip.sim.now ≤ t ∧ ∀ e ∈ s.rip.sim.pending, t ≤ e.time

instance (s : Node) (t : ℕ) : Decidable (s.Idle t) := inferInstanceAs (Decidable (_ ∧ _ ∧ _))

/-- An event fires. -/
def fire (s : State) (e : Event) : State :=
  let s := { s with sim := { s.sim with
    now := e.time
    pending := s.sim.pending.filter (·.uid ≠ e.uid) } }
  match e.kind with
  | .invalidateRoute => s.invalidateRoute c e.route
  | .deleteRoute => s.deleteRoute e.route

/-- A step: a Response arrives, its next entry is handled or its end is reached, or an event fires. -/
def step (s : Node) : Op → Option Node
  | .receive t m =>
    if s.Idle t then
      let rip := { s.rip with sim := { s.rip.sim with now := t } }
      some (if State.Accepts c m then ⟨rip, some (m, false)⟩ else ⟨rip, none⟩)
    else none
  | .entry =>
    match s.current with
    | none => none
    | some (m, changed) =>
      match m.rtes with
      | [] => some ⟨State.finish (s.rip, changed), none⟩
      | rte :: rest =>
        let t := State.handleRte c m.senderAddress m.incomingInterface (s.rip, changed) rte
        some ⟨t.1, some ({ m with rtes := rest }, t.2)⟩
  | .fire uid =>
    match s.rip.sim.pending.find? (·.uid = uid) with
    | none => none
    | some e => if s.Idle e.time then some ⟨fire c s.rip e, none⟩ else none

/-- The runs of a node. -/
def machine : Machine Node Op := ⟨⟨State.create c, none⟩, step c⟩

end Node

end Rip

end Ns3
