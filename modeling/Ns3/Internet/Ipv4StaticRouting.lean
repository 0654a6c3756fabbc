import Mathlib
import Ns3.Network.Ipv4Address

/-!
# Lookup in the static routing table

`LookupStatic` goes once through the network routes and keeps the length of the longest mask that has
matched, the smallest metric of a route with a mask of this length, and the route that they are from.
What it keeps is the best of the routes it has seen (`Best`), with the metric counted anew for a longer
mask.

A host route ends the search at once, before the metrics of the host routes behind it are looked at.
-/

namespace Ns3

namespace Ipv4StaticRouting

open Ipv4Address Ipv4Mask

/-! ## Routes and interfaces -/

/-- `Ipv4RoutingTableEntry`. -/
structure Ipv4RoutingTableEntry where
  m_dest : Ipv4Address
  m_destNetworkMask : Ipv4Mask
  m_gateway : Ipv4Address
  m_interface : ℕ
  deriving DecidableEq, Repr

/-- `Ipv4InterfaceAddress`. -/
structure Ipv4InterfaceAddress where
  m_local : Ipv4Address
  m_mask : Ipv4Mask
  m_secondary : Bool
  deriving DecidableEq, Repr

/-- An interface: its device and its addresses. -/
structure Ipv4Interface where
  m_device : ℕ
  m_ifaddrs : List Ipv4InterfaceAddress
  deriving DecidableEq, Repr

/-- `Ipv4Route`. What belongs to an interface is missing if there is no such interface. -/
structure Ipv4Route where
  m_dest : Ipv4Address
  m_source : Option Ipv4Address
  m_gateway : Ipv4Address
  m_outputDevice : Option ℕ
  deriving DecidableEq, Repr

/-! ## The code -/

/-- `Ipv4L3Protocol::GetNetDevice`. -/
def getNetDevice (m_interfaces : List Ipv4Interface) (i : ℕ) : Option ℕ :=
  m_interfaces[i]?.map Ipv4Interface.m_device

/-- `Ipv4L3Protocol::GetInterfaceForDevice`. -/
def getInterfaceForDevice (m_interfaces : List Ipv4Interface) (device : ℕ) : Option ℕ :=
  m_interfaces.findIdx? fun i ↦ i.m_device == device

/-- `Ipv4L3Protocol::SourceAddressSelection`. -/
def sourceAddressSelection (m_interfaces : List Ipv4Interface) (interfaceIdx : ℕ)
    (dest : Ipv4Address) : Option Ipv4Address :=
  let ifaddrs := m_interfaces[interfaceIdx]?.elim [] Ipv4Interface.m_ifaddrs
  let candidate := ifaddrs.head?.map Ipv4InterfaceAddress.m_local
  if ifaddrs.length = 1 then candidate
  else
    ((ifaddrs.find? fun test ↦
      combineMask test.m_local test.m_mask == combineMask dest test.m_mask && !test.m_secondary).map
        Ipv4InterfaceAddress.m_local).or candidate

/-- A network route and its metric. -/
abbrev NetworkRoute := Ipv4RoutingTableEntry × UInt32

/-- The length of the mask of a route. -/
def NetworkRoute.masklen (r : NetworkRoute) : ℕ := getPrefixLength r.1.m_destNetworkMask

/-- Whether a route is for `dest`, and for the device if one is asked for. -/
def matches' (m_interfaces : List Ipv4Interface) (dest : Ipv4Address) (oif : Option ℕ)
    (r : NetworkRoute) : Bool :=
  decide (IsMatch r.1.m_destNetworkMask dest r.1.m_dest) &&
    (oif.isNone || oif == getNetDevice m_interfaces r.1.m_interface)

/-- The variables of the search. -/
structure Search where
  longest_mask : ℕ
  shortest_metric : UInt32
  route : Option NetworkRoute
  deriving DecidableEq, Repr

/-- The search, of the routes that `eligible` accepts. -/
def search (eligible : NetworkRoute → Bool) : List NetworkRoute → Search → Search
  | [], s => s
  | r :: rest, s =>
    if eligible r = true then
      if r.masklen < s.longest_mask then search eligible rest s
      else if (if s.longest_mask < r.masklen then 0xffffffff else s.shortest_metric) < r.2 then
        search eligible rest { s with
          longest_mask := r.masklen
          shortest_metric :=
            if s.longest_mask < r.masklen then 0xffffffff else s.shortest_metric }
      else if r.masklen = 32 then ⟨r.masklen, r.2, some r⟩
      else search eligible rest ⟨r.masklen, r.2, some r⟩
    else search eligible rest s

/-- The network route that the search ends with. -/
def foundRoute (m_interfaces : List Ipv4Interface) (m_networkRoutes : List NetworkRoute)
    (dest : Ipv4Address) (oif : Option ℕ) : Option NetworkRoute :=
  (search (matches' m_interfaces dest oif) m_networkRoutes ⟨0, 0xffffffff, none⟩).route

/-- The route that is made of a network route. -/
def toIpv4Route (m_interfaces : List Ipv4Interface) (r : NetworkRoute) : Ipv4Route :=
  ⟨r.1.m_dest, sourceAddressSelection m_interfaces r.1.m_interface r.1.m_dest, r.1.m_gateway,
    getNetDevice m_interfaces r.1.m_interface⟩

/-- `Ipv4StaticRouting::LookupStatic`. -/
def lookupStatic (m_interfaces : List Ipv4Interface) (m_networkRoutes : List NetworkRoute)
    (dest : Ipv4Address) (oif : Option ℕ) : Option Ipv4Route :=
  if IsLocalMulticast dest then
    oif.map fun device ↦ ⟨dest, (getInterfaceForDevice m_interfaces device).bind fun i ↦
      (m_interfaces[i]?.bind fun iface ↦ iface.m_ifaddrs.head?).map Ipv4InterfaceAddress.m_local,
      0, some device⟩
  else (foundRoute m_interfaces m_networkRoutes dest oif).map (toIpv4Route m_interfaces)

/-! ## The length of a mask -/

/-- The mask of `n` ones. -/
def contiguous (n : ℕ) : Ipv4Mask := BitVec.ofNat 32 (2 ^ 32 - 2 ^ (32 - n))

theorem masklen_le (r : NetworkRoute) : r.masklen ≤ 32 :=
  getPrefixLength_le _

/-! ## The best route -/

/-- `r` is eligible, no eligible route has a longer mask, and none with a mask as long has a smaller
metric. -/
structure Best (eligible : NetworkRoute → Bool) (routes : List NetworkRoute) (r : NetworkRoute) :
    Prop where
  mem : r ∈ routes
  accepted : eligible r = true
  longest : ∀ q ∈ routes, eligible q = true → q.masklen ≤ r.masklen
  least : ∀ q ∈ routes, eligible q = true → q.masklen = r.masklen → r.2 ≤ q.2

/-- What the search keeps of the routes it has seen. -/
structure Kept (eligible : NetworkRoute → Bool) (seen : List NetworkRoute) (s : Search) : Prop where
  best : ∀ r ∈ s.route, Best eligible seen r ∧ s.longest_mask = r.masklen ∧ s.shortest_metric = r.2
  empty : s.route = none → (∀ q ∈ seen, eligible q = false) ∧ s.longest_mask = 0 ∧
    s.shortest_metric = 0xffffffff

section Search

variable {eligible : NetworkRoute → Bool} {seen rest : List NetworkRoute} {s : Search}
  {r : NetworkRoute}

theorem Kept.skip (hk : Kept eligible seen s)
    (hr : eligible r = true → ∃ b ∈ s.route, r.masklen < b.masklen ∨
      r.masklen = b.masklen ∧ b.2 ≤ r.2) : Kept eligible (seen ++ [r]) s := by
  refine ⟨fun b hb ↦ ?_, fun hnone ↦ ?_⟩
  · obtain ⟨hbest, hlen, hmetric⟩ := hk.best b hb
    refine ⟨⟨List.mem_append_left _ hbest.mem, hbest.accepted, fun q hq he ↦ ?_,
      fun q hq he heq ↦ ?_⟩, hlen, hmetric⟩
    · rcases List.mem_append.mp hq with hq | hq
      · exact hbest.longest q hq he
      · obtain rfl := List.mem_singleton.mp hq
        obtain ⟨b', hb', hle⟩ := hr he
        obtain rfl := Option.mem_unique hb hb'
        omega
    · rcases List.mem_append.mp hq with hq | hq
      · exact hbest.least q hq he heq
      · obtain rfl := List.mem_singleton.mp hq
        obtain ⟨b', hb', hle⟩ := hr he
        obtain rfl := Option.mem_unique hb hb'
        exact (hle.resolve_left (by omega)).2
  · obtain ⟨hseen, hlen, hmetric⟩ := hk.empty hnone
    refine ⟨fun q hq ↦ ?_, hlen, hmetric⟩
    rcases List.mem_append.mp hq with hq | hq
    · exact hseen q hq
    · obtain rfl := List.mem_singleton.mp hq
      by_contra he
      obtain ⟨b, hb, -⟩ := hr ((Bool.not_eq_false _).mp he)
      exact absurd hb (hnone ▸ Option.not_mem_none b)

theorem Kept.take (hk : Kept eligible seen s) (hr : eligible r = true)
    (hlen : s.longest_mask ≤ r.masklen) (hmetric : s.longest_mask = r.masklen → r.2 ≤ s.shortest_metric) :
    Kept eligible (seen ++ [r]) ⟨r.masklen, r.2, some r⟩ := by
  refine ⟨fun b hb ↦ ?_, fun hnone ↦ absurd hnone (Option.some_ne_none r)⟩
  obtain rfl := Option.some.inj hb
  refine ⟨⟨List.mem_append_right _ (List.mem_singleton_self _), hr, fun q hq he ↦ ?_,
    fun q hq he heq ↦ ?_⟩, rfl, rfl⟩
  · rcases List.mem_append.mp hq with hq | hq
    · cases hroute : s.route with
      | none => exact absurd he (Bool.eq_false_iff.mp ((hk.empty hroute).1 q hq))
      | some b =>
        obtain ⟨hbest, hb, -⟩ := hk.best b hroute
        exact (hbest.longest q hq he).trans (hb ▸ hlen)
    · obtain rfl := List.mem_singleton.mp hq
      exact le_rfl
  · rcases List.mem_append.mp hq with hq | hq
    · cases hroute : s.route with
      | none => exact absurd he (Bool.eq_false_iff.mp ((hk.empty hroute).1 q hq))
      | some b =>
        -- the best route so far has a mask as long
        obtain ⟨hbest, hb, hb'⟩ := hk.best b hroute
        have hle := hbest.longest q hq he
        have hsame : s.longest_mask = r.masklen := by omega
        exact UInt32.le_trans (hmetric hsame) (hb' ▸ hbest.least q hq he (by omega))
    · obtain rfl := List.mem_singleton.mp hq
      exact UInt32.le_refl _

theorem Kept.step (hk : Kept eligible seen s) : Kept eligible (seen ++ [r]) s ∧
      search eligible (r :: rest) s = search eligible rest s ∧
        (eligible r = true → r.masklen = 32 → ∃ b ∈ s.route, b.masklen = 32) ∨
    Kept eligible (seen ++ [r]) ⟨r.masklen, r.2, some r⟩ ∧ eligible r = true ∧
      search eligible (r :: rest) s = if r.masklen = 32 then ⟨r.masklen, r.2, some r⟩
        else search eligible rest ⟨r.masklen, r.2, some r⟩ := by
  have hmax : ∀ m : UInt32, ¬0xffffffff < m := fun m ↦ UInt32.not_lt.mpr
    (UInt32.le_iff_toNat_le.mpr (Nat.le_of_lt_succ m.toNat_lt))
  rw [search]
  by_cases hr : eligible r = true
  · rw [if_pos hr]
    by_cases hshort : r.masklen < s.longest_mask
    · rw [if_pos hshort]
      cases hroute : s.route with
      | none =>
        rw [(hk.empty hroute).2.1] at hshort
        exact absurd hshort (Nat.not_lt_zero _)
      | some b =>
        obtain ⟨-, hb, -⟩ := hk.best b hroute
        refine .inl ⟨hk.skip fun _ ↦ ⟨b, hroute, .inl (hb ▸ hshort)⟩, rfl, fun _ h32 ↦ ?_⟩
        have hle := masklen_le b
        omega
    · rw [if_neg hshort]
      by_cases hlong : s.longest_mask < r.masklen
      · rw [if_pos hlong, if_neg (hmax r.2)]
        exact .inr ⟨hk.take hr hlong.le fun heq ↦ absurd heq hlong.ne, hr, rfl⟩
      · have hsame : s.longest_mask = r.masklen := le_antisymm (not_lt.mp hshort |>.trans' le_rfl |>
          fun h ↦ by omega) (not_lt.mp hlong |> fun h ↦ by omega)
        rw [if_neg hlong]
        by_cases hmetric : s.shortest_metric < r.2
        · rw [if_pos hmetric]
          cases hroute : s.route with
          | none =>
            rw [(hk.empty hroute).2.2] at hmetric
            exact absurd hmetric (hmax r.2)
          | some b =>
            obtain ⟨-, hb, hb'⟩ := hk.best b hroute
            refine .inl ⟨hk.skip fun _ ↦ ⟨b, hroute, .inr ⟨by omega, hb' ▸ UInt32.le_of_lt hmetric⟩⟩, ?_,
              fun _ h32 ↦ ⟨b, rfl, by omega⟩⟩
            rw [← hsame, ← hroute]
        · rw [if_neg hmetric]
          exact .inr ⟨hk.take hr hsame.le fun _ ↦ UInt32.not_lt.mp hmetric, hr, rfl⟩
  · rw [if_neg hr]
    exact .inl ⟨hk.skip fun h ↦ absurd h hr, rfl, fun h ↦ absurd h hr⟩

/-- Whether a route is an eligible host route. -/
def isHost (eligible : NetworkRoute → Bool) (q : NetworkRoute) : Bool :=
  eligible q && q.masklen == 32

theorem Kept.search (hk : Kept eligible seen s) (hopen : ∀ b ∈ s.route, b.masklen ≠ 32) :
    Kept eligible (seen ++ rest) (search eligible rest s) ∧ rest.find? (isHost eligible) = none ∨
      ∃ f, rest.find? (isHost eligible) = some f ∧ (search eligible rest s).route = some f := by
  induction rest generalizing seen s with
  | nil =>
    rw [List.append_nil]
    exact .inl ⟨hk, rfl⟩
  | cons r rest ih =>
    rw [List.append_cons]
    obtain ⟨hk', hsearch, hhost⟩ | ⟨hk', hr, hsearch⟩ := @Kept.step eligible seen rest s r hk
    · have hr : isHost eligible r = false := by
        rw [isHost, Bool.and_eq_false_iff, beq_eq_false_iff_ne]
        by_contra hnot
        rw [not_or, Bool.not_eq_false, not_not] at hnot
        obtain ⟨b, hb, h32⟩ := hhost hnot.1 hnot.2
        exact hopen b hb h32
      rw [hsearch, List.find?_cons_of_neg (Bool.eq_false_iff.mp hr)]
      exact ih hk' hopen
    · by_cases h32 : r.masklen = 32
      · have hhost : isHost eligible r = true := by rw [isHost, hr, h32]; rfl
        rw [hsearch, if_pos h32, List.find?_cons_of_pos hhost]
        exact .inr ⟨r, rfl, rfl⟩
      · have hhost : ¬isHost eligible r = true := by
          rw [isHost, hr, Bool.true_and, beq_iff_eq]
          exact h32
        rw [hsearch, if_neg h32, List.find?_cons_of_neg hhost]
        refine ih hk' fun b hb ↦ ?_
        obtain rfl := Option.some.inj hb
        exact h32

end Search

theorem kept_nil (eligible : NetworkRoute → Bool) : Kept eligible [] ⟨0, 0xffffffff, none⟩ where
  best r hr := absurd hr (Option.not_mem_none r)
  empty _ := ⟨fun _ hq ↦ absurd hq List.not_mem_nil, rfl, rfl⟩

/-! ## The result -/

/-- Nothing is found just if no route matches, and what is found is the best of the routes that
match. -/
structure Exact (m_interfaces : List Ipv4Interface) (m_networkRoutes : List NetworkRoute)
    (dest : Ipv4Address) (oif : Option ℕ) : Prop where
  none_iff : lookupStatic m_interfaces m_networkRoutes dest oif = none ↔
    ∀ q ∈ m_networkRoutes, matches' m_interfaces dest oif q = false
  best : ∀ rtentry ∈ lookupStatic m_interfaces m_networkRoutes dest oif,
    ∃ r ∈ foundRoute m_interfaces m_networkRoutes dest oif,
      rtentry = toIpv4Route m_interfaces r ∧
        Best (matches' m_interfaces dest oif) m_networkRoutes r

/-- **The lookup is exact just if no host route that matches has a smaller metric than the first
one.** -/
theorem lookupStatic_exact_iff {m_interfaces : List Ipv4Interface}
    {m_networkRoutes : List NetworkRoute} {dest : Ipv4Address} {oif : Option ℕ}
    (hdest : ¬ IsLocalMulticast dest) : Exact m_interfaces m_networkRoutes dest oif ↔
      ∀ f ∈ m_networkRoutes.find? (isHost (matches' m_interfaces dest oif)),
        ∀ q ∈ m_networkRoutes, isHost (matches' m_interfaces dest oif) q = true → f.2 ≤ q.2 := by
  have hlookup : lookupStatic m_interfaces m_networkRoutes dest oif =
      (foundRoute m_interfaces m_networkRoutes dest oif).map (toIpv4Route m_interfaces) :=
    if_neg hdest
  have hopen : ∀ b ∈ (none : Option NetworkRoute), b.masklen ≠ 32 :=
    fun b hb ↦ absurd hb (Option.not_mem_none b)
  obtain ⟨hk, hnone⟩ | ⟨f, hf, hroute⟩ :=
    @Kept.search _ [] m_networkRoutes _ (kept_nil (matches' m_interfaces dest oif)) hopen
  · -- no host route matches
    rw [hnone]
    refine iff_of_true ⟨?_, fun rtentry hrt ↦ ?_⟩ fun f hf ↦ absurd hf (Option.not_mem_none f)
    · rw [hlookup, Option.map_eq_none_iff]
      refine ⟨fun h ↦ (hk.empty h).1, fun h ↦ ?_⟩
      by_contra hsome
      obtain ⟨r, hr⟩ := Option.ne_none_iff_exists'.mp hsome
      obtain ⟨hbest, -, -⟩ := hk.best r hr
      exact Bool.false_ne_true ((h r hbest.mem).symm.trans hbest.accepted)
    · rw [hlookup] at hrt
      obtain ⟨r, hr, rfl⟩ := Option.map_eq_some_iff.mp hrt
      exact ⟨r, hr, rfl, (hk.best r hr).1⟩
  · have hfound : foundRoute m_interfaces m_networkRoutes dest oif = some f := hroute
    have hhost := List.find?_some hf
    rw [isHost, Bool.and_eq_true, beq_iff_eq] at hhost
    rw [hf]
    constructor
    · intro hexact b hb q hq hqhost
      obtain rfl := Option.some.inj hb
      rw [isHost, Bool.and_eq_true, beq_iff_eq] at hqhost
      obtain ⟨r, hr, -, hbest⟩ := hexact.best _ (by rw [hlookup, hfound]; rfl)
      obtain rfl := Option.some.inj (hfound.symm.trans hr)
      exact hbest.least q hq hqhost.1 (hqhost.2.trans hhost.2.symm)
    · intro hleast
      refine ⟨?_, fun rtentry hrt ↦ ?_⟩
      · rw [hlookup, hfound]
        exact iff_of_false (Option.some_ne_none _) fun h ↦
          Bool.false_ne_true ((h f (List.mem_of_find?_eq_some hf)).symm.trans hhost.1)
      · rw [hlookup, hfound] at hrt
        obtain rfl := Option.some.inj hrt
        refine ⟨f, hfound, rfl, List.mem_of_find?_eq_some hf, hhost.1, fun q _ _ ↦ ?_,
          fun q hq he heq ↦ hleast f rfl q hq ?_⟩
        · rw [hhost.2]
          exact masklen_le q
        · rw [isHost, he, heq, hhost.2]
          rfl

/-- A node with two interfaces. -/
def twoInterfaces : List Ipv4Interface :=
  [⟨0, [⟨0x0a000001, 0xffffff00, false⟩]⟩, ⟨1, [⟨0x0a000101, 0xffffff00, false⟩]⟩]

/-- A default route, two routes to a network with different metrics, and a host route to another host. -/
theorem lookupStatic_exact_network : Exact twoInterfaces
    [(⟨0, 0, 0x0a000002, 0⟩, 0), (⟨0x0a010000, contiguous 16, 0x0a000003, 0⟩, 5),
      (⟨0x0a010000, contiguous 16, 0x0a000102, 1⟩, 2), (⟨0x0a010001, contiguous 32, 0, 0⟩, 0)]
    0x0a010002 none :=
  (lookupStatic_exact_iff (by decide)).mpr (by decide)

/-- Two routes to one host: the one with metric ten comes first. -/
theorem not_lookupStatic_exact_host :
    ¬Exact twoInterfaces [(⟨0x0a010001, contiguous 32, 0x0a000002, 0⟩, 10),
      (⟨0x0a010001, contiguous 32, 0x0a000102, 1⟩, 1)] 0x0a010001 none ∧
    lookupStatic twoInterfaces [(⟨0x0a010001, contiguous 32, 0x0a000002, 0⟩, 10),
      (⟨0x0a010001, contiguous 32, 0x0a000102, 1⟩, 1)] 0x0a010001 none =
        some ⟨0x0a010001, some 0x0a000001, 0x0a000002, some 0⟩ := by
  refine ⟨fun h ↦ ?_, by decide +kernel⟩
  obtain ⟨r, hr, -, hbest⟩ := h.best ⟨0x0a010001, some 0x0a000001, 0x0a000002, some 0⟩
    (by decide +kernel)
  have hfirst : r = (⟨0x0a010001, contiguous 32, 0x0a000002, 0⟩, 10) :=
    Option.mem_unique hr (by decide +kernel)
  have hle := hbest.least (⟨0x0a010001, contiguous 32, 0x0a000102, 1⟩, 1) (by decide +kernel)
    (by decide +kernel) (by rw [hfirst]; rfl)
  rw [hfirst] at hle
  exact absurd hle (by decide)

end Ipv4StaticRouting

end Ns3
