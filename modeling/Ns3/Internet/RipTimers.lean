import Ns3.Library.OwnedEvents
import Ns3.Internet.Rip

/-!
# The timers of RIP routes match the table

A branch of `HandleResponses` is made for routes that are valid, and is also taken by those that are
not: an entry with an infinite metric equals the metric of an invalid route, and the timer it cancels is
then the one that deletes the route. The route stays, with a timer that invalidates it again, or a route
that is unreachable takes its place and is valid (`not_sound_repeatedPoison`).

In every run without such an entry, and in which no entry takes over two routes for one network, routes
and timers match (`sound_of_run`).
-/

namespace Ns3

namespace Rip

open Ipv4Address Ipv4Mask

/-- The event that a route of a status waits for. -/
def kindOf : Status → Kind
  | .valid => .invalidateRoute
  | .invalid => .deleteRoute

namespace State

variable (c : Config)

/-! ## What is promised -/

/-- What holds of the table and its timers after each step. -/
structure Sound (s : State) : Prop where
  /-- Two learned routes are for different networks. -/
  unique : s.m_routes.Pairwise fun r r' ↦ r.Learned → r'.Learned → r.key ≠ r'.key
  /-- A valid route can be reached. -/
  valid : ∀ r ∈ s.m_routes, r.m_status = .valid → r.m_metric < c.m_linkDown
  /-- An invalid route cannot. -/
  invalid : ∀ r ∈ s.m_routes, r.m_status = .invalid → r.m_metric = c.m_linkDown
  /-- A learned route has one event, and it is the one that its status calls for. -/
  timer : ∀ r ∈ s.m_routes, r.Learned →
    (s.sim.pending.filter (·.route = r.id)).map Event.kind = [kindOf r.m_status]
  /-- Events are for routes of the table. -/
  target : ∀ e ∈ s.sim.pending, ∃ r ∈ s.m_routes, r.id = e.route
  /-- No abort was reached. -/
  running : s.aborted = false
  /-- An invalid route is there for no longer than the garbage collection delay. -/
  prompt : ∀ r ∈ s.m_routes, r.m_status = .invalid →
    s.sim.now ≤ r.invalidSince + c.m_garbageCollectionDelay
  /-- Packets are sent over routes that can be reached, those to local groups apart. -/
  forwards : ∀ (dst : Ipv4Address) (interface : Option ℕ) (route : Ipv4Route),
    lookup c s dst interface = some (some route) → IsLocalMulticast dst ∨
      ∃ r ∈ s.m_routes, r.m_status = .valid ∧ r.m_metric < c.m_linkDown ∧
        IsMatch r.destNetworkMask dst r.destNetwork ∧ route.gateway = r.gateway ∧
        route.outputInterface = r.interface

/-- The time until the event of a route, which is zero when there is none. -/
def timeLeft (now : ℕ) (r : Route) : ℕ := r.event.elim 0 fun id ↦ id.ts - now

/-- The entry changes the route or its timer. -/
def Takes (senderAddress : Ipv4Address) (incomingInterface : ℕ) (rte : Rte) (now : ℕ) (r : Route) :
    Prop :=
  rteMetric c incomingInterface rte < r.m_metric ∨
    (rteMetric c incomingInterface rte = r.m_metric ∧
      (senderAddress = r.gateway ∨ timeLeft now r < c.m_timeoutDelay / 2)) ∨
    (r.m_metric < rteMetric c incomingInterface rte ∧ senderAddress = r.gateway)

instance (senderAddress : Ipv4Address) (incomingInterface : ℕ) (rte : Rte) (now : ℕ) (r : Route) :
    Decidable (Takes c senderAddress incomingInterface rte now r) :=
  inferInstanceAs (Decidable (_ ∨ _ ∨ _))

/-- The route is learned, or the entry makes it so. -/
def Active (senderAddress : Ipv4Address) (incomingInterface : ℕ) (rte : Rte) (now : ℕ) (r : Route) :
    Prop :=
  r.Learned ∨ (Matches rte r ∧ Takes c senderAddress incomingInterface rte now r)

instance (senderAddress : Ipv4Address) (incomingInterface : ℕ) (rte : Rte) (now : ℕ) (r : Route) :
    Decidable (Active c senderAddress incomingInterface rte now r) :=
  inferInstanceAs (Decidable (_ ∨ _))

/-- The entry does not keep an unreachable route: one that is invalid is taken with a finite metric
only. And it does not leave two learned routes for its network. -/
def Clear (senderAddress : Ipv4Address) (incomingInterface : ℕ) (rte : Rte) (s : State) : Prop :=
  (∀ r ∈ s.m_routes, Matches rte r → r.m_status = .invalid →
    Takes c senderAddress incomingInterface rte s.sim.now r →
      rteMetric c incomingInterface rte ≠ c.m_linkDown) ∧
  (s.m_routes.filter fun r ↦ Matches rte r ∧
    Active c senderAddress incomingInterface rte s.sim.now r).length ≤ 1

instance (senderAddress : Ipv4Address) (incomingInterface : ℕ) (rte : Rte) (s : State) :
    Decidable (Clear c senderAddress incomingInterface rte s) :=
  inferInstanceAs (Decidable ((∀ r ∈ s.m_routes, _) ∧ _))

end State

/-- The entry that is handled next is clear. -/
def Node.Clear (c : Config) (s : Node) : Op → Prop
  | .entry => ∀ x ∈ s.current, ∀ rte ∈ x.1.rtes.head?,
      State.Clear c x.1.senderAddress x.1.incomingInterface rte s.rip
  | _ => True

instance (c : Config) (s : Node) (o : Op) : Decidable (s.Clear c o) :=
  match o with
  | .entry => inferInstanceAs (Decidable (∀ x ∈ s.current, _))
  | .receive .. => inferInstanceAs (Decidable True)
  | .fire _ => inferInstanceAs (Decidable True)

/-! ## Routes -/

namespace Route

/-- The event of a route as it is pending. -/
def pending (r : Route) : Option Event :=
  r.event.map fun id ↦ ⟨id.uid, id.ts, kindOf r.m_status, r.id⟩

theorem pending_eq_some {r : Route} {id : EventId} (h : r.event = some id) :
    r.pending = some ⟨id.uid, id.ts, kindOf r.m_status, r.id⟩ := by
  rw [pending, h, Option.map_some]

theorem advertise_eq (r : Route) (metric tag : ℕ) : r.advertise metric tag =
    { r with m_metric := metric % 256, m_status := .valid, m_tag := tag, m_changed := true } := by
  cases r
  simp only [advertise, setRouteMetric, setRouteStatus, setRouteTag, setRouteChanged]
  split_ifs <;> simp_all

theorem setRouteStatus_setRouteMetric (r : Route) (metric : ℕ) (status : Status) :
    ((r.setRouteMetric metric).setRouteStatus status).setRouteChanged true =
      { r with m_metric := metric % 256, m_status := status, m_changed := true } := by
  cases r
  simp only [setRouteMetric, setRouteStatus, setRouteChanged]
  split_ifs <;> simp_all

theorem setRouteMetric_setRouteStatus (r : Route) (metric : ℕ) (status : Status) :
    ((r.setRouteStatus status).setRouteMetric metric).setRouteChanged true =
      { r with m_metric := metric % 256, m_status := status, m_changed := true } := by
  cases r
  simp only [setRouteMetric, setRouteStatus, setRouteChanged]
  split_ifs <;> simp_all

/-- What holds of each route. -/
structure Sound (c : Config) (r : Route) : Prop where
  valid : r.m_status = .valid → r.m_metric < c.m_linkDown
  invalid : r.m_status = .invalid → r.m_metric = c.m_linkDown
  timed : r.event = none → r.m_status = .valid ∧ r.fromResponse = false
  prompt : r.m_status = .invalid →
    ∀ id ∈ r.event, id.ts ≤ r.invalidSince + c.m_garbageCollectionDelay

variable {c : Config} {r : Route}

theorem Sound.learned_iff (h : r.Sound c) : r.Learned ↔ r.event.isSome = true := by
  constructor
  · rintro (hresp | hev)
    · by_contra hnone
      rw [Option.not_isSome_iff_eq_none] at hnone
      rw [(h.timed hnone).2] at hresp
      exact Bool.false_ne_true hresp
    · exact hev
  · exact Or.inr

theorem Sound.le_linkDown (h : r.Sound c) : r.m_metric ≤ c.m_linkDown := by
  cases hst : r.m_status with
  | valid => exact (h.valid hst).le
  | invalid => exact (h.invalid hst).le

theorem sound_of_valid (hst : r.m_status = .valid) (hmetric : r.m_metric < c.m_linkDown)
    {id : EventId} (hev : r.event = some id) : r.Sound c where
  valid _ := hmetric
  invalid h := by
    rw [hst] at h
    cases h
  timed h := by
    rw [hev] at h
    cases h
  prompt h := by
    rw [hst] at h
    cases h

end Route

/-! ## The scheduler -/

namespace Simulator

@[simp] theorem cancel_now (sim : Simulator) (ev : Option EventId) : (sim.cancel ev).now = sim.now := by
  cases ev <;> rfl

@[simp] theorem cancel_nextUid (sim : Simulator) (ev : Option EventId) :
    (sim.cancel ev).nextUid = sim.nextUid := by
  cases ev <;> rfl

theorem mem_of_mem_cancel {sim : Simulator} {ev : Option EventId} {e : Event}
    (h : e ∈ (sim.cancel ev).pending) : e ∈ sim.pending := by
  cases ev with
  | none => exact h
  | some id => exact List.mem_of_mem_filter h

theorem not_isRunning_cancel (sim : Simulator) (ev : Option EventId) :
    ¬ (sim.cancel ev).IsRunning ev := by
  rintro ⟨id, hid, e, he, huid⟩
  rw [hid] at he
  change e ∈ sim.pending.filter _ at he
  exact of_decide_eq_true (List.mem_filter.mp he).2 huid

theorem cancel_cancel (sim : Simulator) (ev : Option EventId) :
    (sim.cancel ev).cancel ev = sim.cancel ev := by
  cases ev with
  | none => rfl
  | some id => simp [cancel]

end Simulator

/-! ## The invariant -/

namespace State

variable {c : Config} {s s' : State} {r r' : Route} {pre post : List Route} {senderAddress : Ipv4Address}
  {incomingInterface : ℕ} {rte : Rte}

/-- The pending events are those of the routes, and each route is sound. -/
structure Inv (c : Config) (s : State) : Prop where
  owned : OwnedEvents Route.pending Event.uid s.sim.pending s.m_routes s.sim.nextUid
  due : ∀ e ∈ s.sim.pending, s.sim.now ≤ e.time
  ids : (s.m_routes.map Route.id).Nodup
  id_lt : ∀ r ∈ s.m_routes, r.id < s.nextRoute
  sound : ∀ r ∈ s.m_routes, r.Sound c
  running : s.aborted = false

/-- No two routes for one network have the property. -/
def Distinct (A : Route → Prop) (routes : List Route) : Prop :=
  routes.Pairwise fun r r' ↦ A r → A r' → r.key ≠ r'.key

theorem Distinct.replace {A : Route → Prop} (h : Distinct A (pre ++ r :: post)) (hr : A r)
    (hkey : r'.key = r.key) : Distinct A (pre ++ r' :: post) := by
  rw [Distinct, List.pairwise_append, List.pairwise_cons] at h ⊢
  obtain ⟨hpre, ⟨hhead, hpost⟩, hcross⟩ := h
  refine ⟨hpre, ⟨?_, hpost⟩, ?_⟩
  · intro x hx _ hAx
    rw [hkey]
    exact hhead x hx hr hAx
  · intro x hx y hy hAx hAy
    rcases List.mem_cons.mp hy with rfl | hy
    · rw [hkey]
      exact hcross x hx r List.mem_cons_self hAx hr
    · exact hcross x hx y (List.mem_cons_of_mem r hy) hAx hAy

theorem Inv.cancel (h : Inv c s) (hs : s.m_routes = pre ++ r :: post) :
    OwnedEvents Route.pending Event.uid (s.sim.cancel r.event).pending (pre ++ post) s.sim.nextUid := by
  have howned := h.owned
  rw [hs] at howned
  cases hev : r.event with
  | none =>
    have hnone : r.pending = none := by rw [Route.pending, hev, Option.map_none]
    exact (OwnedEvents.idle_iff hnone).mp howned
  | some id => exact howned.release (Route.pending_eq_some hev)

/-- **A route is replaced**, with the timer that its status calls for, by one that has its address or a
new one. -/
theorem Inv.update (h : Inv c s) (hs : s.m_routes = pre ++ r :: post) (r' : Route) (delay : ℕ) {n : ℕ}
    (hid : r'.id = r.id ∧ n = s.nextRoute ∨ r'.id = s.nextRoute ∧ n = s.nextRoute + 1)
    (hsound : r'.Sound c)
    (hev : r'.event =
      some ((s.sim.cancel r.event).schedule delay (kindOf r'.m_status) r'.id).2) :
    Inv c { s with
      m_routes := pre ++ r' :: post
      sim := ((s.sim.cancel r.event).schedule delay (kindOf r'.m_status) r'.id).1
      nextRoute := n } := by
  have hids := h.ids
  have hlt := h.id_lt
  have hsnd := h.sound
  rw [hs] at hids hlt hsnd
  have hle : s.nextRoute ≤ n := by rcases hid with ⟨-, rfl⟩ | ⟨-, rfl⟩ <;> omega
  refine ⟨?_, ?_, ?_, ?_, ?_, h.running⟩
  · have hnew := Route.pending_eq_some hev
    have howned := (h.cancel hs).acquire hnew (Simulator.cancel_nextUid s.sim r.event)
    rw [← Simulator.cancel_nextUid s.sim r.event] at howned
    exact howned
  · intro e he
    rcases List.mem_append.mp he with he | he
    · change (s.sim.cancel r.event).now ≤ _
      rw [Simulator.cancel_now]
      exact h.due e (Simulator.mem_of_mem_cancel he)
    · rw [List.mem_singleton.mp he]
      exact Nat.le_add_right _ _
  · rw [List.map_append, List.map_cons, List.nodup_middle, List.nodup_cons] at hids ⊢
    rcases hid with ⟨hid, -⟩ | ⟨hid, -⟩
    · rw [hid]
      exact hids
    · refine ⟨?_, hids.2⟩
      rw [← List.map_append]
      intro hmem
      obtain ⟨x, hx, hxid⟩ := List.mem_map.mp hmem
      have hxlt := hlt x (List.mem_append.mpr
        ((List.mem_append.mp hx).imp_right (List.mem_cons_of_mem r)))
      rw [hxid, hid] at hxlt
      exact hxlt.false
  · intro x hx
    rcases List.mem_append.mp hx with hx | hx
    · exact (hlt x (List.mem_append_left _ hx)).trans_le hle
    · rcases List.mem_cons.mp hx with rfl | hx
      · have hr := hlt r (List.mem_append_right _ List.mem_cons_self)
        change x.id < n
        omega
      · exact (hlt x (List.mem_append_right _ (List.mem_cons_of_mem r hx))).trans_le hle
  · intro x hx
    rcases List.mem_append.mp hx with hx | hx
    · exact hsnd x (List.mem_append_left _ hx)
    · rcases List.mem_cons.mp hx with rfl | hx
      · exact hsound
      · exact hsnd x (List.mem_append_right _ (List.mem_cons_of_mem r hx))

theorem Inv.refresh (h : Inv c s) (hs : s.m_routes = pre ++ r :: post) (r' : Route) {n : ℕ}
    (hid : r'.id = r.id ∧ n = s.nextRoute ∨ r'.id = s.nextRoute ∧ n = s.nextRoute + 1)
    (hev : r'.event = r.event) (hst : r'.m_status = .valid) (hmetric : r'.m_metric < c.m_linkDown) :
    ∃ r'' : Route, r''.key = r'.key ∧
      (refresh c { s with nextRoute := n } pre.length r').m_routes = pre ++ r'' :: post ∧
      (refresh c { s with nextRoute := n } pre.length r').sim.now = s.sim.now ∧
      Inv c (refresh c { s with nextRoute := n } pre.length r') := by
  let id := ((s.sim.cancel r.event).schedule c.m_timeoutDelay .invalidateRoute r'.id).2
  let r'' := { r' with event := some id }
  have hkind : kindOf r''.m_status = .invalidateRoute := congrArg kindOf hst
  have hupdate := h.update hs r'' c.m_timeoutDelay hid
    (Route.sound_of_valid hst hmetric rfl) (by rw [hkind])
  rw [hkind] at hupdate
  have heq : State.refresh c { s with nextRoute := n } pre.length r' = { s with
      m_routes := pre ++ r'' :: post
      sim := ((s.sim.cancel r.event).schedule c.m_timeoutDelay .invalidateRoute r'.id).1
      nextRoute := n } := by
    simp only [State.refresh, hs, hev, List.set_append_right pre.length _ le_rfl, Nat.sub_self,
      List.set_cons_zero]
    rfl
  rw [heq]
  exact ⟨r'', rfl, rfl, Simulator.cancel_now _ _, hupdate⟩

theorem invalidateRouteLoop_append {sim : Simulator} (hpre : r.id ∉ pre.map Route.id) :
    invalidateRouteLoop c r.id (pre ++ r :: post) sim =
      (invalidateRouteLoop c r.id (r :: post) sim).map fun x ↦ (pre ++ x.1, x.2) := by
  induction pre with
  | nil => simp
  | cons x pre ih =>
    rw [List.map_cons, List.mem_cons, not_or] at hpre
    rw [List.cons_append, invalidateRouteLoop, if_neg (Ne.symm hpre.1), ih hpre.2, Option.map_map]
    rfl

theorem Inv.invalidate (h : Inv c s) (hs : s.m_routes = pre ++ r :: post) (hst : r.m_status = .valid)
    (hfit : c.m_linkDown < 256) :
    ∃ r'' : Route, r''.key = r.key ∧
      (invalidateRoute c { s with sim := s.sim.cancel r.event } r.id).m_routes = pre ++ r'' :: post ∧
      (invalidateRoute c { s with sim := s.sim.cancel r.event } r.id).sim.now = s.sim.now ∧
      Inv c (invalidateRoute c { s with sim := s.sim.cancel r.event } r.id) := by
  have hids := h.ids
  rw [hs, List.map_append, List.map_cons, List.nodup_middle, List.nodup_cons, ← List.map_append] at hids
  have hpre : r.id ∉ pre.map Route.id := by
    intro hmem
    apply hids.1
    rw [List.map_append]
    exact List.mem_append_left _ hmem
  let id := ((s.sim.cancel r.event).schedule c.m_garbageCollectionDelay .deleteRoute r.id).2
  let r'' : Route := { r with
    m_metric := c.m_linkDown
    m_status := .invalid
    m_changed := true
    event := some id
    invalidSince := s.sim.now }
  have hsound : r''.Sound c := by
    refine ⟨?_, ?_, ?_, ?_⟩
    · rintro ⟨⟩
    · intro _
      rfl
    · rintro ⟨⟩
    · intro _ x hx
      rw [← Option.some.inj hx]
      change (s.sim.cancel r.event).now + _ ≤ _
      rw [Simulator.cancel_now]
  have hupdate := h.update hs r'' c.m_garbageCollectionDelay (.inl ⟨rfl, rfl⟩)
    hsound rfl
  have heq : invalidateRoute c { s with sim := s.sim.cancel r.event } r.id = { s with
      m_routes := pre ++ r'' :: post
      sim := ((s.sim.cancel r.event).schedule c.m_garbageCollectionDelay .deleteRoute r.id).1 } := by
    rw [invalidateRoute, hs, invalidateRouteLoop_append hpre, invalidateRouteLoop, if_pos rfl]
    simp only [if_neg (Simulator.not_isRunning_cancel s.sim r.event), if_pos hst,
      Route.setRouteMetric_setRouteStatus, Simulator.cancel_now, Nat.mod_eq_of_lt hfit, Option.map_some]
    rfl
  rw [heq]
  exact ⟨r'', rfl, rfl, Simulator.cancel_now _ _, hupdate⟩

/-! ## An entry of a Response -/

theorem Inv.getDelayLeft_eq (h : Inv c s) (hr : r ∈ s.m_routes) :
    s.sim.getDelayLeft r.event = timeLeft s.sim.now r := by
  cases hev : r.event with
  | none => rw [timeLeft, hev, Option.elim_none, Simulator.getDelayLeft]
  | some id =>
    have hrunning : s.sim.IsRunning (some id) :=
      ⟨id, rfl, _, h.owned.mem_iff.mpr ⟨r, hr, Route.pending_eq_some hev⟩, rfl⟩
    rw [timeLeft, hev, Option.elim_some]
    exact if_pos hrunning

/-- The inner loop for an entry, with the routes that were visited and those that were not. -/
structure Turn (c : Config) (senderAddress : Ipv4Address) (incomingInterface : ℕ) (rte : Rte)
    (now : ℕ) (pre post : List Route) (t : State × Bool × Bool) : Prop where
  routes : t.1.m_routes = pre ++ post
  time : t.1.sim.now = now
  inv : Inv c t.1
  distinct : Distinct (Active c senderAddress incomingInterface rte now) t.1.m_routes
  found : t.2.1 = false → ∀ r ∈ pre, ¬ Matches rte r

namespace Turn

variable {now : ℕ} {t : State × Bool × Bool}

theorem keep (h : Turn c senderAddress incomingInterface rte now pre (r :: post) t) {found changed : Bool}
    (hfound : found = false → t.2.1 = false ∧ ¬ Matches rte r) :
    Turn c senderAddress incomingInterface rte now (pre ++ [r]) post (t.1, found, changed) where
  routes := by rw [List.append_assoc, h.routes]; rfl
  time := h.time
  inv := h.inv
  distinct := h.distinct
  found hf x hx := by
    obtain ⟨hquiet, hr⟩ := hfound hf
    rcases List.mem_append.mp hx with hx | hx
    · exact h.found hquiet x hx
    · rw [List.mem_singleton.mp hx]
      exact hr

theorem replace (h : Turn c senderAddress incomingInterface rte now pre (r :: post) t)
    {s' : State} {changed : Bool} (hr : Active c senderAddress incomingInterface rte now r)
    (hs' : ∃ r' : Route, r'.key = r.key ∧ s'.m_routes = pre ++ r' :: post ∧
      s'.sim.now = t.1.sim.now ∧ Inv c s') :
    ∃ r', Turn c senderAddress incomingInterface rte now (pre ++ [r']) post (s', true, changed) := by
  obtain ⟨r', hkey, hroutes, hnow, hinv⟩ := hs'
  have hdistinct := h.distinct
  rw [h.routes] at hdistinct
  refine ⟨r', ?_, hnow.trans h.time, hinv, ?_, ?_⟩
  · rw [hroutes, List.append_assoc]
    rfl
  · change Distinct _ s'.m_routes
    rw [hroutes]
    exact hdistinct.replace hr hkey
  · rintro ⟨⟩

theorem readvertise (h : Turn c senderAddress incomingInterface rte now pre (r :: post) t)
    (hr : Active c senderAddress incomingInterface rte now r) {metric : ℕ}
    (hmetric : metric < c.m_linkDown) (hfit : c.m_linkDown < 256) :
    ∃ r', Turn c senderAddress incomingInterface rte now (pre ++ [r']) post
      (refresh c t.1 pre.length (r.advertise metric rte.tag), true, true) := by
  rw [Route.advertise_eq, Nat.mod_eq_of_lt (hmetric.trans hfit)]
  apply h.replace hr
  exact h.inv.refresh h.routes { r with
      m_metric := metric, m_status := .valid, m_tag := rte.tag, m_changed := true }
    (.inl ⟨rfl, rfl⟩) rfl rfl hmetric

theorem supplant (h : Turn c senderAddress incomingInterface rte now pre (r :: post) t)
    (hm : Matches rte r) (hr : Active c senderAddress incomingInterface rte now r) {metric : ℕ}
    (hmetric : metric < c.m_linkDown) (hfit : c.m_linkDown < 256) :
    ∃ r', Turn c senderAddress incomingInterface rte now (pre ++ [r']) post
      (refresh c { t.1 with nextRoute := t.1.nextRoute + 1 } pre.length
        (Route.advertise { Route.create t.1.nextRoute (combineMask rte.addrPrefix rte.subnetMask)
          rte.subnetMask senderAddress incomingInterface true with event := r.event } metric rte.tag),
        true, true) := by
  rw [Route.advertise_eq, Nat.mod_eq_of_lt (hmetric.trans hfit)]
  apply h.replace hr
  obtain ⟨r'', hkey, hrest⟩ := h.inv.refresh h.routes {
      Route.create t.1.nextRoute (combineMask rte.addrPrefix rte.subnetMask) rte.subnetMask
        senderAddress incomingInterface true with
      event := r.event, m_metric := metric, m_status := .valid, m_tag := rte.tag, m_changed := true }
    (.inr ⟨rfl, rfl⟩) rfl rfl hmetric
  exact ⟨r'', hkey.trans (Prod.ext hm.1.symm hm.2.symm), hrest⟩

/-- **A turn of the inner loop**, for a route that is not unreachable and taken as such. -/
theorem visit (h : Turn c senderAddress incomingInterface rte now pre (r :: post) t)
    (hclear : Matches rte r → r.m_status = .invalid →
      Takes c senderAddress incomingInterface rte now r →
        rteMetric c incomingInterface rte ≠ c.m_linkDown) (hfit : c.m_linkDown < 256) :
    ∃ r', Turn c senderAddress incomingInterface rte now (pre ++ [r']) post
      (State.visit c senderAddress incomingInterface rte pre.length t) := by
  have hmem : r ∈ t.1.m_routes := by
    rw [h.routes]
    exact List.mem_append_right _ List.mem_cons_self
  have hget : t.1.m_routes[pre.length]? = some r := by
    rw [h.routes, List.getElem?_append_right le_rfl, Nat.sub_self]
    rfl
  have hleft := h.inv.getDelayLeft_eq hmem
  have hsound := h.inv.sound r hmem
  have hle := hsound.le_linkDown
  have hmetric : rteMetric c incomingInterface rte ≤ c.m_linkDown := min_le_right _ _
  rw [h.time] at hleft
  simp only [State.visit, hget, hleft]
  by_cases hm : Matches rte r
  · rw [if_pos hm]
    have hact : Takes c senderAddress incomingInterface rte now r →
        Active c senderAddress incomingInterface rte now r := fun htakes ↦ .inr ⟨hm, htakes⟩
    have hkeep : ∀ changed : Bool, ∃ r', Turn c senderAddress incomingInterface rte now
        (pre ++ [r']) post (t.1, true, changed) := by
      intro changed
      refine ⟨r, h.keep ?_⟩
      rintro ⟨⟩
    -- a route that is taken with its own metric is valid, as that metric is finite
    have hvalid : rteMetric c incomingInterface rte = r.m_metric →
        Takes c senderAddress incomingInterface rte now r → r.m_status = .valid := by
      intro heq htakes
      cases hst : r.m_status with
      | valid => rfl
      | invalid => exact absurd (heq.trans (hsound.invalid hst)) (hclear hm hst htakes)
    by_cases hlt : rteMetric c incomingInterface rte < r.m_metric
    · rw [if_pos hlt]
      have hfinite := hlt.trans_le hle
      by_cases hgw : senderAddress ≠ r.gateway
      · rw [if_pos hgw]
        exact h.supplant hm (hact (.inl hlt)) hfinite hfit
      · rw [if_neg hgw]
        exact h.readvertise (hact (.inl hlt)) hfinite hfit
    · rw [if_neg hlt]
      by_cases heq : rteMetric c incomingInterface rte = r.m_metric
      · rw [if_pos heq]
        by_cases hgw : senderAddress = r.gateway
        · rw [if_pos hgw]
          have htakes : Takes c senderAddress incomingInterface rte now r := .inr (.inl ⟨heq, .inl hgw⟩)
          have hst := hvalid heq htakes
          apply h.replace (hact htakes)
          exact h.inv.refresh h.routes r (.inl ⟨rfl, rfl⟩) rfl hst (hsound.valid hst)
        · rw [if_neg hgw]
          by_cases htime : timeLeft now r < c.m_timeoutDelay / 2
          · rw [if_pos htime]
            have htakes : Takes c senderAddress incomingInterface rte now r :=
              .inr (.inl ⟨heq, .inr htime⟩)
            have hfinite := hsound.valid (hvalid heq htakes)
            rw [← heq] at hfinite
            exact h.supplant hm (hact htakes) hfinite hfit
          · rw [if_neg htime]
            exact hkeep t.2.2
      · rw [if_neg heq]
        by_cases hgw : senderAddress = r.gateway
        · rw [if_pos hgw]
          have hgt : r.m_metric < rteMetric c incomingInterface rte :=
            lt_of_le_of_ne (Nat.le_of_not_lt hlt) (Ne.symm heq)
          have hr := hact (.inr (.inr ⟨hgt, hgw⟩))
          by_cases hfinite : rteMetric c incomingInterface rte < c.m_linkDown
          · rw [if_pos hfinite]
            have hcancel : refresh c { t.1 with sim := t.1.sim.cancel r.event } pre.length
                (r.advertise (rteMetric c incomingInterface rte) rte.tag) =
                refresh c t.1 pre.length (r.advertise (rteMetric c incomingInterface rte) rte.tag) := by
              rw [Route.advertise_eq, refresh, refresh]
              simp only [Simulator.cancel_cancel]
            rw [hcancel]
            exact h.readvertise hr hfinite hfit
          · rw [if_neg hfinite]
            have hst : r.m_status = .valid := by
              cases hst : r.m_status with
              | valid => rfl
              | invalid =>
                have := hsound.invalid hst
                omega
            exact h.replace hr (h.inv.invalidate h.routes hst hfit)
        · rw [if_neg hgw]
          exact hkeep t.2.2
  · rw [if_neg hm]
    exact ⟨r, h.keep fun hf ↦ ⟨hf, hm⟩⟩

/-- **The inner loop.** -/
theorem visitAll {post : List Route} :
    ∀ {pre : List Route} {t : State × Bool × Bool},
    Turn c senderAddress incomingInterface rte now pre post t →
    (∀ r ∈ post, Matches rte r → r.m_status = .invalid →
      Takes c senderAddress incomingInterface rte now r →
        rteMetric c incomingInterface rte ≠ c.m_linkDown) → c.m_linkDown < 256 →
    ∃ routes, Turn c senderAddress incomingInterface rte now routes []
      (State.visitAll c senderAddress incomingInterface rte post.length pre.length t) := by
  induction post with
  | nil =>
    intro pre t h _ _
    exact ⟨pre, h⟩
  | cons r post ih =>
    intro pre t h hclear hfit
    obtain ⟨r', hr'⟩ := h.visit (hclear r List.mem_cons_self) hfit
    have hrest := ih hr' (fun x hx ↦ hclear x (List.mem_cons_of_mem r hx)) hfit
    rw [List.length_append] at hrest
    exact hrest

end Turn

theorem pairwise_of_length_filter_le_one {α : Type*} {p : α → Bool} {l : List α}
    (h : (l.filter p).length ≤ 1) : l.Pairwise fun a b ↦ ¬ (p a = true ∧ p b = true) := by
  rw [List.pairwise_iff_forall_sublist]
  rintro a b hab ⟨ha, hb⟩
  have hsub := (hab.filter p).length_le
  rw [List.filter_cons_of_pos ha, List.filter_cons_of_pos hb] at hsub
  exact absurd (hsub.trans h) (by simp)

theorem Clear.distinct (h : Clear c senderAddress incomingInterface rte s)
    (hd : Distinct Route.Learned s.m_routes) :
    Distinct (Active c senderAddress incomingInterface rte s.sim.now) s.m_routes := by
  refine hd.imp₂ ?_ (pairwise_of_length_filter_le_one h.2)
  intro r r' hlearned hone hr hr' hkey
  by_cases hm : Matches rte r
  · have hm' : Matches rte r' := by
      rw [Route.key, Route.key, Prod.mk.injEq] at hkey
      exact ⟨hkey.1 ▸ hm.1, hkey.2 ▸ hm.2⟩
    exact hone ⟨decide_eq_true ⟨hm, hr⟩, decide_eq_true ⟨hm', hr'⟩⟩
  · have hm' : ¬ Matches rte r' := by
      intro hm'
      rw [Route.key, Route.key, Prod.mk.injEq] at hkey
      exact hm ⟨hkey.1 ▸ hm'.1, hkey.2 ▸ hm'.2⟩
    exact hlearned (hr.resolve_right fun x ↦ hm x.1) (hr'.resolve_right fun x ↦ hm' x.1) hkey

theorem Inv.push (h : Inv c s) {delay : ℕ} (hid : r'.id = s.nextRoute) (hsound : r'.Sound c)
    (hev : r'.event = some (s.sim.schedule delay (kindOf r'.m_status) r'.id).2) :
    Inv c { s with
      m_routes := r' :: s.m_routes
      sim := (s.sim.schedule delay (kindOf r'.m_status) r'.id).1
      nextRoute := s.nextRoute + 1 } := by
  refine ⟨?_, ?_, ?_, ?_, ?_, h.running⟩
  · have howned : OwnedEvents Route.pending Event.uid s.sim.pending ([] ++ s.m_routes) s.sim.nextUid :=
      h.owned
    exact howned.acquire (Route.pending_eq_some hev) rfl
  · intro e he
    rcases List.mem_append.mp he with he | he
    · exact h.due e he
    · rw [List.mem_singleton.mp he]
      exact Nat.le_add_right _ _
  · rw [List.map_cons, List.nodup_cons]
    refine ⟨?_, h.ids⟩
    intro hmem
    obtain ⟨x, hx, hxid⟩ := List.mem_map.mp hmem
    have hlt := h.id_lt x hx
    rw [hxid, hid] at hlt
    exact hlt.false
  · intro x hx
    rcases List.mem_cons.mp hx with rfl | hx
    · rw [hid]
      exact Nat.lt_succ_self _
    · exact Nat.lt_succ_of_lt (h.id_lt x hx)
  · intro x hx
    rcases List.mem_cons.mp hx with rfl | hx
    · exact hsound
    · exact h.sound x hx

/-- **An entry that is clear** leaves routes and timers that match. -/
theorem Inv.handleRte (h : Inv c s) (hd : Distinct Route.Learned s.m_routes)
    (hclear : Clear c senderAddress incomingInterface rte s) (hfit : c.m_linkDown < 256)
    (changed : Bool) :
    Inv c (handleRte c senderAddress incomingInterface (s, changed) rte).1 ∧
      Distinct Route.Learned (handleRte c senderAddress incomingInterface (s, changed) rte).1.m_routes := by
  have hstart : Turn c senderAddress incomingInterface rte s.sim.now [] s.m_routes
      (s, false, changed) := by
    refine ⟨rfl, rfl, h, hclear.distinct hd, ?_⟩
    intro _ r hr
    exact absurd hr List.not_mem_nil
  obtain ⟨routes, hturn⟩ := hstart.visitAll hclear.1 hfit
  rw [List.length_nil] at hturn
  have hlearned : Distinct Route.Learned
      (visitAll c senderAddress incomingInterface rte s.m_routes.length 0
        (s, false, changed)).1.m_routes :=
    hturn.distinct.imp fun hne hr hr' ↦ hne (.inl hr) (.inl hr')
  unfold State.handleRte
  dsimp only
  split_ifs with hnew
  · obtain ⟨hquiet, hfinite⟩ := hnew
    have hlt : rteMetric c incomingInterface rte < c.m_linkDown := lt_of_le_of_ne (min_le_right _ _) hfinite
    rw [addRoute, Route.setRouteStatus_setRouteMetric, Nat.mod_eq_of_lt (hlt.trans hfit)]
    constructor
    · exact hturn.inv.push rfl (Route.sound_of_valid rfl hlt rfl) rfl
    · rw [Distinct, List.pairwise_cons]
      refine ⟨?_, hlearned⟩
      intro r hr _ _ hkey
      have hroutes := hturn.routes
      rw [List.append_nil] at hroutes
      rw [hroutes] at hr
      refine hturn.found hquiet r hr ?_
      rw [Route.key, Route.key, Prod.mk.injEq] at hkey
      exact ⟨hkey.1.symm, hkey.2.symm⟩
  · exact ⟨hturn.inv, hlearned⟩

/-! ## Time passes -/

theorem Inv.advance (h : Inv c s) {t : ℕ} (hdue : ∀ e ∈ s.sim.pending, t ≤ e.time) :
    Inv c { s with sim := { s.sim with now := t } } :=
  { h with due := hdue }

theorem Inv.delete (h : Inv c s) (hs : s.m_routes = pre ++ r :: post) :
    (deleteRoute { s with sim := s.sim.cancel r.event } r.id).m_routes = pre ++ post ∧
      Inv c (deleteRoute { s with sim := s.sim.cancel r.event } r.id) := by
  have hids := h.ids
  rw [hs, List.map_append, List.map_cons, List.nodup_middle, List.nodup_cons, ← List.map_append] at hids
  have hsub : ∀ x ∈ pre ++ post, x ∈ s.m_routes := by
    intro x hx
    rw [hs]
    exact List.mem_append.mpr ((List.mem_append.mp hx).imp_right (List.mem_cons_of_mem r))
  have herase : s.m_routes.eraseP (·.id = r.id) = pre ++ post := by
    have hself := List.eraseP_cons_of_pos (l := post) (p := fun x : Route ↦ decide (x.id = r.id))
      (decide_eq_true (rfl : r.id = r.id))
    rw [hs, List.eraseP_append_right, hself]
    intro x hx hxid
    rw [decide_eq_true_iff] at hxid
    exact hids.1 (hxid ▸ List.mem_map_of_mem (List.mem_append_left _ hx))
  have hfound : ∃ x ∈ s.m_routes, x.id = r.id := by
    refine ⟨r, ?_, rfl⟩
    rw [hs]
    exact List.mem_append_right _ List.mem_cons_self
  have heq : deleteRoute { s with sim := s.sim.cancel r.event } r.id =
      { s with m_routes := pre ++ post, sim := s.sim.cancel r.event } := by
    rw [deleteRoute, if_pos hfound]
    simp only [herase]
  rw [heq]
  refine ⟨rfl, ?_, ?_, hids.2, ?_, ?_, h.running⟩
  · have howned := h.cancel hs
    rw [← Simulator.cancel_nextUid s.sim r.event] at howned
    exact howned
  · intro e he
    change (s.sim.cancel r.event).now ≤ _
    rw [Simulator.cancel_now]
    exact h.due e (Simulator.mem_of_mem_cancel he)
  · intro x hx
    exact h.id_lt x (hsub x hx)
  · intro x hx
    exact h.sound x (hsub x hx)

/-- **An event fires.** -/
theorem Inv.fire (h : Inv c s) (hd : Distinct Route.Learned s.m_routes) (hfit : c.m_linkDown < 256)
    {e : Event} (he : e ∈ s.sim.pending) (hdue : ∀ x ∈ s.sim.pending, e.time ≤ x.time) :
    Inv c (Node.fire c s e) ∧ Distinct Route.Learned (Node.fire c s e).m_routes := by
  obtain ⟨r, hr, hpending⟩ := h.owned.mem_iff.mp he
  obtain ⟨pre, post, hs⟩ := List.append_of_mem hr
  obtain ⟨id, hev, rfl⟩ := Option.map_eq_some_iff.mp hpending
  have hlearned : r.Learned := .inr (by rw [hev]; rfl)
  have hadvance := h.advance hdue
  rw [hs] at hd
  have hcancel : { s with sim := { s.sim with
      now := id.ts
      pending := s.sim.pending.filter (·.uid ≠ id.uid) } } =
      { s with sim := Simulator.cancel { s.sim with now := id.ts } r.event } := by
    rw [hev]
    rfl
  unfold Node.fire
  dsimp only
  rw [hcancel]
  cases hst : r.m_status with
  | valid =>
    obtain ⟨r', hkey, hroutes, -, hinv⟩ := hadvance.invalidate hs hst hfit
    refine ⟨hinv, ?_⟩
    change Distinct _ (invalidateRoute c _ r.id).m_routes
    rw [hroutes]
    exact hd.replace hlearned hkey
  | invalid =>
    obtain ⟨hroutes, hinv⟩ := hadvance.delete hs
    refine ⟨hinv, ?_⟩
    change Distinct _ (deleteRoute _ r.id).m_routes
    rw [hroutes]
    exact hd.sublist ((List.sublist_cons_self r post).append_left pre)

/-! ## The start -/

theorem Inv.addNetworkRouteTo (h : Inv c s) (hlink : 1 < c.m_linkDown)
    (hnone : ∀ r ∈ s.m_routes, ¬ r.Learned) (a : NetworkRoute) :
    Inv c (s.addNetworkRouteTo a) ∧ ∀ r ∈ (s.addNetworkRouteTo a).m_routes, ¬ r.Learned := by
  rw [State.addNetworkRouteTo, Route.setRouteStatus_setRouteMetric]
  constructor
  · refine ⟨?_, h.due, ?_, ?_, ?_, h.running⟩
    · have howned := h.owned
      rw [← List.append_nil s.m_routes] at howned
      exact (OwnedEvents.idle_iff rfl).mpr howned
    · rw [List.map_append, List.map_singleton, List.nodup_append]
      refine ⟨h.ids, List.nodup_singleton _, ?_⟩
      intro u hu v hv
      obtain ⟨x, hx, rfl⟩ := List.mem_map.mp hu
      rw [List.mem_singleton.mp hv]
      exact (h.id_lt x hx).ne
    · intro x hx
      rcases List.mem_append.mp hx with hx | hx
      · exact Nat.lt_succ_of_lt (h.id_lt x hx)
      · rw [List.mem_singleton.mp hx]
        exact Nat.lt_succ_self _
    · intro x hx
      rcases List.mem_append.mp hx with hx | hx
      · exact h.sound x hx
      · rw [List.mem_singleton.mp hx]
        refine ⟨fun _ ↦ hlink, ?_, fun _ ↦ ⟨rfl, rfl⟩, ?_⟩
        · rintro ⟨⟩
        · rintro ⟨⟩
  · intro x hx
    rcases List.mem_append.mp hx with hx | hx
    · exact hnone x hx
    · rw [List.mem_singleton.mp hx]
      rintro (⟨⟨⟩⟩ | ⟨⟨⟩⟩)

/-- A new `Rip` has only routes that can be reached, and no timers. -/
theorem inv_create (hlink : c.networkRoutes ≠ [] → 1 < c.m_linkDown) :
    Inv c (create c) ∧ ∀ r ∈ (create c).m_routes, ¬ r.Learned := by
  have key : ∀ (l : List NetworkRoute) (s : State), (l ≠ [] → 1 < c.m_linkDown) →
      (Inv c s ∧ ∀ r ∈ s.m_routes, ¬ r.Learned) →
        Inv c (l.foldl State.addNetworkRouteTo s) ∧
          ∀ r ∈ (l.foldl State.addNetworkRouteTo s).m_routes, ¬ r.Learned := by
    intro l
    induction l with
    | nil =>
      intro s _ h
      exact h
    | cons a l ih =>
      intro s hl h
      have hlt := hl (List.cons_ne_nil a l)
      exact ih _ (fun _ ↦ hlt) (h.1.addNetworkRouteTo hlt h.2 a)
  refine key c.networkRoutes _ hlink ⟨⟨OwnedEvents.empty 0, ?_, List.nodup_nil, ?_, ?_, rfl⟩, ?_⟩
  all_goals
    intro x hx
    exact absurd hx List.not_mem_nil

/-! ## What the invariant says -/

/-- A turn of the loop of `Lookup` keeps a route that is valid. -/
theorem lookupStep_some {dst : Ipv4Address} {interface : Option ℕ} {acc : Option Ipv4Route × ℕ}
    {route : Ipv4Route} (h : (lookupStep c dst interface acc r).1 = some route) :
    acc.1 = some route ∨ (r.m_status = .valid ∧ IsMatch r.destNetworkMask dst r.destNetwork ∧
      route.gateway = r.gateway ∧ route.outputInterface = r.interface) := by
  unfold lookupStep at h
  dsimp only at h
  by_cases hvalid : r.m_status = .valid
  · rw [if_pos hvalid] at h
    split at h
    · rename_i hmatch
      right
      rw [← Option.some.inj h]
      exact ⟨hvalid, hmatch.1, rfl, rfl⟩
    · exact .inl h
  · rw [if_neg hvalid] at h
    exact .inl h

/-- **`Lookup` finds a valid route**, unless the destination is a local group. -/
theorem lookup_some {dst : Ipv4Address} {interface : Option ℕ} {route : Ipv4Route}
    (h : lookup c s dst interface = some (some route)) : IsLocalMulticast dst ∨
      ∃ r ∈ s.m_routes, r.m_status = .valid ∧ IsMatch r.destNetworkMask dst r.destNetwork ∧
        route.gateway = r.gateway ∧ route.outputInterface = r.interface := by
  have key : ∀ (routes : List Route) (acc : Option Ipv4Route × ℕ),
      (routes.foldl (lookupStep c dst interface) acc).1 = some route → acc.1 = some route ∨
        ∃ r ∈ routes, r.m_status = .valid ∧ IsMatch r.destNetworkMask dst r.destNetwork ∧
          route.gateway = r.gateway ∧ route.outputInterface = r.interface := by
    intro routes
    induction routes with
    | nil =>
      intro acc h
      exact .inl h
    | cons r routes ih =>
      intro acc h
      rcases ih _ h with h | ⟨x, hx, hrest⟩
      · rcases lookupStep_some h with h | h
        · exact .inl h
        · exact .inr ⟨r, List.mem_cons_self, h⟩
      · exact .inr ⟨x, List.mem_cons_of_mem r hx, hrest⟩
  unfold lookup at h
  split_ifs at h with hlocal
  · exact .inl hlocal
  · right
    rcases key s.m_routes (none, 0) (Option.some.inj h) with h | h
    · cases h
    · exact h

theorem Inv.sound_state (h : Inv c s) (hd : Distinct Route.Learned s.m_routes) : Sound c s := by
  have htimer : ∀ r ∈ s.m_routes, ∀ id ∈ r.event,
      (⟨id.uid, id.ts, kindOf r.m_status, r.id⟩ : Event) ∈ s.sim.pending := by
    intro r hr id hid
    exact h.owned.mem_iff.mpr ⟨r, hr, Route.pending_eq_some hid⟩
  refine ⟨hd, fun r hr ↦ (h.sound r hr).valid, fun r hr ↦ (h.sound r hr).invalid, ?_, ?_, h.running,
    ?_, ?_⟩
  · intro r hr hlearned
    obtain ⟨id, hid⟩ := Option.isSome_iff_exists.mp ((h.sound r hr).learned_iff.mp hlearned)
    have hfilter := h.owned.filter_eq (p := fun e ↦ decide (e.route = r.id)) (htimer r hr id hid) ?_
    · rw [hfilter]
      rfl
    · intro e he
      rw [decide_eq_true_iff]
      constructor
      · intro heid
        obtain ⟨r', hr', hpending⟩ := h.owned.mem_iff.mp he
        obtain ⟨id', hid', rfl⟩ := Option.map_eq_some_iff.mp hpending
        -- routes have different addresses
        obtain rfl := List.inj_on_of_nodup_map h.ids hr' hr heid
        rw [hid, Option.some_inj] at hid'
        rw [hid']
      · rintro rfl
        rfl
  · intro e he
    obtain ⟨r, hr, hpending⟩ := h.owned.mem_iff.mp he
    obtain ⟨id, -, rfl⟩ := Option.map_eq_some_iff.mp hpending
    exact ⟨r, hr, rfl⟩
  · intro r hr hst
    have hsound := h.sound r hr
    cases hev : r.event with
    | none =>
      rw [(hsound.timed hev).1] at hst
      cases hst
    | some id =>
      have hnow := h.due _ (htimer r hr id hev)
      exact hnow.trans (hsound.prompt hst id hev)
  · intro dst interface route hlookup
    rcases lookup_some hlookup with hlocal | ⟨r, hr, hst, hrest⟩
    · exact .inl hlocal
    · exact .inr ⟨r, hr, hst, (h.sound r hr).valid hst, hrest⟩

end State

namespace Node

variable {c : Config} {s s' : Node} {o : Op}

/-- **A step from a matching table.** -/
theorem step_inv (h : State.Inv c s.rip ∧ State.Distinct Route.Learned s.rip.m_routes)
    (hfit : c.m_linkDown < 256) (hclear : s.Clear c o) (hs : step c s o = some s') :
    State.Inv c s'.rip ∧ State.Distinct Route.Learned s'.rip.m_routes := by
  cases o with
  | receive t m =>
    simp only [step] at hs
    split_ifs at hs with hidle
    · rw [← Option.some.inj hs]
      exact ⟨h.1.advance hidle.2.2, h.2⟩
    · rw [← Option.some.inj hs]
      exact ⟨h.1.advance hidle.2.2, h.2⟩
  | entry =>
    simp only [step] at hs
    split at hs
    · cases hs
    · rename_i m changed hcurrent
      split at hs
      · rw [← Option.some.inj hs, State.finish]
        split
        · exact ⟨{ h.1 with }, h.2⟩
        · exact h
      · rename_i rte rest hrtes
        rw [← Option.some.inj hs]
        have hrte := hclear (m, changed) hcurrent rte (by rw [hrtes]; rfl)
        exact h.1.handleRte h.2 hrte hfit changed
  | fire uid =>
    simp only [step] at hs
    split at hs
    · cases hs
    · rename_i e hfind
      split_ifs at hs with hidle
      rw [← Option.some.inj hs]
      exact h.1.fire h.2 hfit (List.mem_of_find?_eq_some hfind) hidle.2.2

/-- **RIP sends over routes that can be reached, and its timers match its table**, in every run in which
no entry keeps an unreachable route or leaves two learned routes for its network. -/
theorem sound_of_run (hfit : c.m_linkDown < 256) (hlink : c.networkRoutes ≠ [] → 1 < c.m_linkDown)
    {ops : List Op} (hr : (machine c).Run (Clear c) ops s) : State.Sound c s.rip := by
  have hinv := hr.invariant
    (I := fun s ↦ State.Inv c s.rip ∧ State.Distinct Route.Learned s.rip.m_routes) ?_ ?_
  · exact hinv.1.sound_state hinv.2
  · obtain ⟨hcreate, hnone⟩ := State.inv_create hlink
    refine ⟨hcreate, List.pairwise_of_forall_mem_list ?_⟩
    intro r hmem r' _ hlearned
    exact absurd hlearned (hnone r hmem)
  · intro s o s' h hclear hs
    exact step_inv h hfit hclear hs

/-- The defaults of the program, with one interface of which the network is configured. -/
def sampleConfig : Config where
  m_linkDown := 16
  m_timeoutDelay := 180
  m_garbageCollectionDelay := 120
  m_interfaceExclusions := []
  m_interfaceMetrics := fun _ ↦ none
  networkRoutes := [⟨0x0a000000, 0xffffff00, 0, 1⟩]
  sourceAddressSelection := fun _ _ ↦ 0x0a000001

/-- A Response with one entry is received and handled. -/
def advertised (t : ℕ) (senderAddress : Ipv4Address) (metric : ℕ) : List Op :=
  [.receive t ⟨senderAddress, 1, [⟨0, 0x0a010000, 0xffffff00, metric⟩]⟩, .entry, .entry]

/-- A route is learned, refreshed, found again over another neighbour, given up by it, and deleted. -/
def sampleOps : List Op :=
  advertised 0 0x0a000002 2 ++ advertised 30 0x0a000002 2 ++ advertised 60 0x0a000003 1 ++
    advertised 90 0x0a000003 16 ++ [.fire 3]

theorem sound_of_run_sample : ∃ s, (machine sampleConfig).Run (Clear sampleConfig) sampleOps s ∧
    s.rip.m_routes.length = 1 ∧ State.Sound sampleConfig s.rip := by
  refine Machine.exists_run_and_allowed (p := fun s : Node ↦ s.rip.m_routes.length = 1)
    (by decide +kernel) (by decide +kernel) fun s hr hlength ↦ ?_
  exact ⟨hlength, sound_of_run (by decide) (fun _ ↦ by decide) hr⟩

/-- A route is learned, and poisoned twice by the neighbour that it goes over. -/
def poisonOps : List Op :=
  advertised 0 0x0a000002 1 ++ advertised 30 0x0a000002 16 ++ advertised 60 0x0a000002 16

/-- **A route that is poisoned twice** by the neighbour it goes over: what is left is a route that is
invalid, and an event that invalidates it. -/
theorem not_sound_repeatedPoison : ∃ s,
    (machine sampleConfig).Run Machine.unguarded poisonOps s ∧ ¬ State.Sound sampleConfig s.rip := by
  refine Machine.exists_run_and
    (p := fun s : Node ↦ ∃ r ∈ s.rip.m_routes, r.Learned ∧
      (s.rip.sim.pending.filter (·.route = r.id)).map Event.kind ≠ [kindOf r.m_status])
    (by decide +kernel) fun s hr ⟨r, hmem, hlearned, hkind⟩ ↦ ?_
  exact fun h ↦ hkind (h.timer r hmem hlearned)

end Node

end Rip

end Ns3
