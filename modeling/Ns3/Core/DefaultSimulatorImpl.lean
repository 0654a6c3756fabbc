import Mathlib
import Ns3.Core.Scheduler

/-!
# The default simulator

`DefaultSimulatorImpl` gives every scheduled event the next value of the 32-bit counter `m_uid` and
the absolute time it is due, and invokes the events in the order of these keys. Cancelling an event
only sets a flag of its `EventImpl`, removing it takes it out of the scheduler, and whether an event
has expired is read off its key: it has, if its key is not after the key of the current event.

The scheduler is abstract: a multiset of pending events whose `RemoveNext` may return any event with
the smallest key. It remembers what was inserted, so that a run can be compared with the history of
its scheduling. A handler is whatever happens between `beginEvent`, which is `ProcessOneEvent` up to
`Invoke`, and `endEvent`, which is the rest of it; other threads may queue events at any time.

## What is counted in machine integers

Unique ids are handed out from a 32-bit counter that wraps, `m_unscheduledEvents` is an `int`, and
times are `int64_t` offsets added without a check. `NoOverflow` collects the steps at which none of
these overflows. The results hold in every run of such steps; `not_correct_wrapOps` is a run past
the wrap of the counter, in which a pending event takes the unique id reserved for destroy events.
-/

namespace Ns3

/-! ## Event ids and event implementations -/

/-- `EventId`; the null pointer is address `0`. -/
structure EventId where
  m_eventImpl : ℕ
  m_ts : UInt64
  m_context : UInt32
  m_uid : UInt32
  deriving DecidableEq, Repr

/-- `EventId ()`. -/
def EventId.null : EventId := ⟨0, 0, 0, 0⟩

/-- The id that `Schedule` returns for an event. -/
def Event.id (ev : Event) : EventId := ⟨ev.impl, ev.key.m_ts, ev.key.m_context, ev.key.m_uid⟩

/-- The `EventImpl` objects: the flag `m_cancel` of each, and the address of the next one. -/
structure EventImpls where
  m_cancel : ℕ → Bool
  /-- No object has been created at this address or above it. -/
  next : ℕ

namespace EventImpls

/-- `MakeEvent`. -/
def make (h : EventImpls) : ℕ × EventImpls := (h.next, { h with next := h.next + 1 })

/-- `EventImpl::Cancel`. -/
def cancel (h : EventImpls) (event : ℕ) : EventImpls :=
  { h with m_cancel := fun i ↦ if i = event then true else h.m_cancel i }

end EventImpls

/-- A scheduler that returns an event with the smallest key, with the history of its insertions. -/
structure EventSet where
  /-- The events inserted and not taken out since. -/
  pending : Multiset Event
  /-- The events inserted so far, in the order of their insertion. -/
  inserted : List Event

namespace EventSet

def insert (m : EventSet) (ev : Event) : EventSet := ⟨ev ::ₘ m.pending, m.inserted ++ [ev]⟩

/-- `Remove`, and `RemoveNext` when it returns `ev`. -/
def remove (m : EventSet) (ev : Event) : EventSet := { m with pending := m.pending.erase ev }

end EventSet

/-! ## The simulator -/

/-- `DefaultSimulatorImpl::EventWithContext`. -/
structure EventWithContext where
  context : UInt32
  /-- Event time stamp, relative to the time at which it is moved to the scheduler. -/
  timestamp : UInt64
  event : ℕ
  deriving DecidableEq, Repr

/-- `DefaultSimulatorImpl`. -/
structure DefaultSimulatorImpl where
  m_eventsWithContext : List EventWithContext
  /-- All of them have been moved to the scheduler. -/
  m_eventsWithContextEmpty : Bool
  /-- The events to run at `Simulator::Destroy`. -/
  m_destroyEvents : List EventId
  m_events : EventSet
  m_uid : UInt32
  m_currentUid : UInt32
  m_currentTs : UInt64
  m_currentContext : UInt32
  m_eventCount : UInt64
  /-- Number of events that have been inserted but not yet scheduled. -/
  m_unscheduledEvents : Int32

namespace DefaultSimulatorImpl

/-- The constructor. Unique ids are allocated from `4`: `0` is for invalid events, `1` for "now"
events, `2` for "destroy" events. -/
def create : DefaultSimulatorImpl where
  m_eventsWithContext := []
  m_eventsWithContextEmpty := true
  m_destroyEvents := []
  m_events := ⟨0, []⟩
  m_uid := 4
  m_currentUid := 0
  m_currentTs := 0
  m_currentContext := 0xffffffff
  m_eventCount := 0
  m_unscheduledEvents := 0

/-- What every way of scheduling does with an event that is due at `ts`. -/
def insertNext (s : DefaultSimulatorImpl) (ts : UInt64) (context : UInt32) (event : ℕ) :
    EventId × DefaultSimulatorImpl :=
  let ev : Event := ⟨event, ts, s.m_uid, context⟩
  (ev.id, { s with
    m_uid := s.m_uid + 1
    m_unscheduledEvents := s.m_unscheduledEvents + 1
    m_events := s.m_events.insert ev })

def schedule (s : DefaultSimulatorImpl) (delay : UInt64) (event : ℕ) :
    EventId × DefaultSimulatorImpl :=
  s.insertNext (delay + s.m_currentTs) s.m_currentContext event

def scheduleNow (s : DefaultSimulatorImpl) (event : ℕ) : EventId × DefaultSimulatorImpl :=
  s.insertNext s.m_currentTs s.m_currentContext event

/-- `ScheduleWithContext`, called from the main thread. -/
def scheduleWithContext (s : DefaultSimulatorImpl) (context : UInt32) (delay : UInt64)
    (event : ℕ) : DefaultSimulatorImpl :=
  (s.insertNext (delay + s.m_currentTs) context event).2

/-- `ScheduleWithContext`, called from another thread. -/
def scheduleFromThread (s : DefaultSimulatorImpl) (context : UInt32) (delay : UInt64)
    (event : ℕ) : DefaultSimulatorImpl :=
  { s with
    m_eventsWithContext := s.m_eventsWithContext ++ [⟨context, delay, event⟩]
    m_eventsWithContextEmpty := false }

def scheduleDestroy (s : DefaultSimulatorImpl) (event : ℕ) : EventId × DefaultSimulatorImpl :=
  let id : EventId := ⟨event, s.m_currentTs, 0xffffffff, 2⟩
  (id, { s with m_destroyEvents := s.m_destroyEvents ++ [id], m_uid := s.m_uid + 1 })

/-- Move one event of another thread to the scheduler. -/
def insertWithContext (s : DefaultSimulatorImpl) (event : EventWithContext) :
    DefaultSimulatorImpl :=
  (s.insertNext (s.m_currentTs + event.timestamp) event.context event.event).2

def processEventsWithContext (s : DefaultSimulatorImpl) : DefaultSimulatorImpl :=
  if s.m_eventsWithContextEmpty then s
  else s.m_eventsWithContext.foldl insertWithContext
    { s with m_eventsWithContext := [], m_eventsWithContextEmpty := true }

def isExpired (s : DefaultSimulatorImpl) (impls : EventImpls) (id : EventId) : Bool :=
  if id.m_uid = 2 then
    if id.m_eventImpl = 0 ∨ impls.m_cancel id.m_eventImpl then true
    else if id ∈ s.m_destroyEvents then false
    else true
  else if id.m_eventImpl = 0 ∨ id.m_ts < s.m_currentTs ∨
      (id.m_ts = s.m_currentTs ∧ id.m_uid ≤ s.m_currentUid) ∨ impls.m_cancel id.m_eventImpl then
    true
  else false

/-- `Cancel`, which changes the event implementation only. -/
def cancel (s : DefaultSimulatorImpl) (impls : EventImpls) (id : EventId) : EventImpls :=
  if s.isExpired impls id then impls else impls.cancel id.m_eventImpl

def remove (s : DefaultSimulatorImpl) (impls : EventImpls) (id : EventId) :
    DefaultSimulatorImpl × EventImpls :=
  if id.m_uid = 2 then ({ s with m_destroyEvents := s.m_destroyEvents.erase id }, impls)
  else if s.isExpired impls id then (s, impls)
  else
    let event : Event := ⟨id.m_eventImpl, id.m_ts, id.m_uid, id.m_context⟩
    ({ s with
      m_events := s.m_events.remove event
      m_unscheduledEvents := s.m_unscheduledEvents - 1 }, impls.cancel id.m_eventImpl)

/-- `ProcessOneEvent` up to the call of `Invoke`, when the scheduler returns `next`. -/
def beginEvent (s : DefaultSimulatorImpl) (next : Event) : DefaultSimulatorImpl :=
  { s with
    m_events := s.m_events.remove next
    m_unscheduledEvents := s.m_unscheduledEvents - 1
    m_eventCount := s.m_eventCount + 1
    m_currentTs := next.key.m_ts
    m_currentContext := next.key.m_context
    m_currentUid := next.key.m_uid }

end DefaultSimulatorImpl

/-! ## Runs -/

/-- What a program that uses the simulator can do. -/
inductive SimulatorOp
  | schedule (delay : UInt64)
  | scheduleNow
  | scheduleWithContext (context : UInt32) (delay : UInt64)
  /-- `ScheduleWithContext` from another thread. -/
  | scheduleFromThread (context : UInt32) (delay : UInt64)
  | scheduleDestroy
  | cancel (id : EventId)
  | remove (id : EventId)
  /-- `Run` is entered. -/
  | enterRun
  /-- `ProcessOneEvent` begins; the scheduler returns `next`. -/
  | beginEvent (next : Event)
  /-- The handler returns and `ProcessOneEvent` ends. -/
  | endEvent
  deriving DecidableEq, Repr

/-- A simulator with the program's event implementations and ids, and the history of its run. -/
structure Simulation where
  sim : DefaultSimulatorImpl
  impls : EventImpls
  /-- The ids handed out so far. -/
  ids : List EventId
  /-- A handler is running. -/
  running : Bool
  /-- The events whose handlers were called, in that order. -/
  invoked : List Event
  /-- The events on which `Cancel` or `Remove` was called before their turn. -/
  cancelled : List ℕ

namespace Simulation

/-- The events that have been scheduled, in that order. -/
def scheduled (s : Simulation) : List Event := s.sim.m_events.inserted

/-- The events that are waiting for their turn. -/
def pending (s : Simulation) : Multiset Event := s.sim.m_events.pending

/-- Record a call of `Cancel` or `Remove`. -/
def recordCancel (s : Simulation) (id : EventId) : List ℕ :=
  if id.m_eventImpl ∈ s.pending.map Event.impl then id.m_eventImpl :: s.cancelled
  else s.cancelled

/-- The runs of the simulator. `Schedule` asserts that its delay is not negative, ids come from the
simulator or are null, and events are processed one at a time. -/
def machine : Machine Simulation SimulatorOp where
  init := ⟨.create, ⟨fun _ ↦ false, 1⟩, [], false, [], []⟩
  next s
    | .schedule delay =>
      if delay.toNat < 2 ^ 63 then
        let (event, impls) := s.impls.make
        let (id, sim) := s.sim.schedule delay event
        some { s with sim := sim, impls := impls, ids := id :: s.ids }
      else none
    | .scheduleNow =>
      let (event, impls) := s.impls.make
      let (id, sim) := s.sim.scheduleNow event
      some { s with sim := sim, impls := impls, ids := id :: s.ids }
    | .scheduleWithContext context delay =>
      let (event, impls) := s.impls.make
      some { s with sim := s.sim.scheduleWithContext context delay event, impls := impls }
    | .scheduleFromThread context delay =>
      let (event, impls) := s.impls.make
      some { s with sim := s.sim.scheduleFromThread context delay event, impls := impls }
    | .scheduleDestroy =>
      let (event, impls) := s.impls.make
      let (id, sim) := s.sim.scheduleDestroy event
      some { s with sim := sim, impls := impls, ids := id :: s.ids }
    | .cancel id =>
      if id ∈ s.ids ∨ id = .null then
        some { s with impls := s.sim.cancel s.impls id, cancelled := s.recordCancel id }
      else none
    | .remove id =>
      if id ∈ s.ids ∨ id = .null then
        let (sim, impls) := s.sim.remove s.impls id
        some { s with sim := sim, impls := impls, cancelled := s.recordCancel id }
      else none
    | .enterRun =>
      if s.running then none else some { s with sim := s.sim.processEventsWithContext }
    | .beginEvent next =>
      if s.running = false ∧ IsNext s.pending next then
        some { s with
          sim := s.sim.beginEvent next
          running := true
          invoked := if s.impls.m_cancel next.impl then s.invoked else s.invoked ++ [next] }
      else none
    | .endEvent =>
      if s.running then some { s with sim := s.sim.processEventsWithContext, running := false }
      else none

/-! ## The invariant -/

/-- The key of the current event. -/
def currentKey (s : Simulation) : EventKey :=
  ⟨s.sim.m_currentTs, s.sim.m_currentUid, s.sim.m_currentContext⟩

/-- The event implementations in use, when `queue` has yet to be moved to the scheduler. -/
def used (s : Simulation) (queue : List EventWithContext) : List ℕ :=
  s.scheduled.map Event.impl ++ queue.map EventWithContext.event

/-- **The invariant of a simulation**, when the events of `queue` have yet to be moved to the
scheduler. -/
structure Inv (s : Simulation) (queue : List EventWithContext) : Prop where
  /-- Unique ids increase in the order of scheduling. -/
  uids : s.scheduled.Pairwise fun a b ↦ a.key.m_uid.toNat < b.key.m_uid.toNat
  /-- Those in use are below the counter and above the reserved ones. -/
  uid_range : ∀ e ∈ s.scheduled, 4 ≤ e.key.m_uid.toNat ∧ e.key.m_uid.toNat < s.sim.m_uid.toNat
  uid_ge : 4 ≤ s.sim.m_uid.toNat
  current_lt : s.sim.m_currentUid.toNat < s.sim.m_uid.toNat
  /-- Every event has an implementation of its own. -/
  nodup : (s.used queue).Nodup
  used_range : ∀ i ∈ s.used queue, 0 < i ∧ i < s.impls.next
  next_pos : 0 < s.impls.next
  /-- Pending events have been scheduled and are after the current one. -/
  pending_nodup : s.pending.Nodup
  pending_sub : ∀ e ∈ s.pending, e ∈ s.scheduled
  ahead : ∀ e ∈ s.pending, s.currentKey.sortKey < e.key.sortKey
  /-- Invoked events have been scheduled, were not cancelled, and are not after the current one. -/
  invoked_sub : ∀ e ∈ s.invoked, e ∈ s.scheduled
  invoked_le : ∀ e ∈ s.invoked, e.key.sortKey ≤ s.currentKey.sortKey
  invoked_not : ∀ e ∈ s.invoked, e.impl ∉ s.cancelled
  invoked_sorted : s.invoked.Pairwise fun a b ↦ a.key.sortKey < b.key.sortKey
  /-- Every event is accounted for. -/
  accounted : ∀ e ∈ s.scheduled, e ∈ s.pending ∨ e ∈ s.invoked ∨ e.impl ∈ s.cancelled
  /-- The flags of the event implementations say which events were cancelled. -/
  flags : ∀ e ∈ s.scheduled, s.impls.m_cancel e.impl = true ↔ e.impl ∈ s.cancelled
  fresh : ∀ i, s.impls.next ≤ i ∨ i ∈ queue.map EventWithContext.event → s.impls.m_cancel i = false
  cancelled_sub : ∀ i ∈ s.cancelled, i ∈ s.scheduled.map Event.impl
  /-- An id is that of a scheduled event, or of a destroy event. -/
  ids : ∀ id ∈ s.ids, (∃ e ∈ s.scheduled, id = e.id) ∨
    id.m_uid = 2 ∧ id.m_eventImpl < s.impls.next ∧ id.m_eventImpl ∉ s.used queue
  count : s.sim.m_unscheduledEvents.toInt = s.pending.card
  card_lt : s.pending.card < 2 ^ 31

/-- An event implementation that has been created and not been used yet. -/
structure Unused (s : Simulation) (queue : List EventWithContext) (event : ℕ) : Prop where
  range : 0 < event ∧ event < s.impls.next
  notMem : event ∉ s.used queue
  flag : s.impls.m_cancel event = false
  ids : ∀ id ∈ s.ids, id.m_eventImpl ≠ event

variable {s : Simulation} {queue : List EventWithContext} {e : Event} {event : ℕ}

private theorem toInt_add_one {a : Int32} {n : ℕ} (h : a.toInt = n) (hn : n + 1 < 2 ^ 31) :
    (a + 1).toInt = (n + 1 : ℕ) := by
  rw [Int32.toInt_add, h, Int32.toInt_one, Int.bmod_eq_of_le (by omega) (by omega)]
  rfl

private theorem toInt_sub_one {a : Int32} {n : ℕ} (h : a.toInt = n) (hn : 0 < n) (hlt : n < 2 ^ 31) :
    (a - 1).toInt = (n - 1 : ℕ) := by
  rw [Int32.toInt_sub, h, Int32.toInt_one, Int.bmod_eq_of_le (by omega) (by omega)]
  omega

theorem Inv.eq_of_impl_eq (h : Inv s queue) {f : Event} (he : e ∈ s.scheduled)
    (hf : f ∈ s.scheduled) (himpl : e.impl = f.impl) : e = f :=
  List.inj_on_of_nodup_map (List.nodup_append.mp h.nodup).1 he hf himpl

theorem Inv.not_invoked_of_pending (h : Inv s queue) (he : e ∈ s.pending) : e ∉ s.invoked :=
  fun hi ↦ absurd (h.ahead e he) (not_lt.mpr (h.invoked_le e hi))

theorem Inv.make (h : Inv s queue) :
    Inv { s with impls := s.impls.make.2 } queue ∧
      Unused { s with impls := s.impls.make.2 } queue s.impls.make.1 := by
  have hnext : s.impls.make.2.next = s.impls.next + 1 := rfl
  constructor
  · exact { h with
      used_range := fun i hi ↦ ⟨(h.used_range i hi).1, Nat.lt_succ_of_lt (h.used_range i hi).2⟩
      next_pos := Nat.succ_pos _
      fresh := fun i hi ↦ h.fresh i (hi.imp_left fun hle ↦ (Nat.le_succ _).trans hle)
      ids := fun id hid ↦ (h.ids id hid).imp_right fun ⟨h1, h2, h3⟩ ↦
        ⟨h1, Nat.lt_succ_of_lt h2, h3⟩ }
  · refine ⟨⟨h.next_pos, Nat.lt_succ_self _⟩, fun hmem ↦ ?_, h.fresh _ (.inl le_rfl),
      fun id hid heq ↦ ?_⟩
    · exact absurd (h.used_range _ hmem).2 (lt_irrefl _)
    · have hlt : id.m_eventImpl < s.impls.next := by
        rcases h.ids id hid with ⟨e, he, rfl⟩ | ⟨-, hlt, -⟩
        · exact (h.used_range e.impl (List.mem_append_left _ (List.mem_map_of_mem he))).2
        · exact hlt
      exact absurd (heq ▸ hlt) (lt_irrefl _)

theorem Inv.insertNext (h : Inv s queue) (hu : Unused s queue event) {ts : UInt64}
    (hts : s.sim.m_currentTs ≤ ts) (huid : s.sim.m_uid.toNat + 1 < 2 ^ 32)
    (hcard : s.pending.card + 1 < 2 ^ 31) (context : UInt32) :
    Inv { s with sim := (s.sim.insertNext ts context event).2 } queue := by
  set ev : Event := ⟨event, ts, s.sim.m_uid, context⟩ with hev
  set t : Simulation := { s with sim := (s.sim.insertNext ts context event).2 } with ht
  have hsched : t.scheduled = s.scheduled ++ [ev] := rfl
  have hpend : t.pending = ev ::ₘ s.pending := rfl
  have hnext : t.sim.m_uid.toNat = s.sim.m_uid.toNat + 1 := by
    change (s.sim.m_uid + 1).toNat = _
    rw [UInt32.toNat_add, UInt32.toNat_one, Nat.mod_eq_of_lt huid]
  have hnew : ev ∉ s.scheduled := fun hmem ↦
    hu.notMem (List.mem_append_left _ (List.mem_map_of_mem hmem))
  have hcancel : event ∉ s.cancelled := fun hmem ↦
    hu.notMem (List.mem_append_left _ (h.cancelled_sub _ hmem))
  have hused : ∀ i, i ∈ t.used queue ↔ i ∈ s.used queue ∨ i = event := by
    intro i
    simp only [used, hsched, List.map_append, List.map_singleton, List.mem_append,
      List.mem_singleton, hev]
    tauto
  refine
    { uids := ?_, uid_range := ?_, uid_ge := ?_, current_lt := ?_, nodup := ?_, used_range := ?_
      next_pos := h.next_pos, pending_nodup := ?_, pending_sub := ?_, ahead := ?_
      invoked_sub := fun e he ↦ List.mem_append_left _ (h.invoked_sub e he)
      invoked_le := h.invoked_le, invoked_not := h.invoked_not
      invoked_sorted := h.invoked_sorted, accounted := ?_, flags := ?_, fresh := h.fresh
      cancelled_sub := ?_, ids := ?_, count := ?_
      card_lt := by rw [hpend, Multiset.card_cons]; exact hcard }
  · rw [hsched, List.pairwise_append]
    refine ⟨h.uids, List.pairwise_singleton _ _, fun a ha b hb ↦ ?_⟩
    rw [List.mem_singleton.mp hb]
    exact (h.uid_range a ha).2
  · intro e he
    rw [hsched, List.mem_append, List.mem_singleton] at he
    rcases he with he | rfl
    · have := h.uid_range e he
      omega
    · exact ⟨h.uid_ge, by rw [hnext]; exact Nat.lt_succ_self _⟩
  · have := h.uid_ge
    omega
  · have := h.current_lt
    change s.sim.m_currentUid.toNat < _
    omega
  · have hperm : (t.used queue).Perm (event :: s.used queue) := by
      rw [used, used, hsched, List.map_append, List.append_assoc, List.map_singleton]
      exact List.perm_middle
    rw [hperm.nodup_iff, List.nodup_cons]
    exact ⟨hu.notMem, h.nodup⟩
  · intro i hi
    rcases (hused i).mp hi with hi | rfl
    · exact h.used_range i hi
    · exact hu.range
  · rw [hpend, Multiset.nodup_cons]
    exact ⟨fun hmem ↦ hnew (h.pending_sub _ hmem), h.pending_nodup⟩
  · intro e he
    rw [hsched, List.mem_append, List.mem_singleton]
    exact (Multiset.mem_cons.mp he).symm.imp_left (h.pending_sub e)
  · intro e he
    rcases Multiset.mem_cons.mp he with rfl | he
    · rw [EventKey.sortKey_lt_iff]
      rcases (UInt64.le_iff_toNat_le.mp hts).lt_or_eq with hlt | heq
      · exact .inl hlt
      · exact .inr ⟨heq, h.current_lt⟩
    · exact h.ahead e he
  · intro e he
    rw [hsched, List.mem_append, List.mem_singleton] at he
    rcases he with he | rfl
    · exact (h.accounted e he).imp_left (Multiset.mem_cons_of_mem)
    · exact .inl (Multiset.mem_cons_self _ _)
  · intro e he
    rw [hsched, List.mem_append, List.mem_singleton] at he
    rcases he with he | rfl
    · exact h.flags e he
    · exact ⟨fun hf ↦ absurd (hu.flag.symm.trans hf) Bool.false_ne_true, fun hc ↦
        absurd hc hcancel⟩
  · intro i hi
    rw [hsched, List.map_append]
    exact List.mem_append_left _ (h.cancelled_sub i hi)
  · intro id hid
    rcases h.ids id hid with ⟨e, he, rfl⟩ | ⟨h1, h2, h3⟩
    · exact .inl ⟨e, List.mem_append_left _ he, rfl⟩
    · exact .inr ⟨h1, h2, fun hmem ↦ ((hused _).mp hmem).elim h3 (hu.ids id hid)⟩
  · rw [hpend, Multiset.card_cons]
    exact toInt_add_one h.count hcard

theorem Inv.cons_id (h : Inv s queue) {id : EventId}
    (hid : (∃ e ∈ s.scheduled, id = e.id) ∨
      id.m_uid = 2 ∧ id.m_eventImpl < s.impls.next ∧ id.m_eventImpl ∉ s.used queue) :
    Inv { s with ids := id :: s.ids } queue :=
  { h with
    ids := fun id' hid' ↦ by
      rcases List.mem_cons.mp hid' with rfl | hid'
      · exact hid
      · exact h.ids id' hid' }

/-! ### Moving events from other threads -/

theorem Inv.push (h : Inv s queue) (hu : Unused s queue event) (context : UInt32)
    (delay : UInt64) :
    Inv { s with sim := s.sim.scheduleFromThread context delay event }
      (queue ++ [⟨context, delay, event⟩]) := by
  have hused : ∀ i, i ∈ s.used (queue ++ [⟨context, delay, event⟩]) ↔
      i ∈ s.used queue ∨ i = event := by
    intro i
    simp only [used, List.map_append, List.map_singleton, List.mem_append, List.mem_singleton]
    tauto
  exact { h with
    nodup := by
      change (s.used _).Nodup
      rw [used, List.map_append, ← List.append_assoc, List.map_singleton, ← used,
        List.nodup_append]
      refine ⟨h.nodup, List.nodup_singleton _, fun a ha b hb hab ↦ hu.notMem ?_⟩
      rwa [hab, List.mem_singleton.mp hb] at ha
    used_range := fun i hi ↦ by
      rcases (hused i).mp hi with hi | rfl
      · exact h.used_range i hi
      · exact hu.range
    fresh := fun i hi ↦ by
      rw [List.map_append, List.map_singleton, List.mem_append, List.mem_singleton,
        ← or_assoc] at hi
      rcases hi with hi | rfl
      · exact h.fresh i hi
      · exact hu.flag
    ids := fun id hid ↦ by
      rcases h.ids id hid with he | ⟨h1, h2, h3⟩
      · exact .inl he
      · exact .inr ⟨h1, h2, fun hmem ↦ ((hused _).mp hmem).elim h3 (hu.ids id hid)⟩ }

theorem Inv.pop {ev : EventWithContext} (h : Inv s (ev :: queue)) :
    Inv s queue ∧ Unused s queue ev.event := by
  have hperm : (s.used (ev :: queue)).Perm (ev.event :: s.used queue) := by
    rw [used, List.map_cons]
    exact List.perm_middle
  have hnodup := List.nodup_cons.mp (hperm.nodup_iff.mp h.nodup)
  have hmem : ∀ i ∈ s.used queue, i ∈ s.used (ev :: queue) := fun i hi ↦
    hperm.mem_iff.mpr (List.mem_cons_of_mem _ hi)
  have hself : ev.event ∈ s.used (ev :: queue) := hperm.mem_iff.mpr List.mem_cons_self
  constructor
  · exact { h with
      nodup := hnodup.2
      used_range := fun i hi ↦ h.used_range i (hmem i hi)
      fresh := fun i hi ↦ h.fresh i (hi.imp_right (List.mem_cons_of_mem _))
      ids := fun id hid ↦ (h.ids id hid).imp_right fun ⟨h1, h2, h3⟩ ↦
        ⟨h1, h2, fun hi ↦ h3 (hmem _ hi)⟩ }
  · refine ⟨h.used_range _ hself, hnodup.1, h.fresh _ (.inr List.mem_cons_self),
      fun id hid heq ↦ ?_⟩
    rcases h.ids id hid with ⟨e, he, rfl⟩ | ⟨-, -, h3⟩
    · -- the implementation of a scheduled event is not queued
      refine hnodup.1 (List.mem_append_left _ ?_)
      rw [← heq]
      exact List.mem_map_of_mem he
    · exact h3 (heq ▸ hself)

/-- What must not overflow when the events of `queue` are moved to the scheduler. -/
def CanMove (s : Simulation) (queue : List EventWithContext) : Prop :=
  s.sim.m_uid.toNat + queue.length < 2 ^ 32 ∧ s.pending.card + queue.length < 2 ^ 31 ∧
    ∀ ev ∈ queue, s.sim.m_currentTs.toNat + ev.timestamp.toNat < 2 ^ 63

instance : Decidable (CanMove s queue) :=
  inferInstanceAs (Decidable (_ ∧ _ ∧ ∀ ev ∈ queue, _))

theorem le_add_of_toNat {a b : UInt64} (h : a.toNat + b.toNat < 2 ^ 63) : a ≤ a + b := by
  rw [UInt64.le_iff_toNat_le, UInt64.toNat_add, Nat.mod_eq_of_lt (by omega)]
  exact Nat.le_add_right _ _

theorem Inv.foldl_insertWithContext (h : Inv s queue) (hq : CanMove s queue) :
    Inv { s with sim := queue.foldl DefaultSimulatorImpl.insertWithContext s.sim } [] := by
  induction queue generalizing s with
  | nil => exact h
  | cons ev queue ih =>
    obtain ⟨huid, hcard, hts⟩ := hq
    rw [List.length_cons] at huid hcard
    obtain ⟨hpop, hunused⟩ := h.pop
    have hstep := hpop.insertNext hunused (le_add_of_toNat (hts ev List.mem_cons_self))
      (by omega) (by omega) ev.context
    refine ih hstep ⟨?_, ?_, fun ev' hev' ↦ hts ev' (List.mem_cons_of_mem _ hev')⟩
    · change (s.sim.m_uid + 1).toNat + _ < _
      rw [UInt32.toNat_add, UInt32.toNat_one, Nat.mod_eq_of_lt (by omega)]
      omega
    · change (_ ::ₘ s.pending).card + _ < _
      rw [Multiset.card_cons]
      omega

/-- The flag `m_eventsWithContextEmpty` is not set while there are events to be moved. -/
def QueueFlag (s : Simulation) : Prop :=
  s.sim.m_eventsWithContextEmpty = true → s.sim.m_eventsWithContext = []

theorem foldl_insertWithContext_frame (queue : List EventWithContext)
    (sim : DefaultSimulatorImpl) :
    (queue.foldl DefaultSimulatorImpl.insertWithContext sim).m_eventsWithContext =
        sim.m_eventsWithContext ∧
      (queue.foldl DefaultSimulatorImpl.insertWithContext sim).m_currentTs = sim.m_currentTs := by
  induction queue generalizing sim with
  | nil => exact ⟨rfl, rfl⟩
  | cons ev queue ih => exact ih _

theorem Inv.processEventsWithContext (h : Inv s s.sim.m_eventsWithContext) (hf : QueueFlag s)
    (hq : CanMove s s.sim.m_eventsWithContext) :
    Inv { s with sim := s.sim.processEventsWithContext } [] ∧
      s.sim.processEventsWithContext.m_eventsWithContext = [] := by
  rw [DefaultSimulatorImpl.processEventsWithContext]
  split_ifs with hempty
  · rw [hf hempty] at h ⊢
    exact ⟨h, rfl⟩
  · refine ⟨?_, (foldl_insertWithContext_frame _ _).1⟩
    have h' : Inv { s with sim := { s.sim with
        m_eventsWithContext := [], m_eventsWithContextEmpty := true } }
        s.sim.m_eventsWithContext := { h with }
    exact h'.foldl_insertWithContext hq

/-! ### Cancelling and removing -/

/-- A scheduled event has expired exactly when it was invoked or cancelled. -/
theorem Inv.isExpired_iff (h : Inv s queue) (he : e ∈ s.scheduled) :
    s.sim.isExpired s.impls e.id = true ↔ e ∈ s.invoked ∨ e.impl ∈ s.cancelled := by
  have huid : e.id.m_uid ≠ 2 := by
    rintro heq
    have := (h.uid_range e he).1
    have h2 : e.key.m_uid.toNat = 2 := congrArg UInt32.toNat heq
    omega
  have himpl : e.id.m_eventImpl ≠ 0 :=
    (h.used_range e.impl (List.mem_append_left _ (List.mem_map_of_mem he))).1.ne'
  have hkey : e.id.m_ts < s.sim.m_currentTs ∨
      (e.id.m_ts = s.sim.m_currentTs ∧ e.id.m_uid ≤ s.sim.m_currentUid) ↔
        e.key.sortKey ≤ s.currentKey.sortKey := by
    rw [EventKey.sortKey_le_iff, UInt64.lt_iff_toNat_lt, ← UInt64.toNat_inj,
      UInt32.le_iff_toNat_le]
    rfl
  have hexp : s.sim.isExpired s.impls e.id = true ↔ e.id.m_eventImpl = 0 ∨
      (e.id.m_ts < s.sim.m_currentTs ∨ e.id.m_ts = s.sim.m_currentTs ∧
        e.id.m_uid ≤ s.sim.m_currentUid) ∨ s.impls.m_cancel e.id.m_eventImpl = true := by
    rw [DefaultSimulatorImpl.isExpired, if_neg huid, or_assoc]
    split_ifs with hc
    · exact iff_of_true rfl hc
    · exact iff_of_false not_false hc
  have hflag : s.impls.m_cancel e.id.m_eventImpl = true ↔ e.impl ∈ s.cancelled := h.flags e he
  rw [hexp, hkey, hflag]
  constructor
  · rintro (h0 | hle | hc)
    · exact absurd h0 himpl
    · rcases h.accounted e he with hp | hi | hc
      · exact absurd (h.ahead e hp) (not_lt.mpr hle)
      · exact .inl hi
      · exact .inr hc
    · exact .inr hc
  · rintro (hi | hc)
    · exact .inr (.inl (h.invoked_le e hi))
    · exact .inr (.inr hc)

theorem Inv.cancel_pending (h : Inv s queue) (he : e ∈ s.pending) :
    Inv { s with impls := s.impls.cancel e.impl, cancelled := e.impl :: s.cancelled } queue := by
  have hsched := h.pending_sub e he
  have himpl : e.impl ∈ s.scheduled.map Event.impl := List.mem_map_of_mem hsched
  exact { h with
    invoked_not := fun f hf hmem ↦ by
      rcases List.mem_cons.mp hmem with heq | hmem
      · rw [h.eq_of_impl_eq (h.invoked_sub f hf) hsched heq] at hf
        exact h.not_invoked_of_pending he hf
      · exact h.invoked_not f hf hmem
    accounted := fun f hf ↦
      (h.accounted f hf).imp_right (Or.imp_right (List.mem_cons_of_mem _))
    flags := fun f hf ↦ by
      change (if f.impl = e.impl then true else s.impls.m_cancel f.impl) = true ↔ _
      rw [List.mem_cons]
      split_ifs with heq
      · simp [heq]
      · simp [heq, h.flags f hf]
    fresh := fun i hi ↦ by
      change (if i = e.impl then true else s.impls.m_cancel i) = false
      have hne : i ≠ e.impl := by
        rintro rfl
        rcases hi with hle | hq
        · exact absurd (h.used_range _ (List.mem_append_left _ himpl)).2 (not_lt.mpr hle)
        · exact (List.nodup_append.mp h.nodup).2.2 _ himpl _ hq rfl
      rw [if_neg hne]
      exact h.fresh i hi
    cancelled_sub := fun i hi ↦ by
      rcases List.mem_cons.mp hi with rfl | hi
      · exact himpl
      · exact h.cancelled_sub i hi }

theorem Inv.cancel_other (h : Inv s queue) (hlt : event < s.impls.next)
    (hev : event ∉ s.used queue) : Inv { s with impls := s.impls.cancel event } queue := by
  have hother : ∀ i, i ≠ event → (s.impls.cancel event).m_cancel i = s.impls.m_cancel i :=
    fun i hi ↦ if_neg hi
  exact { h with
    flags := fun f hf ↦ by
      rw [hother]
      · exact h.flags f hf
      · rintro heq
        exact hev (List.mem_append_left _ (heq ▸ List.mem_map_of_mem hf))
    fresh := fun i hi ↦ by
      rw [hother]
      · exact h.fresh i hi
      · rintro rfl
        rcases hi with hle | hq
        · exact absurd hlt (not_lt.mpr hle)
        · exact hev (List.mem_append_right _ hq) }

theorem Inv.erase (h : Inv s queue) (he : e ∈ s.pending) (hc : e.impl ∈ s.cancelled) :
    Inv { s with sim := { s.sim with
      m_events := s.sim.m_events.remove e
      m_unscheduledEvents := s.sim.m_unscheduledEvents - 1 } } queue :=
  { h with
    pending_nodup := h.pending_nodup.erase e
    pending_sub := fun f hf ↦ h.pending_sub f (Multiset.mem_of_mem_erase hf)
    ahead := fun f hf ↦ h.ahead f (Multiset.mem_of_mem_erase hf)
    accounted := fun f hf ↦ by
      by_cases hfe : f = e
      · exact .inr (.inr (hfe ▸ hc))
      · exact (h.accounted f hf).imp_left fun hp ↦ (Multiset.mem_erase_of_ne hfe).mpr hp
    count := by
      change (s.sim.m_unscheduledEvents - 1).toInt = ((s.pending.erase e).card : ℤ)
      rw [Multiset.card_erase_of_mem he]
      exact toInt_sub_one h.count (Multiset.card_pos_iff_exists_mem.mpr ⟨e, he⟩) h.card_lt
    card_lt := (Multiset.card_le_card (Multiset.erase_le e s.pending)).trans_lt h.card_lt }

theorem Inv.recordCancel_of_pending (he : e ∈ s.pending) :
    s.recordCancel e.id = e.impl :: s.cancelled :=
  if_pos (Multiset.mem_map_of_mem _ he)

theorem Inv.recordCancel_of_not_pending (h : Inv s queue) (he : e ∈ s.scheduled)
    (hp : e ∉ s.pending) : s.recordCancel e.id = s.cancelled := by
  refine if_neg fun hmem ↦ ?_
  obtain ⟨f, hf, himpl⟩ := Multiset.mem_map.mp hmem
  exact hp (h.eq_of_impl_eq (h.pending_sub f hf) he himpl ▸ hf)

theorem Inv.recordCancel_of_not_used (h : Inv s queue) {id : EventId}
    (hid : id.m_eventImpl ∉ s.used queue) : s.recordCancel id = s.cancelled := by
  refine if_neg fun hmem ↦ hid ?_
  obtain ⟨f, hf, himpl⟩ := Multiset.mem_map.mp hmem
  rw [← himpl]
  exact List.mem_append_left _ (List.mem_map_of_mem (h.pending_sub f hf))

theorem Inv.isExpired_of_not_pending (h : Inv s queue) (he : e ∈ s.scheduled)
    (hp : e ∉ s.pending) : s.sim.isExpired s.impls e.id = true :=
  (h.isExpired_iff he).mpr ((h.accounted e he).resolve_left hp)

theorem Inv.cancel_eq_self (h : Inv s queue) (he : e ∈ s.pending)
    (hexp : s.sim.isExpired s.impls e.id = true) : s.impls.cancel e.impl = s.impls := by
  have hsched := h.pending_sub e he
  have hflag : s.impls.m_cancel e.impl = true :=
    (h.flags e hsched).mpr (((h.isExpired_iff hsched).mp hexp).resolve_left
      (h.not_invoked_of_pending he))
  have hfun : (fun i ↦ if i = e.impl then true else s.impls.m_cancel i) = s.impls.m_cancel := by
    funext i
    split_ifs with hi
    · rw [hi, hflag]
    · rfl
  rw [EventImpls.cancel, hfun]

theorem Inv.id_cases (h : Inv s queue) {id : EventId} (hid : id ∈ s.ids ∨ id = .null) :
    (∃ e ∈ s.scheduled, id = e.id ∧ id.m_uid ≠ 2) ∨
      (id.m_uid = 2 ∧ id.m_eventImpl < s.impls.next ∧ id.m_eventImpl ∉ s.used queue) ∨
      (id = .null ∧ id.m_eventImpl ∉ s.used queue) := by
  rcases hid with hid | rfl
  · rcases h.ids id hid with ⟨e, he, rfl⟩ | hd
    · refine .inl ⟨e, he, rfl, fun heq ↦ ?_⟩
      have := (h.uid_range e he).1
      have h2 : e.key.m_uid.toNat = 2 := congrArg UInt32.toNat heq
      omega
    · exact .inr (.inl hd)
  · exact .inr (.inr ⟨rfl, fun hmem ↦ absurd (h.used_range _ hmem).1 (lt_irrefl 0)⟩)

theorem Inv.cancel (h : Inv s queue) {id : EventId} (hid : id ∈ s.ids ∨ id = .null) :
    Inv { s with impls := s.sim.cancel s.impls id, cancelled := s.recordCancel id } queue := by
  rw [DefaultSimulatorImpl.cancel]
  rcases h.id_cases hid with ⟨e, he, rfl, -⟩ | ⟨-, hlt, hused⟩ | ⟨rfl, hused⟩
  · by_cases hp : e ∈ s.pending
    · have hc := h.cancel_pending hp
      rw [Inv.recordCancel_of_pending hp]
      split_ifs with hexp
      · rwa [h.cancel_eq_self hp hexp] at hc
      · exact hc
    · rw [h.recordCancel_of_not_pending he hp, if_pos (h.isExpired_of_not_pending he hp)]
      exact h
  · rw [h.recordCancel_of_not_used hused]
    split_ifs
    · exact h
    · exact h.cancel_other hlt hused
  · rw [h.recordCancel_of_not_used hused]
    exact h

theorem Inv.remove (h : Inv s queue) {id : EventId} (hid : id ∈ s.ids ∨ id = .null) :
    Inv { s with
      sim := (s.sim.remove s.impls id).1
      impls := (s.sim.remove s.impls id).2
      cancelled := s.recordCancel id } queue := by
  rw [DefaultSimulatorImpl.remove]
  rcases h.id_cases hid with ⟨e, he, rfl, huid⟩ | ⟨huid, -, hused⟩ | ⟨rfl, hused⟩
  · rw [if_neg huid]
    by_cases hp : e ∈ s.pending
    · have hc := h.cancel_pending hp
      rw [Inv.recordCancel_of_pending hp]
      split_ifs with hexp
      · rwa [h.cancel_eq_self hp hexp] at hc
      · exact hc.erase hp List.mem_cons_self
    · rw [h.recordCancel_of_not_pending he hp, if_pos (h.isExpired_of_not_pending he hp)]
      exact h
  · rw [h.recordCancel_of_not_used hused, if_pos huid]
    exact { h with }
  · rw [h.recordCancel_of_not_used hused]
    exact h

/-! ### Processing events -/

theorem Inv.eq_of_uid_eq (h : Inv s queue) {f : Event} (he : e ∈ s.scheduled)
    (hf : f ∈ s.scheduled) (huid : e.key.m_uid = f.key.m_uid) : e = f := by
  have hnodup : (s.scheduled.map fun e ↦ e.key.m_uid.toNat).Nodup :=
    List.pairwise_map.mpr (h.uids.imp fun hlt ↦ hlt.ne)
  exact List.inj_on_of_nodup_map hnodup he hf (congrArg UInt32.toNat huid)

theorem Inv.beginEvent (h : Inv s queue) {next : Event} (hn : IsNext s.pending next) :
    Inv { s with
      sim := s.sim.beginEvent next
      running := true
      invoked := if s.impls.m_cancel next.impl then s.invoked else s.invoked ++ [next] }
      queue := by
  have hsched := h.pending_sub next hn.1
  have hkey : ∀ e ∈ s.invoked, e.key.sortKey < next.key.sortKey := fun e he ↦
    (h.invoked_le e he).trans_lt (h.ahead next hn.1)
  have hinvoked : ∀ e, e ∈ (if s.impls.m_cancel next.impl then s.invoked else s.invoked ++ [next]) →
      e ∈ s.invoked ∨ e = next ∧ s.impls.m_cancel next.impl ≠ true := by
    intro e he
    split_ifs at he with hc
    · exact .inl he
    · rw [List.mem_append, List.mem_singleton] at he
      exact he.imp_right fun heq ↦ ⟨heq, hc⟩
  exact { h with
    current_lt := (h.uid_range next hsched).2
    pending_nodup := h.pending_nodup.erase next
    pending_sub := fun f hf ↦ h.pending_sub f (Multiset.mem_of_mem_erase hf)
    ahead := fun f hf ↦ by
      have hf' := Multiset.mem_of_mem_erase hf
      refine lt_of_le_of_ne (hn.2 f hf') fun heq ↦ ?_
      have hfe : next = f := h.eq_of_uid_eq hsched (h.pending_sub f hf')
        (EventKey.sortKey_eq_iff.mp heq).2
      exact h.pending_nodup.notMem_erase (hfe ▸ hf)
    invoked_sub := fun e he ↦ by
      rcases hinvoked e he with hi | ⟨rfl, -⟩
      · exact h.invoked_sub e hi
      · exact hsched
    invoked_le := fun e he ↦ by
      rcases hinvoked e he with hi | ⟨rfl, -⟩
      · exact (hkey e hi).le
      · exact le_rfl
    invoked_not := fun e he ↦ by
      rcases hinvoked e he with hi | ⟨rfl, hc⟩
      · exact h.invoked_not e hi
      · exact fun hmem ↦ hc ((h.flags e hsched).mpr hmem)
    invoked_sorted := by
      dsimp only
      split_ifs
      · exact h.invoked_sorted
      · refine List.pairwise_append.mpr ⟨h.invoked_sorted, List.pairwise_singleton _ _,
          fun a ha b hb ↦ ?_⟩
        rw [List.mem_singleton.mp hb]
        exact hkey a ha
    accounted := fun e he ↦ by
      dsimp only
      by_cases hen : e = next
      · subst hen
        split_ifs with hc
        · exact .inr (.inr ((h.flags e he).mp hc))
        · exact .inr (.inl (List.mem_append_right _ (List.mem_singleton_self e)))
      · rcases h.accounted e he with hp | hi | hc
        · exact .inl ((Multiset.mem_erase_of_ne hen).mpr hp)
        · refine .inr (.inl ?_)
          split_ifs
          · exact hi
          · exact List.mem_append_left _ hi
        · exact .inr (.inr hc)
    count := by
      change (s.sim.m_unscheduledEvents - 1).toInt = ((s.pending.erase next).card : ℤ)
      rw [Multiset.card_erase_of_mem hn.1]
      exact toInt_sub_one h.count (Multiset.card_pos_iff_exists_mem.mpr ⟨next, hn.1⟩) h.card_lt
    card_lt := (Multiset.card_le_card (Multiset.erase_le next s.pending)).trans_lt h.card_lt }

/-! ## The steps at which nothing overflows -/

/-- One more event fits: neither the counter of unique ids nor that of pending events overflows. -/
def CanInsert (s : Simulation) : Prop :=
  s.sim.m_uid.toNat + 1 < 2 ^ 32 ∧ s.pending.card + 1 < 2 ^ 31

/-- One more event fits, and its time is at or after the current one and below `2 ^ 63`. -/
def CanSchedule (s : Simulation) (delay : UInt64) : Prop :=
  s.CanInsert ∧ s.sim.m_currentTs.toNat + delay.toNat < 2 ^ 63

instance : Decidable (CanInsert s) := inferInstanceAs (Decidable (_ ∧ _))

instance {delay : UInt64} : Decidable (CanSchedule s delay) := inferInstanceAs (Decidable (_ ∧ _))

/-- The steps of a simulation in which no counter wraps and no time overflows. -/
def NoOverflow (s : Simulation) : SimulatorOp → Prop
  | .schedule delay => s.CanSchedule delay
  | .scheduleNow => s.CanInsert
  | .scheduleWithContext _ delay => s.CanSchedule delay
  | .scheduleDestroy => s.sim.m_uid.toNat + 1 < 2 ^ 32
  | .enterRun => s.CanMove s.sim.m_eventsWithContext
  | .endEvent => s.CanMove s.sim.m_eventsWithContext
  | _ => True

instance : ∀ op, Decidable (NoOverflow s op)
  | .schedule delay => inferInstanceAs (Decidable (s.CanSchedule delay))
  | .scheduleNow => inferInstanceAs (Decidable s.CanInsert)
  | .scheduleWithContext _ delay => inferInstanceAs (Decidable (s.CanSchedule delay))
  | .scheduleFromThread _ _ => isTrue trivial
  | .scheduleDestroy => inferInstanceAs (Decidable (s.sim.m_uid.toNat + 1 < 2 ^ 32))
  | .cancel _ => isTrue trivial
  | .remove _ => isTrue trivial
  | .enterRun => inferInstanceAs (Decidable (s.CanMove s.sim.m_eventsWithContext))
  | .beginEvent _ => isTrue trivial
  | .endEvent => inferInstanceAs (Decidable (s.CanMove s.sim.m_eventsWithContext))

/-- Creating an event implementation and scheduling it, `delay` from now. -/
theorem Inv.make_insertNext (h : Inv s queue) {ts : UInt64} (hts : s.sim.m_currentTs ≤ ts)
    (hfits : s.CanInsert) (context : UInt32) :
    Inv { s with
      sim := (s.sim.insertNext ts context s.impls.make.1).2, impls := s.impls.make.2 } queue :=
  h.make.1.insertNext h.make.2 hts hfits.1 hfits.2 context

theorem Inv.make_schedule (h : Inv s queue) {ts : UInt64} (hts : s.sim.m_currentTs ≤ ts)
    (hfits : s.CanInsert) (context : UInt32) :
    Inv { s with
      sim := (s.sim.insertNext ts context s.impls.make.1).2
      impls := s.impls.make.2
      ids := (s.sim.insertNext ts context s.impls.make.1).1 :: s.ids } queue :=
  (h.make_insertNext hts hfits context).cons_id
    (.inl ⟨_, List.mem_append_right _ (List.mem_singleton_self _), rfl⟩)

theorem Inv.make_scheduleDestroy (h : Inv s queue) (huid : s.sim.m_uid.toNat + 1 < 2 ^ 32) :
    Inv { s with
      sim := (s.sim.scheduleDestroy s.impls.make.1).2
      impls := s.impls.make.2
      ids := (s.sim.scheduleDestroy s.impls.make.1).1 :: s.ids } queue := by
  obtain ⟨hmake, hunused⟩ := h.make
  have hnext : (s.sim.m_uid + 1).toNat = s.sim.m_uid.toNat + 1 := by
    rw [UInt32.toNat_add, UInt32.toNat_one, Nat.mod_eq_of_lt huid]
  have hdestroy : Inv { s with
      sim := (s.sim.scheduleDestroy s.impls.make.1).2, impls := s.impls.make.2 } queue :=
    { hmake with
      uid_range := fun e he ↦ ⟨(h.uid_range e he).1,
        (h.uid_range e he).2.trans (hnext ▸ Nat.lt_succ_self _)⟩
      uid_ge := h.uid_ge.trans (hnext ▸ Nat.le_succ _)
      current_lt := h.current_lt.trans (hnext ▸ Nat.lt_succ_self _) }
  exact hdestroy.cons_id (.inr ⟨rfl, hunused.range.2, hunused.notMem⟩)

/-- **One step keeps the invariant**, if nothing overflows. -/
theorem inv_step {op : SimulatorOp} {s' : Simulation}
    (h : Inv s s.sim.m_eventsWithContext ∧ QueueFlag s) (hok : NoOverflow s op)
    (hs : machine.next s op = some s') :
    Inv s' s'.sim.m_eventsWithContext ∧ QueueFlag s' := by
  obtain ⟨h, hf⟩ := h
  cases op with
  | schedule delay =>
    obtain ⟨hfits, hlt⟩ : s.CanSchedule delay := hok
    simp only [machine, Option.ite_none_right_eq_some, Option.some_inj] at hs
    obtain ⟨-, rfl⟩ := hs
    have hts := le_add_of_toNat hlt
    rw [UInt64.add_comm] at hts
    exact ⟨h.make_schedule hts hfits _, hf⟩
  | scheduleNow =>
    obtain rfl := Option.some.inj hs
    exact ⟨h.make_schedule UInt64.le_rfl hok _, hf⟩
  | scheduleWithContext context delay =>
    obtain ⟨hfits, hlt⟩ : s.CanSchedule delay := hok
    obtain rfl := Option.some.inj hs
    have hts := le_add_of_toNat hlt
    rw [UInt64.add_comm] at hts
    exact ⟨h.make_insertNext hts hfits context, hf⟩
  | scheduleFromThread context delay =>
    obtain rfl := Option.some.inj hs
    exact ⟨h.make.1.push h.make.2 context delay, fun hfalse ↦ absurd hfalse Bool.false_ne_true⟩
  | scheduleDestroy =>
    obtain rfl := Option.some.inj hs
    exact ⟨h.make_scheduleDestroy hok, hf⟩
  | cancel id =>
    simp only [machine, Option.ite_none_right_eq_some, Option.some_inj] at hs
    obtain ⟨hid, rfl⟩ := hs
    exact ⟨h.cancel hid, hf⟩
  | remove id =>
    simp only [machine, Option.ite_none_right_eq_some, Option.some_inj] at hs
    obtain ⟨hid, rfl⟩ := hs
    have hqueue : (s.sim.remove s.impls id).1.m_eventsWithContext = s.sim.m_eventsWithContext ∧
        (s.sim.remove s.impls id).1.m_eventsWithContextEmpty =
          s.sim.m_eventsWithContextEmpty := by
      rw [DefaultSimulatorImpl.remove]
      split_ifs <;> exact ⟨rfl, rfl⟩
    rw [QueueFlag]
    dsimp only
    rw [hqueue.1, hqueue.2]
    exact ⟨h.remove hid, hf⟩
  | enterRun =>
    simp only [machine, Option.ite_none_left_eq_some, Option.some_inj] at hs
    obtain ⟨-, rfl⟩ := hs
    obtain ⟨hinv, hqueue⟩ := h.processEventsWithContext hf hok
    exact ⟨by rw [hqueue]; exact hinv, fun _ ↦ hqueue⟩
  | beginEvent next =>
    simp only [machine, Option.ite_none_right_eq_some, Option.some_inj] at hs
    obtain ⟨⟨-, hn⟩, rfl⟩ := hs
    exact ⟨h.beginEvent hn, hf⟩
  | endEvent =>
    simp only [machine, Option.ite_none_right_eq_some, Option.some_inj] at hs
    obtain ⟨-, rfl⟩ := hs
    obtain ⟨hinv, hqueue⟩ := h.processEventsWithContext hf hok
    exact ⟨by rw [hqueue]; exact { hinv with }, fun _ ↦ hqueue⟩

theorem inv_init : Inv machine.init machine.init.sim.m_eventsWithContext := by
  constructor <;> first | decide | simp [machine, pending, DefaultSimulatorImpl.create]

/-- What the default simulator guarantees of its history. -/
structure Correct (s : Simulation) : Prop where
  /-- Of two events at the same time, the one scheduled first is invoked first. -/
  inOrder : ∀ a b, [a, b].Sublist s.invoked → a.key.m_ts = b.key.m_ts → [a, b].Sublist s.scheduled
  /-- Events that were neither cancelled nor removed before their turn are invoked once, and not
  before their turn. -/
  once : ∀ e ∈ s.scheduled, e.impl ∉ s.cancelled →
    s.invoked.count e = if e ∈ s.pending then 0 else 1
  /-- An event has expired exactly when it was invoked, cancelled or removed. -/
  expired : ∀ e ∈ s.scheduled,
    s.sim.isExpired s.impls e.id = true ↔ e ∈ s.invoked ∨ e.impl ∈ s.cancelled
  /-- `m_unscheduledEvents` is the number of events in the scheduler. -/
  unscheduled : s.sim.m_unscheduledEvents.toInt = s.pending.card

theorem sublist_pair_of_pairwise {l : List Event} {f : Event → ℕ}
    (hl : l.Pairwise fun a b ↦ f a < f b) {a b : Event} (ha : a ∈ l) (hb : b ∈ l)
    (hab : f a < f b) : [a, b].Sublist l := by
  induction l with
  | nil => exact absurd ha List.not_mem_nil
  | cons c l ih =>
    obtain ⟨hc, hrest⟩ := List.pairwise_cons.mp hl
    rcases List.mem_cons.mp ha with rfl | ha'
    · rcases List.mem_cons.mp hb with rfl | hb
      · exact absurd hab (lt_irrefl _)
      · exact (List.singleton_sublist.mpr hb).cons_cons a
    · rcases List.mem_cons.mp hb with rfl | hb
      · exact absurd (hab.trans (hc a ha')) (lt_irrefl _)
      · exact (ih hrest ha' hb).cons c

theorem Inv.correct (h : Inv s queue) : Correct s where
  inOrder a b hsub hts := by
    have ha := h.invoked_sub a (hsub.subset List.mem_cons_self)
    have hb := h.invoked_sub b (hsub.subset (List.mem_cons_of_mem _ List.mem_cons_self))
    have hlt : a.key.sortKey < b.key.sortKey :=
      List.rel_of_pairwise_cons (h.invoked_sorted.sublist hsub) List.mem_cons_self
    rw [EventKey.sortKey_lt_iff, hts] at hlt
    exact sublist_pair_of_pairwise h.uids ha hb (hlt.resolve_left (lt_irrefl _)).2
  once e he hc := by
    have hnodup : s.invoked.Nodup := h.invoked_sorted.imp fun hlt ↦ fun heq ↦ by
      rw [heq] at hlt
      exact absurd hlt (lt_irrefl _)
    split_ifs with hp
    · exact List.count_eq_zero.mpr (h.not_invoked_of_pending hp)
    · exact List.count_eq_one_of_mem hnodup
        (((h.accounted e he).resolve_left hp).resolve_right hc)
  expired e he := h.isExpired_iff he
  unscheduled := h.count

theorem processEventsWithContext_currentTs (sim : DefaultSimulatorImpl) :
    sim.processEventsWithContext.m_currentTs = sim.m_currentTs := by
  rw [DefaultSimulatorImpl.processEventsWithContext]
  split_ifs
  · rfl
  · exact (foldl_insertWithContext_frame _ _).2

theorem Inv.currentTs_le (h : Inv s queue) {op : SimulatorOp} {s' : Simulation}
    (hs : machine.next s op = some s') : s.sim.m_currentTs ≤ s'.sim.m_currentTs := by
  cases op with
  | schedule delay =>
    simp only [machine, Option.ite_none_right_eq_some, Option.some_inj] at hs
    obtain ⟨-, rfl⟩ := hs
    exact UInt64.le_rfl
  | scheduleNow | scheduleWithContext | scheduleFromThread | scheduleDestroy =>
    obtain rfl := Option.some.inj hs
    exact UInt64.le_rfl
  | cancel id =>
    simp only [machine, Option.ite_none_right_eq_some, Option.some_inj] at hs
    obtain ⟨-, rfl⟩ := hs
    exact UInt64.le_rfl
  | remove id =>
    simp only [machine, Option.ite_none_right_eq_some, Option.some_inj] at hs
    obtain ⟨-, rfl⟩ := hs
    dsimp only
    rw [DefaultSimulatorImpl.remove]
    split_ifs <;> exact UInt64.le_rfl
  | enterRun =>
    simp only [machine, Option.ite_none_left_eq_some, Option.some_inj] at hs
    obtain ⟨-, rfl⟩ := hs
    dsimp only
    rw [processEventsWithContext_currentTs]
    exact UInt64.le_rfl
  | beginEvent next =>
    simp only [machine, Option.ite_none_right_eq_some, Option.some_inj] at hs
    obtain ⟨⟨-, hn⟩, rfl⟩ := hs
    exact UInt64.le_iff_toNat_le.mpr (EventKey.ts_le_of_sortKey_le (h.ahead next hn.1).le)
  | endEvent =>
    simp only [machine, Option.ite_none_right_eq_some, Option.some_inj] at hs
    obtain ⟨-, rfl⟩ := hs
    dsimp only
    rw [processEventsWithContext_currentTs]
    exact UInt64.le_rfl

/-- **The default simulator is correct in every run in which nothing overflows**, and simulated time
never decreases. -/
theorem correct_of_noOverflow {ops : List SimulatorOp} (hr : machine.Run NoOverflow ops s) :
    Correct s ∧ ∀ op s', machine.next s op = some s' → s.sim.m_currentTs ≤ s'.sim.m_currentTs := by
  have h := (hr.invariant (I := fun s ↦ Inv s s.sim.m_eventsWithContext ∧ QueueFlag s)
    ⟨inv_init, fun _ ↦ rfl⟩ fun s op s' h hok hs ↦ inv_step h hok hs).1
  exact ⟨h.correct, fun op s' hs ↦ h.currentTs_le hs⟩

/-- Three events at one time, the second cancelled, the third moved from another thread by the end
of the first handler. -/
def threeEventsOps : List SimulatorOp :=
  [.schedule 5, .schedule 5, .cancel ⟨2, 5, 0xffffffff, 5⟩, .enterRun,
    .beginEvent ⟨1, 5, 4, 0xffffffff⟩, .scheduleFromThread 7 0, .endEvent]

theorem correct_threeEventsOps : ∃ s, machine.Run NoOverflow threeEventsOps s ∧ Correct s ∧
    ∀ op s', machine.next s op = some s' → s.sim.m_currentTs ≤ s'.sim.m_currentTs := by
  refine Machine.exists_run_and_allowed (p := fun s ↦ s.pending.card = 2) (by decide) (by decide)
    fun s hr _ ↦ ?_
  exact correct_of_noOverflow hr

/-! ## Past the wrap of the counter -/

/-- Schedule an event and remove it, `k` times. -/
def wrapOps : ℕ → List SimulatorOp
  | 0 => []
  | k + 1 => wrapOps k ++
    [.schedule 10, .remove ⟨k + 1, 10, 0xffffffff, UInt32.ofNat (k + 4)⟩]

/-- Nothing has happened but that `k` events came and went. -/
structure Idle (k : ℕ) (s : Simulation) : Prop where
  uid : s.sim.m_uid = UInt32.ofNat (k + 4)
  next : s.impls.next = k + 1
  pending : s.pending = 0
  destroy : s.sim.m_destroyEvents = []
  time : s.sim.m_currentTs = 0
  context : s.sim.m_currentContext = 0xffffffff
  invoked : s.invoked = []
  flags : ∀ i, k < i → s.impls.m_cancel i = false
  cancelled : ∀ i ∈ s.cancelled, i ≤ k

/-- The event that `Schedule` makes of the next event implementation of an idle simulator. -/
def idleEvent (k : ℕ) : Event := ⟨k + 1, 10, UInt32.ofNat (k + 4), 0xffffffff⟩

/-- An idle simulator with that event scheduled. -/
def withIdleEvent (s : Simulation) (k : ℕ) : Simulation :=
  { s with
    sim := { s.sim with
      m_uid := s.sim.m_uid + 1
      m_unscheduledEvents := s.sim.m_unscheduledEvents + 1
      m_events := s.sim.m_events.insert (idleEvent k) }
    impls := { s.impls with next := s.impls.next + 1 }
    ids := (idleEvent k).id :: s.ids }

theorem Idle.next_schedule {k : ℕ} (hi : Idle k s) :
    machine.next s (.schedule 10) = some (s.withIdleEvent k) := by
  have hev : (⟨s.impls.next, 10 + s.sim.m_currentTs, s.sim.m_uid, s.sim.m_currentContext⟩ : Event) =
      idleEvent k := by
    rw [hi.uid, hi.next, hi.time, hi.context]
    rfl
  have hdelay : (10 : UInt64).toNat < 2 ^ 63 := by decide
  simp only [machine, if_pos hdelay, EventImpls.make, DefaultSimulatorImpl.schedule,
    DefaultSimulatorImpl.insertNext, hev]
  rfl

/-- The idle event has not expired, unless its unique id is the reserved one. -/
theorem Idle.isExpired_idleEvent {k : ℕ} (hi : Idle k s) (huid : (idleEvent k).id.m_uid ≠ 2) :
    (s.withIdleEvent k).sim.isExpired (s.withIdleEvent k).impls (idleEvent k).id = false := by
  have hflag : (s.withIdleEvent k).impls.m_cancel (idleEvent k).id.m_eventImpl = false :=
    hi.flags _ (Nat.lt_succ_self k)
  have htime : (s.withIdleEvent k).sim.m_currentTs = 0 := hi.time
  have hts : (idleEvent k).id.m_ts = 10 := rfl
  rw [DefaultSimulatorImpl.isExpired, if_neg huid, if_neg]
  rintro (h0 | hlt | ⟨heq, -⟩ | hc)
  · exact absurd h0 (Nat.succ_ne_zero k)
  · rw [htime, hts] at hlt
    exact absurd hlt (by decide)
  · rw [htime, hts] at heq
    exact absurd heq (by decide)
  · exact absurd (hflag.symm.trans hc) Bool.false_ne_true

theorem exists_idle_of_wrapOps {k : ℕ} (hk : k ≤ 2 ^ 32 - 2) :
    ∃ s, machine.Run Machine.unguarded (wrapOps k) s ∧ Idle k s := by
  induction k with
  | zero => exact ⟨_, .nil, ⟨rfl, rfl, rfl, rfl, rfl, rfl, rfl, fun _ _ ↦ rfl, by simp [machine]⟩⟩
  | succ k ih =>
    obtain ⟨s, hr, hi⟩ := ih (by omega)
    have huid : (idleEvent k).id.m_uid ≠ 2 := by
      intro heq
      have := congrArg UInt32.toNat heq
      change (UInt32.ofNat (k + 4)).toNat = 2 at this
      rw [UInt32.toNat_ofNat'] at this
      omega
    set t := s.withIdleEvent k with ht
    have hremove : machine.next t (.remove (idleEvent k).id) = some { t with
        sim := (t.sim.remove t.impls (idleEvent k).id).1
        impls := (t.sim.remove t.impls (idleEvent k).id).2
        cancelled := t.recordCancel (idleEvent k).id } :=
      if_pos (.inl List.mem_cons_self)
    have hrun := (hr.snoc trivial hi.next_schedule).snoc trivial hremove
    rw [List.append_assoc] at hrun
    refine ⟨_, hrun, ?_⟩
    rw [DefaultSimulatorImpl.remove, if_neg huid, if_neg (by
      rw [hi.isExpired_idleEvent huid]; exact Bool.false_ne_true)]
    refine ⟨?_, ?_, ?_, hi.destroy, hi.time, hi.context, hi.invoked, fun i hki ↦ ?_,
      fun i hmem ↦ ?_⟩
    · change s.sim.m_uid + 1 = _
      rw [hi.uid]
      exact (UInt32.ofNat_add (k + 4) 1).symm.trans (congrArg UInt32.ofNat (by omega))
    · change s.impls.next + 1 = _
      rw [hi.next]
    · change (idleEvent k ::ₘ s.pending).erase (idleEvent k) = 0
      rw [Multiset.erase_cons_head]
      exact hi.pending
    · change (if i = k + 1 then true else s.impls.m_cancel i) = false
      rw [if_neg (by omega)]
      exact hi.flags i (by omega)
    · have hrec : i = k + 1 ∨ i ∈ s.cancelled := by
        dsimp only [recordCancel] at hmem
        split_ifs at hmem
        · exact List.mem_cons.mp hmem
        · exact .inr hmem
      rcases hrec with rfl | hmem
      · exact le_rfl
      · exact (hi.cancelled i hmem).trans (Nat.le_succ k)

/-- **The counter wraps to the unique id of destroy events**: the next event after `2 ^ 32 - 2` of
them counts as expired while it is pending. -/
theorem not_correct_wrapOps : ∃ s,
    machine.Run Machine.unguarded (wrapOps (2 ^ 32 - 2) ++ [.schedule 10]) s ∧ ¬Correct s := by
  obtain ⟨s, hr, hi⟩ := exists_idle_of_wrapOps le_rfl
  set e : Event := idleEvent (2 ^ 32 - 2) with he
  refine ⟨s.withIdleEvent (2 ^ 32 - 2), hr.snoc trivial hi.next_schedule, fun hc ↦ ?_⟩
  have hmem : e ∈ (s.withIdleEvent (2 ^ 32 - 2)).scheduled :=
    List.mem_append_right _ (List.mem_singleton_self _)
  have hexp : (s.withIdleEvent (2 ^ 32 - 2)).sim.isExpired
      (s.withIdleEvent (2 ^ 32 - 2)).impls e.id = true := by
    have hdestroy : (s.withIdleEvent (2 ^ 32 - 2)).sim.m_destroyEvents = [] := hi.destroy
    have huid : e.id.m_uid = 2 := rfl
    rw [DefaultSimulatorImpl.isExpired, if_pos huid, hdestroy, if_neg List.not_mem_nil, ite_self]
  rcases (hc.expired _ hmem).mp hexp with hinv | hcancel
  · have hinv : e ∈ s.invoked := hinv
    rw [hi.invoked] at hinv
    exact absurd hinv List.not_mem_nil
  · exact absurd (hi.cancelled _ hcancel) (Nat.not_succ_le_self _)

end Simulation

end Ns3
