import Ns3.Core.CalendarScheduler
import Ns3.Core.DefaultSimulatorImpl

/-!
# The simulator over the calendar scheduler

`DefaultSimulatorImpl` is modelled over a set of events that returns one with the smallest key, and the
calendar scheduler is such a set as long as events are inserted ahead of the last one taken. Here the two
meet: the calls that a simulation makes of its scheduler are traced, and the calendar serves them.
-/

namespace Ns3

namespace Simulation

/-! ## The calls of a step -/

/-- The calls of the scheduler in a step from `s` to `s'`; what is inserted is the end of the history. -/
def calls (s : Simulation) (op : SimulatorOp) (s' : Simulation) : List SchedulerOp :=
  match op with
  | .beginEvent _ => [.removeNext]
  | .remove id =>
    if id.m_uid = 2 ∨ s.sim.isExpired s.impls id then []
    else [.remove ⟨id.m_eventImpl, id.m_ts, id.m_uid, id.m_context⟩]
  | _ => (s'.scheduled.drop s.scheduled.length).map .insert

/-- A simulation with the calls of its scheduler so far. -/
def traced : Machine (Simulation × List SchedulerOp) SimulatorOp where
  init := (machine.init, [])
  next p op := (machine.next p.1 op).map fun s' ↦ (s', p.2 ++ calls p.1 op s')

variable {s s' : Simulation} {queue : List EventWithContext} {op : SimulatorOp}

/-- The step inserts the events of `l`, and nothing else. -/
structure Inserts (s s' : Simulation) (l : List Event) : Prop where
  scheduled : s'.scheduled = s.scheduled ++ l
  pending : s'.pending = l + s.pending
  currentTs : s'.sim.m_currentTs = s.sim.m_currentTs
  ts_lt : ∀ e ∈ l, e.key.m_ts.toNat < 2 ^ 63

theorem Inserts.nothing (h₁ : s'.scheduled = s.scheduled) (h₂ : s'.pending = s.pending)
    (h₃ : s'.sim.m_currentTs = s.sim.m_currentTs) : Inserts s s' [] :=
  ⟨h₁.trans (List.append_nil _).symm, h₂.trans (Multiset.zero_add _).symm, h₃,
    fun _ he ↦ absurd he List.not_mem_nil⟩

theorem exists_foldl_insertWithContext (sim : DefaultSimulatorImpl)
    (h : ∀ ev ∈ queue, sim.m_currentTs.toNat + ev.timestamp.toNat < 2 ^ 63) : ∃ l : List Event,
    (queue.foldl DefaultSimulatorImpl.insertWithContext sim).m_events.inserted =
        sim.m_events.inserted ++ l ∧
      (queue.foldl DefaultSimulatorImpl.insertWithContext sim).m_events.pending =
        l + sim.m_events.pending ∧ ∀ e ∈ l, e.key.m_ts.toNat < 2 ^ 63 := by
  induction queue generalizing sim with
  | nil => exact ⟨[], (List.append_nil _).symm, (Multiset.zero_add _).symm, by simp⟩
  | cons ev queue ih =>
    rw [List.forall_mem_cons] at h
    obtain ⟨l, hl, hp, hlt⟩ := ih (sim.insertWithContext ev) h.2
    refine ⟨⟨ev.event, sim.m_currentTs + ev.timestamp, sim.m_uid, ev.context⟩ :: l, ?_, ?_, ?_⟩
    · rw [List.foldl_cons, hl, List.append_cons]
      rfl
    · rw [List.foldl_cons, hp, ← Multiset.cons_coe, Multiset.cons_add, ← Multiset.add_cons]
      rfl
    · refine List.forall_mem_cons.mpr ⟨?_, hlt⟩
      dsimp only
      rw [UInt64.toNat_add, Nat.mod_eq_of_lt (by omega)]
      exact h.1

theorem exists_processEventsWithContext (h : CanMove s s.sim.m_eventsWithContext)
    (hs : s'.sim = s.sim.processEventsWithContext) : ∃ l, Inserts s s' l := by
  have hts := processEventsWithContext_currentTs s.sim
  rw [← hs] at hts
  rw [DefaultSimulatorImpl.processEventsWithContext] at hs
  split_ifs at hs
  · exact ⟨[], .nothing (congrArg (·.m_events.inserted) hs) (congrArg (·.m_events.pending) hs) hts⟩
  · obtain ⟨l, hl, hp, hlt⟩ := exists_foldl_insertWithContext { s.sim with
      m_eventsWithContext := [], m_eventsWithContextEmpty := true } h.2.2
    rw [← hs] at hl hp
    exact ⟨l, hl, hp, hts, hlt⟩

theorem inserts_insertNext {ts : UInt64} {context : UInt32} {event : ℕ} (hts : ts.toNat < 2 ^ 63)
    (hs : s'.sim = (s.sim.insertNext ts context event).2) :
    Inserts s s' [⟨event, ts, s.sim.m_uid, context⟩] where
  scheduled := congrArg (·.m_events.inserted) hs
  pending := congrArg (·.m_events.pending) hs
  currentTs := congrArg (·.m_currentTs) hs
  ts_lt e he := by
    rw [List.mem_singleton] at he
    exact he ▸ hts

theorem exists_inserts (hnow : s.sim.m_currentTs.toNat < 2 ^ 63) (hok : NoOverflow s op)
    (hs : machine.next s op = some s') (hb : ∀ next, op ≠ .beginEvent next)
    (hr : ∀ id, op ≠ .remove id) : ∃ l, Inserts s s' l := by
  have hadd : ∀ {delay : UInt64}, s.CanSchedule delay → (delay + s.sim.m_currentTs).toNat < 2 ^ 63 := by
    rintro delay ⟨-, hlt⟩
    rw [UInt64.toNat_add, Nat.mod_eq_of_lt (by omega), Nat.add_comm]
    exact hlt
  cases op with
  | schedule delay =>
    simp only [machine, Option.ite_none_right_eq_some, Option.some_inj] at hs
    obtain ⟨-, rfl⟩ := hs
    exact ⟨_, inserts_insertNext (hadd hok) rfl⟩
  | scheduleNow =>
    obtain rfl := Option.some.inj hs
    exact ⟨_, inserts_insertNext hnow rfl⟩
  | scheduleWithContext context delay =>
    obtain rfl := Option.some.inj hs
    exact ⟨_, inserts_insertNext (hadd hok) rfl⟩
  | scheduleFromThread | scheduleDestroy =>
    obtain rfl := Option.some.inj hs
    exact ⟨[], .nothing rfl rfl rfl⟩
  | cancel id =>
    simp only [machine, Option.ite_none_right_eq_some, Option.some_inj] at hs
    obtain ⟨-, rfl⟩ := hs
    exact ⟨[], .nothing rfl rfl rfl⟩
  | remove id => exact absurd rfl (hr id)
  | enterRun =>
    simp only [machine, Option.ite_none_left_eq_some, Option.some_inj] at hs
    obtain ⟨-, rfl⟩ := hs
    exact exists_processEventsWithContext hok rfl
  | beginEvent next => exact absurd rfl (hb next)
  | endEvent =>
    simp only [machine, Option.ite_none_right_eq_some, Option.some_inj] at hs
    obtain ⟨-, rfl⟩ := hs
    exact exists_processEventsWithContext hok rfl

/-! ## The calendar serves them -/

section Calendar

open CalendarScheduler (scheduler InsertsAhead takesNext resized_of_run)

variable {reverse : Bool} {tr : List SchedulerOp} {t : Scheduled CalendarScheduler} {e : Event}

theorem Inv.distinctUids (h : Inv s queue) : DistinctUids s.pending :=
  h.pending_nodup.map_on fun _ he _ hf ↦ h.eq_of_uid_eq (h.pending_sub _ he) (h.pending_sub _ hf)

theorem exists_run_insert {l : List Event} (hr : (scheduler reverse).machine.Run InsertsAhead tr t)
    (hl : ∀ e ∈ l, t.lastTs ≤ e.key.m_ts ∧ e.key.m_ts < 0x8000000000000000)
    (hd : DistinctUids (l + t.pending)) : ∃ t',
    (scheduler reverse).machine.Run InsertsAhead (tr ++ l.map .insert) t' ∧
      t'.pending = l + t.pending ∧ t'.lastTs = t.lastTs := by
  induction l generalizing tr t with
  | nil => exact ⟨t, (List.append_nil tr).symm ▸ hr, (Multiset.zero_add _).symm, rfl⟩
  | cons e l ih =>
    rw [List.forall_mem_cons] at hl
    rw [← Multiset.cons_coe, Multiset.cons_add] at hd
    have hfresh : ∀ f ∈ t.pending, f.key.m_uid ≠ e.key.m_uid := by
      intro f hf heq
      rw [DistinctUids, Multiset.map_cons, Multiset.nodup_cons] at hd
      exact hd.1 (heq ▸ Multiset.mem_map_of_mem _ (Multiset.mem_add.mpr (.inr hf)))
    have hahead : InsertsAhead t (.insert e) := hl.1
    obtain ⟨t', ht', hp, hlast⟩ := ih (hr.snoc hahead (if_pos hfresh)) hl.2
      (by rwa [Multiset.add_cons])
    refine ⟨t', ?_, ?_, hlast⟩
    · rwa [List.append_assoc] at ht'
    · rw [hp, ← Multiset.cons_coe, Multiset.cons_add, Multiset.add_cons]

/-- The calendar has served the calls of a simulation. -/
structure Served (reverse : Bool) (tr : List SchedulerOp) (s : Simulation)
    (t : Scheduled CalendarScheduler) : Prop where
  run : (scheduler reverse).machine.Run InsertsAhead tr t
  pending : t.pending = s.pending
  lastTs : t.lastTs ≤ s.sim.m_currentTs
  now_lt : s.sim.m_currentTs.toNat < 2 ^ 63

theorem Served.inserts (hv : Served reverse tr s t) (h' : Inv s' queue) {l : List Event}
    (hi : Inserts s s' l) : ∃ t', Served reverse (tr ++ l.map .insert) s' t' := by
  have hpending : s'.pending = l + t.pending := hv.pending ▸ hi.pending
  have hlast : t.lastTs ≤ s'.sim.m_currentTs := hi.currentTs ▸ hv.lastTs
  have hahead : ∀ e ∈ l, t.lastTs ≤ e.key.m_ts ∧ e.key.m_ts < 0x8000000000000000 := by
    intro e he
    have hmem : e ∈ s'.pending := hi.pending ▸ Multiset.mem_add.mpr (.inl he)
    have hle := EventKey.ts_le_of_sortKey_le (h'.ahead e hmem).le
    exact ⟨UInt64.le_trans hlast (UInt64.le_iff_toNat_le.mpr hle),
      UInt64.lt_iff_toNat_lt.mpr (hi.ts_lt e he)⟩
  obtain ⟨t', hr, hp, hl⟩ := exists_run_insert hv.run hahead (hpending ▸ h'.distinctUids)
  exact ⟨t', hr, hp.trans hpending.symm, hl ▸ hlast, hi.currentTs ▸ hv.now_lt⟩

theorem Served.removeNext_eq (hv : Served reverse tr s t) (h : Inv s queue) {next : Event}
    (hn : IsNext s.pending next) : t.pending ≠ 0 ∧ t.sched.removeNext.1 = next := by
  have hmem : next ∈ t.pending := hv.pending ▸ hn.1
  have hne : t.pending ≠ 0 := fun h0 ↦ Multiset.notMem_zero next (h0 ▸ hmem)
  have hnext := takesNext reverse _ _ hv.run hne
  rw [hv.pending] at hnext
  exact ⟨hne, hnext.unique h.distinctUids hn⟩

theorem Served.beginEvent (hv : Served reverse tr s t) (h : Inv s queue) {next : Event}
    (hn : IsNext s.pending next) (hp : s'.pending = s.pending.erase next)
    (hts : s'.sim.m_currentTs = next.key.m_ts) :
    ∃ t', Served reverse (tr ++ [.removeNext]) s' t' := by
  obtain ⟨hne, htake⟩ := hv.removeNext_eq h hn
  change ((scheduler reverse).removeNext t.sched).1 = next at htake
  have hahead : InsertsAhead t .removeNext := trivial
  refine ⟨_, hv.run.snoc hahead (if_neg hne), ?_, ?_, ?_⟩
  · dsimp only
    rw [htake, hp, hv.pending]
  · dsimp only
    rw [htake, hts]
    exact UInt64.le_rfl
  · rw [hts]
    exact (resized_of_run hv.run).ts_lt next (hv.pending ▸ hn.1)

/-- `Remove` takes an event out of the scheduler if it is pending. -/
theorem Served.remove (hv : Served reverse tr s t) (h : Inv s queue) {id : EventId}
    (hid : id ∈ s.ids ∨ id = .null) (hs : s'.sim = (s.sim.remove s.impls id).1) :
    ∃ t', Served reverse (tr ++ calls s (.remove id) s') s' t' := by
  rw [DefaultSimulatorImpl.remove] at hs
  rw [calls]
  split_ifs with hx
  · have hsame : s'.pending = s.pending ∧ s'.sim.m_currentTs = s.sim.m_currentTs := by
      rw [Simulation.pending, hs]
      split_ifs with huid
      · exact ⟨rfl, rfl⟩
      · exact ⟨rfl, rfl⟩
      · exact absurd hx (not_or.mpr ⟨huid, by assumption⟩)
    rw [List.append_nil]
    exact ⟨t, hv.run, hv.pending.trans hsame.1.symm, hsame.2 ▸ hv.lastTs, hsame.2 ▸ hv.now_lt⟩
  · rw [not_or] at hx
    rw [if_neg hx.1, if_neg hx.2] at hs
    -- an identifier that is not expired is the one of a pending event
    obtain ⟨e, he, rfl, -⟩ | ⟨huid, -⟩ | ⟨rfl, -⟩ := h.id_cases hid
    · have hp : e ∈ s.pending := by
        by_contra hnot
        exact hx.2 (h.isExpired_of_not_pending he hnot)
      have hahead : InsertsAhead t (.remove e) := trivial
      refine ⟨_, hv.run.snoc hahead (if_pos (hv.pending ▸ hp)), ?_, ?_, ?_⟩
      · rw [Simulation.pending, hs, hv.pending]
        rfl
      · rw [hs]
        exact hv.lastTs
      · rw [hs]
        exact hv.now_lt
    · exact absurd huid hx.1
    · exact absurd rfl hx.2

/-- **The calendar serves one step** of a simulation. -/
theorem Served.step (hv : Served reverse tr s t) (h : Inv s queue) (h' : Inv s' s'.sim.m_eventsWithContext)
    (hok : NoOverflow s op) (hs : machine.next s op = some s') :
    ∃ t', Served reverse (tr ++ calls s op s') s' t' := by
  -- every other step only inserts
  have hother : (∀ next, op ≠ .beginEvent next) → (∀ id, op ≠ .remove id) →
      ∃ t', Served reverse (tr ++ calls s op s') s' t' := by
    intro hb hr
    obtain ⟨l, hi⟩ := exists_inserts hv.now_lt hok hs hb hr
    have hcalls : calls s op s' = l.map .insert := by
      have hdrop : s'.scheduled.drop s.scheduled.length = l := by rw [hi.scheduled, List.drop_left]
      cases op with
      | remove id => exact absurd rfl (hr id)
      | beginEvent next => exact absurd rfl (hb next)
      | _ => exact congrArg (List.map SchedulerOp.insert) hdrop
    rw [hcalls]
    exact hv.inserts h' hi
  cases op with
  | remove id =>
    simp only [machine, Option.ite_none_right_eq_some, Option.some_inj] at hs
    obtain ⟨hid, rfl⟩ := hs
    exact hv.remove h hid rfl
  | beginEvent next =>
    simp only [machine, Option.ite_none_right_eq_some, Option.some_inj] at hs
    obtain ⟨⟨-, hn⟩, rfl⟩ := hs
    exact hv.beginEvent h hn rfl rfl
  | _ => exact hother (by simp) (by simp)

theorem inv_of_run {ops : List SimulatorOp} (hr : machine.Run NoOverflow ops s) :
    Inv s s.sim.m_eventsWithContext ∧ QueueFlag s :=
  hr.invariant (I := fun s ↦ Inv s s.sim.m_eventsWithContext ∧ QueueFlag s) ⟨inv_init, fun _ ↦ rfl⟩
    fun _ _ _ h hok hs ↦ inv_step h hok hs

/-- **The calendar serves the simulator** in every run in which nothing overflows: it can take all the
calls in their order, the same events are pending, and it takes the one that the simulator runs next. -/
theorem exists_calendar_run (reverse : Bool) {ops : List SimulatorOp}
    (hr : machine.Run NoOverflow ops s) : ∃ tr t, traced.Run Machine.unguarded ops (s, tr) ∧
      (scheduler reverse).machine.Run InsertsAhead tr t ∧ t.pending = s.pending ∧
      ∀ next, IsNext s.pending next → t.sched.removeNext.1 = next := by
  have hserved : ∃ tr t, traced.Run Machine.unguarded ops (s, tr) ∧ Served reverse tr s t := by
    induction hr with
    | nil => exact ⟨[], _, .nil, .nil, rfl, UInt64.le_rfl, by decide⟩
    | @snoc ops s s' op hr hok hs ih =>
      obtain ⟨tr, t, htr, hv⟩ := ih
      have h := inv_of_run hr
      obtain ⟨t', hv'⟩ := hv.step h.1 (inv_step h hok hs).1 hok hs
      refine ⟨_, t', htr.snoc trivial ?_, hv'⟩
      change (machine.next s op).map _ = _
      rw [hs]
      rfl
  obtain ⟨tr, t, htr, hv⟩ := hserved
  exact ⟨tr, t, htr, hv.run, hv.pending, fun _ hn ↦ (hv.removeNext_eq (inv_of_run hr).1 hn).2⟩

theorem exists_calendar_run_threeEventsOps : ∃ s, machine.Run NoOverflow threeEventsOps s ∧
    ∃ tr t, traced.Run Machine.unguarded threeEventsOps (s, tr) ∧
      (scheduler false).machine.Run InsertsAhead tr t ∧ t.pending = s.pending ∧
      ∀ next, IsNext s.pending next → t.sched.removeNext.1 = next := by
  refine Machine.exists_run_and_allowed (p := fun s ↦ s.pending.card = 2) (by decide) (by decide)
    fun s hr _ ↦ ?_
  exact exists_calendar_run false hr

end Calendar

end Simulation

end Ns3
