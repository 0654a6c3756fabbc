import Mathlib.Data.Multiset.AddSub
import Mathlib.Data.Multiset.MapFold
import Mathlib.Data.Multiset.Dedup
import Mathlib.Data.Prod.Lex
import Ns3.Library.Machine

/-!
# Events, their order, and what a scheduler is for

`Scheduler::EventKey` orders events by time stamp and, at equal time stamps, by unique id. The
source writes the order out as `operator <` on the two machine integers; `EventKey.sortKey` is the
same order as an element of a linear order, which is the form heaps and sorted buckets are proved
against.

The abstract scheduler is a multiset of pending events: inserting adds, removing takes out, and the
next event is one with no smaller key. `Scheduler.machine` runs a concrete scheduler side by side
with that multiset, so a result about its runs relates the two after every operation.
-/

namespace Ns3

/-! ## Keys and events -/

/-- `Scheduler::EventKey`. -/
structure EventKey where
  m_ts : UInt64
  m_uid : UInt32
  m_context : UInt32
  deriving DecidableEq, Repr

/-- `Scheduler::Event`; the implementation pointer is an address. -/
structure Event where
  impl : ℕ
  key : EventKey
  deriving DecidableEq, Repr

/-- An event at time `ts` with unique id `uid`. -/
def eventAt (ts : UInt64) (uid : UInt32) : Event := ⟨uid.toNat, ts, uid, 0⟩

namespace EventKey

/-- `operator < (EventKey)`, branch by branch. -/
def blt (a b : EventKey) : Bool :=
  if a.m_ts < b.m_ts then true
  else if a.m_ts = b.m_ts ∧ a.m_uid < b.m_uid then true
  else false

/-- `operator > (EventKey)`, branch by branch. -/
def bgt (a b : EventKey) : Bool :=
  if a.m_ts > b.m_ts then true
  else if a.m_ts = b.m_ts ∧ a.m_uid > b.m_uid then true
  else false

/-- The key as an element of a linear order; the context plays no part. -/
def sortKey (a : EventKey) : ℕ ×ₗ ℕ := toLex (a.m_ts.toNat, a.m_uid.toNat)

theorem sortKey_lt_iff {a b : EventKey} : a.sortKey < b.sortKey ↔
    a.m_ts.toNat < b.m_ts.toNat ∨
      a.m_ts.toNat = b.m_ts.toNat ∧ a.m_uid.toNat < b.m_uid.toNat := by
  rw [sortKey, sortKey, Prod.Lex.toLex_lt_toLex]

theorem sortKey_le_iff {a b : EventKey} : a.sortKey ≤ b.sortKey ↔
    a.m_ts.toNat < b.m_ts.toNat ∨
      a.m_ts.toNat = b.m_ts.toNat ∧ a.m_uid.toNat ≤ b.m_uid.toNat := by
  rw [sortKey, sortKey, Prod.Lex.toLex_le_toLex]

theorem sortKey_eq_iff {a b : EventKey} : a.sortKey = b.sortKey ↔
    a.m_ts = b.m_ts ∧ a.m_uid = b.m_uid := by
  rw [sortKey, sortKey, toLex_inj, Prod.mk.injEq, UInt64.toNat_inj, UInt32.toNat_inj]

@[simp] theorem blt_iff {a b : EventKey} : blt a b = true ↔ a.sortKey < b.sortKey := by
  simp only [sortKey_lt_iff, blt, UInt64.lt_iff_toNat_lt, UInt32.lt_iff_toNat_lt,
    ← UInt64.toNat_inj]
  split_ifs with hts huid <;> simp [*]

@[simp] theorem bgt_iff {a b : EventKey} : bgt a b = true ↔ b.sortKey < a.sortKey := by
  simp only [sortKey_lt_iff, bgt, gt_iff_lt, UInt64.lt_iff_toNat_lt, UInt32.lt_iff_toNat_lt,
    ← UInt64.toNat_inj, eq_comm (a := a.m_ts.toNat)]
  split_ifs with hts huid <;> simp [*]

theorem ts_le_of_sortKey_le {a b : EventKey} (h : a.sortKey ≤ b.sortKey) :
    a.m_ts.toNat ≤ b.m_ts.toNat := by
  rcases sortKey_le_iff.mp h with h | h
  · exact h.le
  · exact h.1.le

end EventKey

/-! ## The abstract scheduler -/

/-- No two pending events share a unique id. -/
def DistinctUids (pending : Multiset Event) : Prop :=
  (pending.map fun e ↦ e.key.m_uid).Nodup

/-- `e` is a pending event with the smallest key. -/
def IsNext (pending : Multiset Event) (e : Event) : Prop :=
  e ∈ pending ∧ ∀ f ∈ pending, e.key.sortKey ≤ f.key.sortKey

instance (pending : Multiset Event) (e : Event) : Decidable (IsNext pending e) :=
  inferInstanceAs (Decidable (e ∈ pending ∧ ∀ f ∈ pending, e.key.sortKey ≤ f.key.sortKey))

theorem DistinctUids.eq_of_uid_eq {pending : Multiset Event} (hd : DistinctUids pending)
    {e f : Event} (he : e ∈ pending) (hf : f ∈ pending) (h : e.key.m_uid = f.key.m_uid) : e = f :=
  Multiset.inj_on_of_nodup_map hd e he f hf h

theorem IsNext.unique {pending : Multiset Event} (hd : DistinctUids pending) {e f : Event}
    (he : IsNext pending e) (hf : IsNext pending f) : e = f := by
  have hkey : e.key.sortKey = f.key.sortKey := le_antisymm (he.2 f hf.1) (hf.2 e he.1)
  exact hd.eq_of_uid_eq he.1 hf.1 (EventKey.sortKey_eq_iff.mp hkey).2

/-- The interface of `Scheduler`, over the states `σ` of a subclass. -/
structure Scheduler (σ : Type*) where
  create : σ
  insert : σ → Event → σ
  isEmpty : σ → Bool
  peekNext : σ → Event
  /-- `RemoveNext`, which returns the event with the scheduler it leaves. -/
  removeNext : σ → Event × σ
  remove : σ → Event → σ

/-- The operations that change a scheduler. -/
inductive SchedulerOp
  | insert (ev : Event)
  | remove (ev : Event)
  | removeNext
  deriving DecidableEq, Repr

/-- A scheduler together with what it stands for. -/
structure Scheduled (σ : Type*) where
  sched : σ
  /-- The events inserted and not taken out since. -/
  pending : Multiset Event
  /-- The time stamp of the event that `RemoveNext` returned last. -/
  lastTs : UInt64

/-- The runs of a scheduler: events are inserted under a unique id that no pending event has, only
pending events are removed, and `RemoveNext` is called on a non-empty scheduler. -/
def Scheduler.machine {σ : Type*} (S : Scheduler σ) : Machine (Scheduled σ) SchedulerOp where
  init := ⟨S.create, 0, 0⟩
  next
    | ⟨s, pending, lastTs⟩, .insert ev =>
      if ∀ f ∈ pending, f.key.m_uid ≠ ev.key.m_uid then
        some ⟨S.insert s ev, ev ::ₘ pending, lastTs⟩
      else none
    | ⟨s, pending, lastTs⟩, .remove ev =>
      if ev ∈ pending then some ⟨S.remove s ev, pending.erase ev, lastTs⟩ else none
    | ⟨s, pending, _⟩, .removeNext =>
      if pending = 0 then none
      else some ⟨(S.removeNext s).2, pending.erase (S.removeNext s).1, (S.removeNext s).1.key.m_ts⟩

namespace Scheduler

variable {σ : Type*} {S : Scheduler σ} {s s' : Scheduled σ}

theorem machine_next_cases {op : SchedulerOp} (h : S.machine.next s op = some s') :
    (∃ ev, op = .insert ev ∧ (∀ f ∈ s.pending, f.key.m_uid ≠ ev.key.m_uid) ∧
      s' = ⟨S.insert s.sched ev, ev ::ₘ s.pending, s.lastTs⟩) ∨
    (∃ ev, op = .remove ev ∧ ev ∈ s.pending ∧
      s' = ⟨S.remove s.sched ev, s.pending.erase ev, s.lastTs⟩) ∨
    (op = .removeNext ∧ s.pending ≠ 0 ∧
      s' = ⟨(S.removeNext s.sched).2, s.pending.erase (S.removeNext s.sched).1,
        (S.removeNext s.sched).1.key.m_ts⟩) := by
  cases op with
  | insert ev =>
    simp only [machine, Option.ite_none_right_eq_some, Option.some_inj] at h
    exact .inl ⟨ev, rfl, h.1, h.2.symm⟩
  | remove ev =>
    simp only [machine, Option.ite_none_right_eq_some, Option.some_inj] at h
    exact .inr (.inl ⟨ev, rfl, h.1, h.2.symm⟩)
  | removeNext =>
    simp only [machine, Option.ite_none_left_eq_some, Option.some_inj] at h
    exact .inr (.inr ⟨rfl, h.1, h.2.symm⟩)

end Scheduler

theorem DistinctUids.cons {pending : Multiset Event} (hd : DistinctUids pending) {ev : Event}
    (hfresh : ∀ f ∈ pending, f.key.m_uid ≠ ev.key.m_uid) : DistinctUids (ev ::ₘ pending) := by
  rw [DistinctUids, Multiset.map_cons, Multiset.nodup_cons]
  refine ⟨fun hmem ↦ ?_, hd⟩
  obtain ⟨f, hf, huid⟩ := Multiset.mem_map.mp hmem
  exact hfresh f hf huid

theorem DistinctUids.erase {pending : Multiset Event} (hd : DistinctUids pending) (ev : Event) :
    DistinctUids (pending.erase ev) :=
  Multiset.nodup_of_le (Multiset.map_le_map (Multiset.erase_le ev pending)) hd

/-- The unique ids of the pending events are distinct in every state of every run. -/
theorem Scheduler.distinctUids_of_run {σ : Type*} {S : Scheduler σ}
    {ok : Scheduled σ → SchedulerOp → Prop} {ops : List SchedulerOp} {s : Scheduled σ}
    (hr : S.machine.Run ok ops s) : DistinctUids s.pending := by
  have hinit : DistinctUids S.machine.init.pending := Multiset.nodup_zero
  refine hr.invariant (I := fun s ↦ DistinctUids s.pending) hinit fun s op s' hd _ h ↦ ?_
  obtain ⟨ev, -, hfresh, rfl⟩ | ⟨ev, -, -, rfl⟩ | ⟨-, -, rfl⟩ := Scheduler.machine_next_cases h
  · exact hd.cons hfresh
  · exact hd.erase ev
  · exact hd.erase _

/-! ## Two schedulers -/

namespace Scheduler

variable {σ τ : Type*} {S : Scheduler σ} {T : Scheduler τ} {okS : Scheduled σ → SchedulerOp → Prop}
  {okT : Scheduled τ → SchedulerOp → Prop}

/-- `RemoveNext` returns a next event in every run. -/
def TakesNext (S : Scheduler σ) (ok : Scheduled σ → SchedulerOp → Prop) : Prop :=
  ∀ ops s, S.machine.Run ok ops s → s.pending ≠ 0 → IsNext s.pending (S.removeNext s.sched).1

/-- **Schedulers that take the next event take the same events**: a run of the one is a run of the
other, with the same events pending. -/
theorem TakesNext.exists_run (hS : S.TakesNext okS) (hT : T.TakesNext okT)
    (hok : ∀ s t op, t.pending = s.pending → t.lastTs = s.lastTs → okS s op → okT t op)
    {ops : List SchedulerOp} {s : Scheduled σ} (hr : S.machine.Run okS ops s) :
    ∃ t, T.machine.Run okT ops t ∧ t.pending = s.pending ∧ t.lastTs = s.lastTs ∧
      (s.pending ≠ 0 → (T.removeNext t.sched).1 = (S.removeNext s.sched).1) := by
  have hsame : ∀ {ops s t}, S.machine.Run okS ops s → T.machine.Run okT ops t →
      t.pending = s.pending → s.pending ≠ 0 →
      (T.removeNext t.sched).1 = (S.removeNext s.sched).1 := by
    intro ops s t hs ht hp hne
    have hnext := hT _ _ ht (hp ▸ hne)
    rw [hp] at hnext
    exact hnext.unique (distinctUids_of_run hs) (hS _ _ hs hne)
  suffices h : ∃ t, T.machine.Run okT ops t ∧ t.pending = s.pending ∧ t.lastTs = s.lastTs by
    obtain ⟨t, ht, hp, hl⟩ := h
    exact ⟨t, ht, hp, hl, hsame hr ht hp⟩
  induction hr with
  | nil => exact ⟨T.machine.init, .nil, rfl, rfl⟩
  | @snoc as s s' op hr hop hs ih =>
    obtain ⟨t, ht, hp, hl⟩ := ih
    have hop' := hok s t op hp hl hop
    obtain ⟨ev, rfl, hfresh, rfl⟩ | ⟨ev, rfl, hev, rfl⟩ | ⟨rfl, hne, rfl⟩ := machine_next_cases hs
    · exact ⟨_, ht.snoc hop' (if_pos (hp ▸ hfresh)), congrArg (ev ::ₘ ·) hp, hl⟩
    · exact ⟨_, ht.snoc hop' (if_pos (hp ▸ hev)), congrArg (·.erase ev) hp, hl⟩
    · have htake := hsame hr ht hp hne
      refine ⟨_, ht.snoc hop' (if_neg (hp ▸ hne)), ?_, congrArg (·.key.m_ts) htake⟩
      dsimp only
      rw [htake, hp]

end Scheduler

end Ns3
