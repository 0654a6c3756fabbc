import Mathlib
import Ns3.Core.HeapScheduler

/-!
# The calendar scheduler

`CalendarScheduler` hashes an event at time `ts` into bucket `ts / width % n`, as a wall calendar
with `n` days hashes a date: bucket `i` holds a day of this year and the same day of every later
year. The next event is looked for from the day of the last one onwards. A bucket's first event is
due when it is before the top of the bucket's current window; when a whole year passes with nothing
due, the smallest of the first events is taken instead. The number of buckets follows the number of
events, and a resize samples the first events with `DoRemoveNext`, puts them back, and hashes
everything again with a new width.

## The invariant

What the buckets hold is `Holds`: bucket `b` is a sorted list of exactly those pending events that
hash to `b`. It says nothing of the search position, so it survives sampling, which moves the
position and restores it. `Calendar` adds the position: `m_lastBucket` and `m_bucketTop` are the
bucket and the top of the window of `m_lastPrio`, and no pending event is before `m_lastPrio`.

Window tops are 64-bit and may wrap. This is harmless for times below `2 ^ 63`: if the top of the
`k`-th window wraps and its bucket holds an event of that window or later, the width exceeds
`2 ^ 63`, so every event is in the very first window, whose top is the width itself.

`NS_ASSERT` is compiled away, as in optimized builds; those on `IsEmpty` hold in a run that takes no event
from an empty calendar.
-/

namespace Ns3

/-! ## Buckets -/

/-- `CalendarScheduler::Bucket`, a `std::list` of events. -/
abbrev Bucket := List Event

namespace Bucket

/-- `NextEvent`: the front of the bucket, or its back in reverse mode. -/
def nextEvent (reverse : Bool) (bucket : Bucket) : Option Event :=
  if reverse then bucket.getLast? else bucket.head?

/-- `Order`: ascending, or descending in reverse mode. -/
def order (reverse : Bool) (a b : EventKey) : Bool :=
  if reverse then a.bgt b else a.blt b

/-- `Pop`: without its next event. -/
def pop (reverse : Bool) (bucket : Bucket) : Bucket :=
  if reverse then bucket.dropLast else bucket.tail

/-- The loop of `DoInsert`: in front of the first event that `ev` is ordered before. -/
def insertEvent (reverse : Bool) (ev : Event) : Bucket → Bucket
  | [] => [ev]
  | i :: bucket =>
    if order reverse ev.key i.key then ev :: i :: bucket
    else i :: insertEvent reverse ev bucket

/-- No event of the bucket is ordered before an earlier one. -/
def Sorted (reverse : Bool) (bucket : Bucket) : Prop :=
  bucket.Pairwise fun a b ↦ order reverse b.key a.key = false

variable {reverse : Bool} {ev e : Event} {bucket : Bucket}

theorem order_eq_false_iff {a b : EventKey} :
    order reverse b a = false ↔
      if reverse then b.sortKey ≤ a.sortKey else a.sortKey ≤ b.sortKey := by
  cases reverse <;> simp [order, ← Bool.not_eq_true]

theorem insertEvent_perm : (insertEvent reverse ev bucket).Perm (ev :: bucket) := by
  induction bucket with
  | nil => exact .refl _
  | cons i bucket ih =>
    rw [insertEvent]
    split_ifs
    · exact .refl _
    · exact (ih.cons i).trans (.swap ev i bucket)

theorem Sorted.insertEvent (h : Sorted reverse bucket) :
    Sorted reverse (insertEvent reverse ev bucket) := by
  induction bucket with
  | nil => exact List.pairwise_singleton _ _
  | cons i bucket ih =>
    obtain ⟨hi, hrest⟩ := List.pairwise_cons.mp h
    rw [Bucket.insertEvent]
    split_ifs with hev
    · -- `ev` is before `i`, hence before all that follows
      refine List.pairwise_cons.mpr ⟨fun b hb ↦ ?_, h⟩
      have hbi : b = i ∨ order reverse b.key i.key = false := by
        rcases List.mem_cons.mp hb with rfl | hb
        · exact .inl rfl
        · exact .inr (hi b hb)
      cases reverse <;>
        simp only [order, Bool.false_eq_true, ↓reduceIte, EventKey.blt_iff, EventKey.bgt_iff,
          ← Bool.not_eq_true, not_lt] at hev hbi ⊢ <;>
        rcases hbi with rfl | hbi
      · exact hev.le
      · exact hev.le.trans hbi
      · exact hev.le
      · exact hbi.trans hev.le
    · refine List.pairwise_cons.mpr ⟨fun b hb ↦ ?_, ih hrest⟩
      rcases List.mem_cons.mp (insertEvent_perm.mem_iff.mp hb) with rfl | hb
      · exact Bool.eq_false_iff.mpr hev
      · exact hi b hb

theorem nextEvent_eq_none : nextEvent reverse bucket = none ↔ bucket = [] := by
  cases reverse <;> simp [nextEvent]

theorem cons_pop_perm (h : nextEvent reverse bucket = some e) :
    (e :: pop reverse bucket).Perm bucket := by
  cases reverse with
  | false =>
    obtain ⟨t, rfl⟩ := List.head?_eq_some_iff.mp h
    exact .refl _
  | true =>
    obtain ⟨t, rfl⟩ := List.getLast?_eq_some_iff.mp h
    simpa [pop] using (List.perm_append_singleton e t).symm

theorem Sorted.pop (h : Sorted reverse bucket) : Sorted reverse (pop reverse bucket) := by
  cases reverse with
  | false => exact List.Pairwise.tail h
  | true => exact List.Pairwise.sublist (List.dropLast_sublist _) h

theorem Sorted.nextEvent_le (h : Sorted reverse bucket) (he : nextEvent reverse bucket = some e) :
    ∀ f ∈ bucket, e.key.sortKey ≤ f.key.sortKey := by
  intro f hf
  cases reverse with
  | false =>
    obtain ⟨t, rfl⟩ := List.head?_eq_some_iff.mp he
    rcases List.mem_cons.mp hf with rfl | hf
    · exact le_rfl
    · simpa using order_eq_false_iff.mp ((List.pairwise_cons.mp h).1 f hf)
  | true =>
    obtain ⟨t, rfl⟩ := List.getLast?_eq_some_iff.mp he
    rcases List.mem_append.mp hf with hf | hf
    · simpa using order_eq_false_iff.mp
        ((List.pairwise_append.mp h).2.2 f hf e (List.mem_singleton_self e))
    · rw [List.mem_singleton.mp hf]

end Bucket

/-! ## The scheduler -/

/-- `CalendarScheduler`. -/
structure CalendarScheduler where
  m_buckets : Array Bucket
  m_nBuckets : UInt32
  /-- Duration of a bucket, in dimensionless time units. -/
  m_width : UInt64
  /-- Bucket index from which the last event was dequeued. -/
  m_lastBucket : UInt32
  /-- Priority at the top of the bucket from which last event was dequeued. -/
  m_bucketTop : UInt64
  m_lastPrio : UInt64
  m_qSize : UInt32
  /-- Bucket ordering: `NextEvent`, `Order` and `Pop` follow from it. -/
  m_reverse : Bool
  deriving DecidableEq, Repr

namespace CalendarScheduler

def hash (s : CalendarScheduler) (ts : UInt64) : UInt32 :=
  (ts / s.m_width % s.m_nBuckets.toUInt64).toUInt32

/-- `m_buckets[i]`. -/
def bucket (s : CalendarScheduler) (i : ℕ) : Bucket := s.m_buckets.getD i []

def init (s : CalendarScheduler) (nBuckets : UInt32) (width startPrio : UInt64) :
    CalendarScheduler :=
  let s := { s with
    m_buckets := Array.replicate nBuckets.toNat []
    m_nBuckets := nBuckets
    m_width := width
    m_lastPrio := startPrio }
  { s with m_lastBucket := s.hash startPrio, m_bucketTop := (startPrio / width + 1) * width }

/-- The constructor, followed by `SetReverse`. -/
def create (reverse : Bool) : CalendarScheduler :=
  init ⟨#[], 0, 0, 0, 0, 0, 0, reverse⟩ 2 1 0

def doInsert (s : CalendarScheduler) (ev : Event) : CalendarScheduler :=
  { s with m_buckets :=
      s.m_buckets.modify (s.hash ev.key.m_ts).toNat (Bucket.insertEvent s.m_reverse ev) }

def isEmpty (s : CalendarScheduler) : Bool := s.m_qSize == 0

/-- How the search for the next event ends. -/
inductive Scan
  /-- The first event of bucket `i` is before the top of that bucket's window. -/
  | due (i : UInt32) (bucketTop : UInt64) (next : Event)
  /-- Nothing is due; `minEvent` is the smallest first event, if any bucket has one. -/
  | least (minEvent : Event) (minBucket : Option UInt32)
  deriving DecidableEq, Repr

/-- The `do … while (i != m_lastBucket)` loop that `PeekNext` and `DoRemoveNext` share. It visits
every bucket once, so `m_nBuckets` rounds are enough. -/
def scanLoop (s : CalendarScheduler) : ℕ → UInt32 → UInt64 → Event → Option UInt32 → Scan
  | 0, _, _, minEvent, minBucket => .least minEvent minBucket
  | fuel + 1, i, bucketTop, minEvent, minBucket =>
    let goOn := fun minEvent minBucket ↦
      let i := (i + 1) % s.m_nBuckets
      if i = s.m_lastBucket then .least minEvent minBucket
      else s.scanLoop fuel i (bucketTop + s.m_width) minEvent minBucket
    match Bucket.nextEvent s.m_reverse (s.bucket i.toNat) with
    | none => goOn minEvent minBucket
    | some next =>
      if next.key.m_ts < bucketTop then .due i bucketTop next
      else if next.key.blt minEvent.key then goOn next (some i)
      else goOn minEvent minBucket

/-- The search, from the event that every pending event is before. -/
def scan (s : CalendarScheduler) (first : Event) : Scan :=
  s.scanLoop s.m_nBuckets.toNat s.m_lastBucket s.m_bucketTop first none

/-- The event `minEvent` that the search of `PeekNext` starts from. -/
def peekFirst : Event := ⟨0, 0xffffffffffffffff, 0xffffffff, 0⟩

/-- The key `minKey` that the search of `DoRemoveNext` starts from, with no event behind it. -/
def removeFirst : Event := ⟨0, 0xffffffffffffffff, 0, 0xffffffff⟩

def peekNext (s : CalendarScheduler) : Event :=
  match s.scan peekFirst with
  | .due _ _ next => next
  | .least minEvent _ => minEvent

/-- `Pop (m_buckets[i])`. -/
def popBucket (s : CalendarScheduler) (i : UInt32) : CalendarScheduler :=
  { s with m_buckets := s.m_buckets.modify i.toNat (Bucket.pop s.m_reverse) }

/-- `DoRemoveNext`. Without any event the source reads `m_buckets[-1]`. -/
def doRemoveNext (s : CalendarScheduler) : Event × CalendarScheduler :=
  match s.scan removeFirst with
  | .due i bucketTop next =>
    (next, { s with
      m_lastBucket := i, m_lastPrio := next.key.m_ts, m_bucketTop := bucketTop }.popBucket i)
  | .least minEvent (some minBucket) =>
    let s := { s with
      m_lastPrio := minEvent.key.m_ts
      m_lastBucket := s.hash minEvent.key.m_ts
      m_bucketTop := (minEvent.key.m_ts / s.m_width + 1) * s.m_width }
    (minEvent, s.popBucket minBucket)
  | .least minEvent none => (minEvent, s)

/-! ## Resizing -/

/-- The number of events `CalculateNewWidth` samples. -/
def nSamples (s : CalendarScheduler) : UInt32 :=
  let n := if s.m_qSize ≤ 5 then s.m_qSize else 5 + s.m_qSize / 10
  if n > 25 then 25 else n

/-- Gather events with `DoRemoveNext`. -/
def gather : ℕ → CalendarScheduler → List Event × CalendarScheduler
  | 0, s => ([], s)
  | k + 1, s =>
    let (ev, s) := s.doRemoveNext
    let (samples, s) := gather k s
    (ev :: samples, s)

/-- The differences between the times of successive samples. -/
def separations (samples : List Event) : List UInt64 :=
  samples.tail.zipWith (fun next cur ↦ next.key.m_ts - cur.key.m_ts) samples

/-- `CalculateNewWidth`, which returns the new width with the buckets it has rearranged. -/
def calculateNewWidth (s : CalendarScheduler) : UInt64 × CalendarScheduler :=
  if s.m_qSize < 2 then (1, s)
  else
    let (samples, t) := gather s.nSamples.toNat s
    let t := samples.foldl doInsert t
    let t := { t with
      m_lastBucket := s.m_lastBucket, m_bucketTop := s.m_bucketTop, m_lastPrio := s.m_lastPrio }
    let totalSeparation := (separations samples).foldl (· + ·) 0
    let twiceAvg := totalSeparation / (s.nSamples - 1).toUInt64 * 2
    let totalSeparation :=
      (separations samples).foldl (fun total diff ↦ if diff ≤ twiceAvg then total + diff else total)
        0
    (max (totalSeparation * 3) 1, t)

def doResize (s : CalendarScheduler) (newSize : UInt32) (newWidth : UInt64) : CalendarScheduler :=
  s.m_buckets.toList.foldl (fun t bucket ↦ bucket.foldl doInsert t)
    (s.init newSize newWidth s.m_lastPrio)

def resize (s : CalendarScheduler) (newSize : UInt32) : CalendarScheduler :=
  let (newWidth, s) := s.calculateNewWidth
  s.doResize newSize newWidth

def resizeUp (s : CalendarScheduler) : CalendarScheduler :=
  if s.m_qSize > s.m_nBuckets * 2 ∧ s.m_nBuckets < 32768 then s.resize (s.m_nBuckets * 2) else s

def resizeDown (s : CalendarScheduler) : CalendarScheduler :=
  if s.m_qSize < s.m_nBuckets / 2 then s.resize (s.m_nBuckets / 2) else s

def insert (s : CalendarScheduler) (ev : Event) : CalendarScheduler :=
  let s := s.doInsert ev
  { s with m_qSize := s.m_qSize + 1 }.resizeUp

def removeNext (s : CalendarScheduler) : Event × CalendarScheduler :=
  let (ev, s) := s.doRemoveNext
  (ev, { s with m_qSize := s.m_qSize - 1 }.resizeDown)

/-- `Remove`. An event that is not in its bucket trips `NS_ASSERT (false)`. -/
def remove (s : CalendarScheduler) (ev : Event) : CalendarScheduler :=
  let bucket := (s.hash ev.key.m_ts).toNat
  let isEv := fun i : Event ↦ i.key.m_uid == ev.key.m_uid
  if (s.bucket bucket).any isEv then
    { s with
      m_buckets := s.m_buckets.modify bucket fun b ↦ b.eraseP isEv
      m_qSize := s.m_qSize - 1 }.resizeDown
  else s

/-- The calendar scheduler, in normal or reverse mode. -/
def scheduler (reverse : Bool) : Scheduler CalendarScheduler where
  create := create reverse
  insert := insert
  isEmpty := isEmpty
  peekNext := peekNext
  removeNext := removeNext
  remove := remove

/-- The events in the buckets. -/
def contents (s : CalendarScheduler) : Multiset Event := s.m_buckets.toList.flatten

/-! ## What the buckets hold -/

/-- The events that hash to bucket `b`. -/
def hashedTo (s : CalendarScheduler) (pending : Multiset Event) (b : ℕ) : Multiset Event :=
  pending.filter fun e ↦ (s.hash e.key.m_ts).toNat = b

/-- Bucket `b` is a sorted list of exactly the events of `pending` that hash to `b`. -/
structure Holds (s : CalendarScheduler) (pending : Multiset Event) : Prop where
  size : s.m_buckets.size = s.m_nBuckets.toNat
  nBuckets_pos : 0 < s.m_nBuckets.toNat
  /-- The number of buckets stays far below `2 ^ 32`. -/
  nBuckets_le : s.m_nBuckets.toNat ≤ 65536
  width_pos : 0 < s.m_width.toNat
  /-- Every event is in the bucket it hashes to, and nowhere else. -/
  buckets : ∀ b < s.m_nBuckets.toNat, (s.bucket b : Multiset Event) = s.hashedTo pending b
  sorted : ∀ b < s.m_nBuckets.toNat, Bucket.Sorted s.m_reverse (s.bucket b)

variable {s t : CalendarScheduler} {pending : Multiset Event} {ev : Event}

theorem hash_toNat (hn : 0 < s.m_nBuckets.toNat) (ts : UInt64) :
    (s.hash ts).toNat = ts.toNat / s.m_width.toNat % s.m_nBuckets.toNat := by
  rw [hash, UInt64.toNat_toUInt32, UInt64.toNat_mod, UInt64.toNat_div, UInt32.toNat_toUInt64]
  exact Nat.mod_eq_of_lt ((Nat.mod_lt _ hn).trans s.m_nBuckets.toNat_lt)

theorem hash_lt (hn : 0 < s.m_nBuckets.toNat) (ts : UInt64) :
    (s.hash ts).toNat < s.m_nBuckets.toNat := by
  rw [hash_toNat hn]
  exact Nat.mod_lt _ hn

theorem hashedTo_cons_self :
    s.hashedTo (ev ::ₘ pending) (s.hash ev.key.m_ts).toNat =
      ev ::ₘ s.hashedTo pending (s.hash ev.key.m_ts).toNat := by
  simp [hashedTo]

theorem hashedTo_cons_ne {b : ℕ} (hb : b ≠ (s.hash ev.key.m_ts).toNat) :
    s.hashedTo (ev ::ₘ pending) b = s.hashedTo pending b := by
  simp [hashedTo, hb.symm]

theorem Holds.mem_bucket (h : Holds s pending) {b : ℕ} (hb : b < s.m_nBuckets.toNat) {f : Event} :
    f ∈ s.bucket b ↔ f ∈ pending ∧ (s.hash f.key.m_ts).toNat = b := by
  rw [← Multiset.mem_coe, h.buckets b hb, hashedTo, Multiset.mem_filter]

theorem Holds.contents_eq (h : Holds s pending) : s.contents = pending := by
  have hlen : s.m_buckets.toList.length = s.m_nBuckets.toNat := h.size
  have key : ∀ k ≤ s.m_nBuckets.toNat, ((s.m_buckets.toList.take k).flatten : Multiset Event) =
      pending.filter fun e ↦ (s.hash e.key.m_ts).toNat < k := by
    intro k
    induction k with
    | zero => simp
    | succ k ih =>
      intro hk
      have hget : s.m_buckets.toList[k]? = some (s.bucket k) := by
        have hlt : k < s.m_buckets.size := by
          rw [h.size]
          omega
        rw [bucket, Array.getD, dif_pos hlt, Array.getElem?_toList, Array.getElem?_eq_getElem hlt]
        rfl
      rw [List.take_add_one, hget, Option.toList_some, List.flatten_append, List.flatten_singleton,
        ← Multiset.coe_add, ih (by omega), h.buckets k (by omega)]
      refine Multiset.ext.mpr fun e ↦ ?_
      rw [Multiset.count_add, hashedTo, Multiset.count_filter, Multiset.count_filter,
        Multiset.count_filter]
      split_ifs <;> omega
  rw [contents, ← List.take_length (l := s.m_buckets.toList), hlen, key _ le_rfl,
    Multiset.filter_eq_self]
  exact fun e _ ↦ hash_lt h.nBuckets_pos _

theorem Holds.modify (h : Holds s pending) {pending' : Multiset Event} {b : ℕ}
    (hb : b < s.m_nBuckets.toNat) {f : Bucket → Bucket}
    (hf : (f (s.bucket b) : Multiset Event) = s.hashedTo pending' b)
    (hrest : ∀ c, c ≠ b → s.hashedTo pending' c = s.hashedTo pending c)
    (hsorted : Bucket.Sorted s.m_reverse (f (s.bucket b))) :
    Holds { s with m_buckets := s.m_buckets.modify b f } pending' := by
  set t : CalendarScheduler := { s with m_buckets := s.m_buckets.modify b f } with ht
  have hbucket : ∀ c, t.bucket c = if c = b then f (s.bucket b) else s.bucket c := by
    intro c
    rw [bucket, bucket, bucket, ht, Array.getD_eq_getD_getElem?, Array.getD_eq_getD_getElem?,
      Array.getD_eq_getD_getElem?, Array.getElem?_modify]
    split_ifs with hbc hcb hcb
    · rw [hbc, Array.getElem?_eq_getElem (by rw [h.size, ← hbc]; exact hb)]
      rfl
    · exact absurd hbc.symm hcb
    · exact absurd hcb.symm hbc
    · rfl
  have hhashed : ∀ c, t.hashedTo pending' c = s.hashedTo pending' c := fun _ ↦ rfl
  refine ⟨?_, h.nBuckets_pos, h.nBuckets_le, h.width_pos, fun c hc ↦ ?_, fun c hc ↦ ?_⟩
  · rw [ht, Array.size_modify]
    exact h.size
  · rw [hbucket, hhashed]
    split_ifs with hcb
    · rw [hcb, hf]
    · rw [hrest c hcb, h.buckets c hc]
  · rw [hbucket]
    split_ifs with hcb
    · exact hsorted
    · exact h.sorted c hc

theorem Holds.doInsert (h : Holds s pending) (ev : Event) :
    Holds (s.doInsert ev) (ev ::ₘ pending) := by
  have hb := hash_lt h.nBuckets_pos ev.key.m_ts
  refine h.modify hb ?_ (fun c hc ↦ ?_) (h.sorted _ hb).insertEvent
  · rw [hashedTo_cons_self, ← h.buckets _ hb, Multiset.cons_coe, Multiset.coe_eq_coe]
    exact Bucket.insertEvent_perm
  · exact hashedTo_cons_ne hc

theorem Holds.foldl_doInsert (h : Holds s pending) (l : List Event) :
    Holds (l.foldl CalendarScheduler.doInsert s) (l + pending) := by
  induction l generalizing s pending with
  | nil => simpa using h
  | cons ev l ih =>
    rw [List.foldl_cons, ← Multiset.cons_coe, Multiset.cons_add, ← Multiset.add_cons]
    exact ih (h.doInsert ev)

theorem Holds.modify_erase (h : Holds s pending) (hev : ev ∈ pending) {f : Bucket → Bucket}
    (hf : (ev :: f (s.bucket (s.hash ev.key.m_ts).toNat)).Perm
      (s.bucket (s.hash ev.key.m_ts).toNat))
    (hsorted : Bucket.Sorted s.m_reverse (f (s.bucket (s.hash ev.key.m_ts).toNat))) :
    Holds { s with m_buckets := s.m_buckets.modify (s.hash ev.key.m_ts).toNat f }
      (pending.erase ev) := by
  have hb := hash_lt h.nBuckets_pos ev.key.m_ts
  have hcons := Multiset.cons_erase hev
  refine h.modify hb ?_ (fun c hc ↦ ?_) hsorted
  · have := h.buckets _ hb
    rwa [← Multiset.coe_eq_coe.mpr hf, ← Multiset.cons_coe, ← hcons, hashedTo_cons_self,
      Multiset.cons_inj_right] at this
  · rw [← @hashedTo_cons_ne s (pending.erase ev) ev c hc, hcons]

/-! ## The search position -/

/-- The window of the width that `ts` falls in, counted from time `0`. -/
def window (s : CalendarScheduler) (ts : UInt64) : ℕ := ts.toNat / s.m_width.toNat

/-- **The invariant of the calendar**: the buckets hold the pending events, none of which is before
`m_lastPrio`, and the search position is the window of `m_lastPrio`. -/
structure Calendar (s : CalendarScheduler) (pending : Multiset Event) : Prop
    extends Holds s pending where
  /-- No event is before the last one removed. -/
  lastPrio_le : ∀ e ∈ pending, s.m_lastPrio.toNat ≤ e.key.m_ts.toNat
  ts_lt : ∀ e ∈ pending, e.key.m_ts.toNat < 2 ^ 63
  lastPrio_lt : s.m_lastPrio.toNat < 2 ^ 63
  /-- The search starts at the bucket of the last event. -/
  lastBucket : s.m_lastBucket = s.hash s.m_lastPrio
  /-- The top of its window. -/
  bucketTop : s.m_bucketTop.toNat = (s.window s.m_lastPrio + 1) * s.m_width.toNat

/-- The top of the window of a time below `2 ^ 63` does not wrap. -/
theorem windowTop_lt {width ts : ℕ} (hw : width < 2 ^ 64) (hts : ts < 2 ^ 63) :
    (ts / width + 1) * width < 2 ^ 64 := by
  have hdm : width * (ts / width) ≤ ts := Nat.mul_div_le _ _
  rcases Nat.eq_zero_or_pos (ts / width) with h0 | hpos
  · rw [h0]
    omega
  · have : width ≤ width * (ts / width) := Nat.le_mul_of_pos_right _ hpos
    rw [Nat.add_mul, Nat.mul_comm _ width]
    omega

theorem windowTop_toNat {width ts : UInt64} (hts : ts.toNat < 2 ^ 63) :
    ((ts / width + 1) * width).toNat = (ts.toNat / width.toNat + 1) * width.toNat := by
  have hq : ts.toNat / width.toNat ≤ ts.toNat := Nat.div_le_self _ _
  rw [UInt64.toNat_mul, UInt64.toNat_add, UInt64.toNat_div, UInt64.toNat_one,
    Nat.mod_eq_of_lt (a := ts.toNat / width.toNat + 1) (by omega),
    Nat.mod_eq_of_lt (windowTop_lt width.toNat_lt hts)]

section Search

/-- `minEvent` is the first event of `minBucket`, or still the one the search started from. -/
def IsMin (s : CalendarScheduler) (first minEvent : Event) : Option UInt32 → Prop
  | none => minEvent = first
  | some b => b.toNat < s.m_nBuckets.toNat ∧
    Bucket.nextEvent s.m_reverse (s.bucket b.toNat) = some minEvent

/-- The state of the search after `k` buckets, none of them with an event that is due. -/
structure Scanned (s : CalendarScheduler) (pending : Multiset Event) (first : Event) (k : ℕ)
    (minEvent : Event) (minBucket : Option UInt32) : Prop where
  /-- What is pending is in a later window. -/
  later : ∀ f ∈ pending, s.window s.m_lastPrio + k ≤ s.window f.key.m_ts
  /-- Nothing in the buckets seen is before `minEvent`. -/
  seen : ∀ f ∈ pending, (∃ j < k, (s.window s.m_lastPrio + j) % s.m_nBuckets.toNat =
    (s.hash f.key.m_ts).toNat) → minEvent.key.sortKey ≤ f.key.sortKey
  min : IsMin s first minEvent minBucket

/-- How a search ends when there is an event to be found. -/
inductive Found (s : CalendarScheduler) (pending : Multiset Event) : Scan → Prop
  | due {i : UInt32} {bucketTop : UInt64} {next : Event} (hnext : IsNext pending next)
      (hi : i = s.hash next.key.m_ts)
      (htop : bucketTop.toNat = (s.window next.key.m_ts + 1) * s.m_width.toNat)
      (hb : Bucket.nextEvent s.m_reverse (s.bucket i.toNat) = some next) :
      Found s pending (.due i bucketTop next)
  | least {next : Event} {i : UInt32} (hnext : IsNext pending next)
      (hi : i = s.hash next.key.m_ts)
      (hb : Bucket.nextEvent s.m_reverse (s.bucket i.toNat) = some next) :
      Found s pending (.least next (some i))

variable {first minEvent : Event} {minBucket : Option UInt32}

theorem Calendar.hash_toNat (h : Calendar s pending) (ts : UInt64) :
    (s.hash ts).toNat = s.window ts % s.m_nBuckets.toNat :=
  CalendarScheduler.hash_toNat h.nBuckets_pos ts

theorem Holds.nextEvent_spec (h : Holds s pending) {b : ℕ} (hb : b < s.m_nBuckets.toNat) {e : Event}
    (he : Bucket.nextEvent s.m_reverse (s.bucket b) = some e) :
    e ∈ pending ∧ (s.hash e.key.m_ts).toNat = b ∧
      ∀ f ∈ pending, (s.hash f.key.m_ts).toNat = b → e.key.sortKey ≤ f.key.sortKey := by
  have hmem : e ∈ s.bucket b := (Bucket.cons_pop_perm he).mem_iff.mp List.mem_cons_self
  refine ⟨((h.mem_bucket hb).mp hmem).1, ((h.mem_bucket hb).mp hmem).2, fun f hf hfb ↦ ?_⟩
  exact (h.sorted b hb).nextEvent_le he f ((h.mem_bucket hb).mpr ⟨hf, hfb⟩)

theorem Scanned.found (h : Calendar s pending) (hne : pending ≠ 0)
    (hfirst : ∀ f ∈ pending, f.key.sortKey < first.key.sortKey)
    (hs : Scanned s pending first s.m_nBuckets.toNat minEvent minBucket) :
    Found s pending (.least minEvent minBucket) := by
  have hmin : ∀ f ∈ pending, minEvent.key.sortKey ≤ f.key.sortKey := by
    intro f hf
    refine hs.seen f hf ⟨(s.window f.key.m_ts - s.window s.m_lastPrio) % s.m_nBuckets.toNat,
      Nat.mod_lt _ h.nBuckets_pos, ?_⟩
    have := hs.later f hf
    rw [h.hash_toNat, Nat.add_mod_mod, Nat.add_sub_cancel' (by omega)]
  obtain ⟨f, hf⟩ := Multiset.exists_mem_of_ne_zero hne
  have hm := hs.min
  cases minBucket with
  | none =>
    have hm : minEvent = first := hm
    exact absurd (hfirst f hf) (not_lt.mpr (hm ▸ hmin f hf))
  | some b =>
    obtain ⟨hmem, hhash, -⟩ := h.nextEvent_spec hm.1 hm.2
    exact .least ⟨hmem, hmin⟩ (UInt32.toNat_inj.mp hhash.symm) hm.2

/-- An event of the bucket of the `k`-th window or a later one is before the window's top, wrapped
or not, exactly when it is in that window. -/
theorem due_iff (h : Calendar s pending) {k : ℕ} {f : Event} (hf : f ∈ pending) {bucketTop : UInt64}
    (hlater : s.window s.m_lastPrio + k ≤ s.window f.key.m_ts)
    (htop : bucketTop.toNat = (s.window s.m_lastPrio + k + 1) * s.m_width.toNat % 2 ^ 64) :
    f.key.m_ts < bucketTop ↔ s.window f.key.m_ts = s.window s.m_lastPrio + k := by
  have hts := h.ts_lt f hf
  have hw := s.m_width.toNat_lt
  rw [UInt64.lt_iff_toNat_lt, htop]
  rcases Nat.lt_or_ge ((s.window s.m_lastPrio + k + 1) * s.m_width.toNat) (2 ^ 64) with hlt | hge
  · rw [Nat.mod_eq_of_lt hlt, ← Nat.div_lt_iff_lt_mul h.width_pos, ← window]
    omega
  · -- the width exceeds `2 ^ 63`, so there is only one window, and its top does not wrap
    exfalso
    set y := s.window s.m_lastPrio + k with hy
    have hmul : y * s.m_width.toNat ≤ f.key.m_ts.toNat :=
      (Nat.mul_le_mul_right _ hlater).trans (Nat.div_mul_le_self _ _)
    rw [Nat.add_mul, Nat.one_mul] at hge
    have hwide : 2 ^ 63 < s.m_width.toNat := by omega
    have hzero : s.window f.key.m_ts = 0 := Nat.div_eq_of_lt (by omega)
    have hy0 : y = 0 := Nat.le_zero.mp (hzero ▸ hlater)
    rw [hy0, Nat.zero_mul] at hge
    omega

theorem Scanned.step (h : Calendar s pending) {k : ℕ} {i : UInt32}
    (hs : Scanned s pending first k minEvent minBucket)
    (hi : i.toNat = (s.window s.m_lastPrio + k) % s.m_nBuckets.toNat)
    (hlater : ∀ f ∈ pending, (s.hash f.key.m_ts).toNat = i.toNat →
      s.window f.key.m_ts ≠ s.window s.m_lastPrio + k)
    {minEvent' : Event} {minBucket' : Option UInt32}
    (hle : minEvent'.key.sortKey ≤ minEvent.key.sortKey)
    (hbucket : ∀ f ∈ pending, (s.hash f.key.m_ts).toNat = i.toNat →
      minEvent'.key.sortKey ≤ f.key.sortKey)
    (hmin : IsMin s first minEvent' minBucket') :
    Scanned s pending first (k + 1) minEvent' minBucket' where
  later f hf := by
    have h1 := hs.later f hf
    have h2 : s.window f.key.m_ts ≠ s.window s.m_lastPrio + k := by
      intro heq
      exact hlater f hf (by rw [h.hash_toNat, heq, hi]) heq
    omega
  seen f hf := by
    rintro ⟨j, hj, hjf⟩
    rcases Nat.lt_succ_iff_lt_or_eq.mp hj with hj | rfl
    · exact hle.trans (hs.seen f hf ⟨j, hj, hjf⟩)
    · exact hbucket f hf (by rw [hi, hjf])
  min := hmin

/-- **The search finds the next event**, from any round on. -/
theorem scanLoop_found (h : Calendar s pending) (hne : pending ≠ 0)
    (hfirst : ∀ f ∈ pending, f.key.sortKey < first.key.sortKey) :
    ∀ {fuel k : ℕ} {i : UInt32} {bucketTop : UInt64} {minEvent : Event} {minBucket : Option UInt32},
      k + fuel = s.m_nBuckets.toNat →
      i.toNat = (s.window s.m_lastPrio + k) % s.m_nBuckets.toNat →
      bucketTop.toNat = (s.window s.m_lastPrio + k + 1) * s.m_width.toNat % 2 ^ 64 →
      Scanned s pending first k minEvent minBucket →
      Found s pending (s.scanLoop fuel i bucketTop minEvent minBucket) := by
  intro fuel
  induction fuel with
  | zero =>
    intro k i bucketTop minEvent minBucket hk _ _ hs
    rw [scanLoop]
    rw [Nat.add_zero] at hk
    exact (hk ▸ hs).found h hne hfirst
  | succ fuel ih =>
    intro k i bucketTop minEvent minBucket hk hi htop hs
    have hn := h.nBuckets_pos
    have hi_lt : i.toNat < s.m_nBuckets.toNat := hi ▸ Nat.mod_lt _ hn
    -- what happens after a bucket with nothing due
    have hgo : ∀ {minEvent' : Event} {minBucket' : Option UInt32},
        Scanned s pending first (k + 1) minEvent' minBucket' →
        Found s pending (if (i + 1) % s.m_nBuckets = s.m_lastBucket then
          .least minEvent' minBucket'
        else s.scanLoop fuel ((i + 1) % s.m_nBuckets) (bucketTop + s.m_width) minEvent'
          minBucket') := by
      intro minEvent' minBucket' hs'
      have hi' : ((i + 1) % s.m_nBuckets).toNat =
          (s.window s.m_lastPrio + (k + 1)) % s.m_nBuckets.toNat := by
        have hsmall : i.toNat + 1 < 2 ^ 32 := by
          have := h.nBuckets_le
          omega
        rw [UInt32.toNat_mod, UInt32.toNat_add, UInt32.toNat_one, Nat.mod_eq_of_lt hsmall, hi,
          Nat.mod_add_mod, Nat.add_assoc]
      split_ifs with hend
      · -- back at the first bucket: `k + 1` is a multiple of the number of buckets
        rw [hend, h.lastBucket, h.hash_toNat] at hi'
        have hdvd : s.m_nBuckets.toNat ∣ k + 1 := by
          have := Nat.sub_mod_eq_zero_of_mod_eq hi'.symm
          rwa [Nat.add_sub_cancel_left, ← Nat.dvd_iff_mod_eq_zero] at this
        have hkn : k + 1 = s.m_nBuckets.toNat := by
          have := Nat.le_of_dvd (Nat.succ_pos k) hdvd
          omega
        exact (hkn ▸ hs').found h hne hfirst
      · refine ih (by omega) hi' ?_ hs'
        rw [UInt64.toNat_add, htop, Nat.mod_add_mod]
        refine congrArg (· % 2 ^ 64) ?_
        rw [← Nat.add_assoc, Nat.add_mul (s.window s.m_lastPrio + k + 1), Nat.one_mul]
    rw [scanLoop]
    dsimp only
    cases hb : Bucket.nextEvent s.m_reverse (s.bucket i.toNat) with
    | none =>
      have hempty : ∀ f ∈ pending, (s.hash f.key.m_ts).toNat ≠ i.toNat := by
        intro f hf hfi
        have := (h.mem_bucket hi_lt).mpr ⟨hf, hfi⟩
        rw [Bucket.nextEvent_eq_none.mp hb] at this
        exact absurd this List.not_mem_nil
      exact hgo (hs.step h hi (fun f hf hfi ↦ absurd hfi (hempty f hf)) le_rfl
        (fun f hf hfi ↦ absurd hfi (hempty f hf)) hs.min)
    | some next =>
      obtain ⟨hmem, hhash, hleast⟩ := h.nextEvent_spec hi_lt hb
      have hdue := due_iff h hmem (hs.later next hmem) htop
      dsimp only
      by_cases hlt : next.key.m_ts < bucketTop
      · -- due: the other buckets have only later windows
        rw [if_pos hlt]
        rw [hdue] at hlt
        refine .due ⟨hmem, fun f hf ↦ ?_⟩ (UInt32.toNat_inj.mp hhash.symm) ?_ hb
        · by_cases hfi : (s.hash f.key.m_ts).toNat = i.toNat
          · exact hleast f hf hfi
          · have hwin : s.window next.key.m_ts < s.window f.key.m_ts := by
              have hne : s.window f.key.m_ts ≠ s.window s.m_lastPrio + k := by
                intro heq
                exact hfi (by rw [h.hash_toNat, heq, hi])
              have := hs.later f hf
              omega
            exact (EventKey.sortKey_lt_iff.mpr (.inl (Nat.lt_of_div_lt_div hwin))).le
        · rw [htop, ← hlt]
          exact Nat.mod_eq_of_lt (windowTop_lt s.m_width.toNat_lt (h.ts_lt next hmem))
      · have hnot : ∀ f ∈ pending, (s.hash f.key.m_ts).toNat = i.toNat →
            s.window f.key.m_ts ≠ s.window s.m_lastPrio + k := by
          intro f hf hfi heq
          have hle : s.window next.key.m_ts ≤ s.window f.key.m_ts :=
            Nat.div_le_div_right (EventKey.ts_le_of_sortKey_le (hleast f hf hfi))
          have := hs.later next hmem
          exact hlt (hdue.mpr (by omega))
        rw [if_neg hlt]
        by_cases hless : next.key.blt minEvent.key = true
        · rw [if_pos hless]
          have hmin : IsMin s first next (some i) := ⟨hi_lt, hb⟩
          exact hgo (hs.step h hi hnot (EventKey.blt_iff.mp hless).le hleast hmin)
        · rw [if_neg hless]
          rw [EventKey.blt_iff, not_lt] at hless
          exact hgo (hs.step h hi hnot le_rfl (fun f hf hfi ↦ hless.trans (hleast f hf hfi)) hs.min)

theorem scan_found (h : Calendar s pending) (hne : pending ≠ 0)
    (hfirst : ∀ f ∈ pending, f.key.sortKey < first.key.sortKey) :
    Found s pending (s.scan first) := by
  refine scanLoop_found h hne hfirst (k := 0) (Nat.zero_add _) ?_ ?_ ⟨fun f hf ↦ ?_, ?_, rfl⟩
  · rw [h.lastBucket, h.hash_toNat, Nat.add_zero]
  · rw [h.bucketTop, Nat.add_zero]
    exact (Nat.mod_eq_of_lt (windowTop_lt s.m_width.toNat_lt h.lastPrio_lt)).symm
  · exact Nat.div_le_div_right (h.lastPrio_le f hf)
  · rintro f - ⟨j, hj, -⟩
    exact absurd hj (Nat.not_lt_zero j)

theorem Calendar.before_first (h : Calendar s pending) (hfirst : first.key.m_ts.toNat = 2 ^ 64 - 1) :
    ∀ f ∈ pending, f.key.sortKey < first.key.sortKey := by
  intro f hf
  have := h.ts_lt f hf
  exact EventKey.sortKey_lt_iff.mpr (.inl (by omega))

end Search

/-! ## The operations -/

/-- **`PeekNext` returns the next event.** -/
theorem isNext_peekNext (h : Calendar s pending) (hne : pending ≠ 0) :
    IsNext pending s.peekNext := by
  have hf := scan_found h hne (h.before_first (rfl : peekFirst.key.m_ts.toNat = _))
  rw [peekNext]
  generalize s.scan peekFirst = r at hf
  obtain ⟨hn, -, -, -⟩ | ⟨hn, -, -⟩ := hf
  · exact hn
  · exact hn

theorem Calendar.popBucket (h : Calendar s pending) {next : Event} (hn : IsNext pending next)
    (hb : Bucket.nextEvent s.m_reverse (s.bucket (s.hash next.key.m_ts).toNat) = some next)
    {bucketTop : UInt64}
    (htop : bucketTop.toNat = (s.window next.key.m_ts + 1) * s.m_width.toNat) :
    Calendar ({ s with
      m_lastBucket := s.hash next.key.m_ts, m_lastPrio := next.key.m_ts,
      m_bucketTop := bucketTop }.popBucket (s.hash next.key.m_ts)) (pending.erase next) := by
  have hholds := h.toHolds.modify_erase hn.1 (Bucket.cons_pop_perm hb)
    (h.sorted _ (hash_lt h.nBuckets_pos _)).pop
  refine ⟨⟨hholds.size, hholds.nBuckets_pos, hholds.nBuckets_le, hholds.width_pos, hholds.buckets,
    hholds.sorted⟩, fun e he ↦ ?_, fun e he ↦ ?_, h.ts_lt next hn.1, rfl, htop⟩
  · exact EventKey.ts_le_of_sortKey_le (hn.2 e (Multiset.mem_of_mem_erase he))
  · exact h.ts_lt e (Multiset.mem_of_mem_erase he)

/-- The fields that neither `DoInsert` nor `DoRemoveNext` changes. -/
structure SameYear (s t : CalendarScheduler) : Prop where
  nBuckets : t.m_nBuckets = s.m_nBuckets
  width : t.m_width = s.m_width
  qSize : t.m_qSize = s.m_qSize
  reverse : t.m_reverse = s.m_reverse

theorem SameYear.trans {u : CalendarScheduler} (h : SameYear s t) (h' : SameYear t u) :
    SameYear s u :=
  ⟨h'.nBuckets.trans h.nBuckets, h'.width.trans h.width, h'.qSize.trans h.qSize,
    h'.reverse.trans h.reverse⟩

theorem foldl_doInsert_eq (l : List Event) (s : CalendarScheduler) :
    l.foldl doInsert s = { s with m_buckets := (l.foldl doInsert s).m_buckets } := by
  induction l generalizing s with
  | nil => rfl
  | cons ev l ih => exact ih (s.doInsert ev)

/-- **`DoRemoveNext` takes out the next event** and moves the search to it. -/
theorem doRemoveNext_spec (h : Calendar s pending) (hne : pending ≠ 0) :
    IsNext pending s.doRemoveNext.1 ∧ Calendar s.doRemoveNext.2 (pending.erase s.doRemoveNext.1) ∧
      s.doRemoveNext.2.m_lastPrio = s.doRemoveNext.1.key.m_ts ∧ SameYear s s.doRemoveNext.2 := by
  have hf := scan_found h hne (h.before_first (rfl : removeFirst.key.m_ts.toNat = _))
  rw [doRemoveNext]
  generalize s.scan removeFirst = r at hf
  obtain ⟨hn, rfl, htop, hb⟩ | ⟨hn, rfl, hb⟩ := hf
  · exact ⟨hn, h.popBucket hn hb htop, rfl, rfl, rfl, rfl, rfl⟩
  · exact ⟨hn, h.popBucket hn hb (windowTop_toNat (h.ts_lt _ hn.1)), rfl, rfl, rfl, rfl, rfl⟩

/-! ## Resizing -/

theorem gather_succ (k : ℕ) (s : CalendarScheduler) : gather (k + 1) s =
    (s.doRemoveNext.1 :: (gather k s.doRemoveNext.2).1, (gather k s.doRemoveNext.2).2) := rfl

theorem gather_spec : ∀ {k : ℕ} {s : CalendarScheduler} {pending : Multiset Event},
    Calendar s pending → k ≤ pending.card →
      ∃ rest, ((gather k s).1 : Multiset Event) + rest = pending ∧ Holds (gather k s).2 rest ∧
        SameYear s (gather k s).2 := by
  intro k
  induction k with
  | zero => exact fun {s pending} h _ ↦ ⟨pending, Multiset.zero_add _, h.toHolds, rfl, rfl, rfl, rfl⟩
  | succ k ih =>
    intro s pending h hk
    have hne : pending ≠ 0 := by
      rintro rfl
      simp at hk
    obtain ⟨hn, hcal, -, hsame⟩ := doRemoveNext_spec h hne
    obtain ⟨rest, hsum, hholds, hsame'⟩ := ih hcal (by
      rw [Multiset.card_erase_of_mem hn.1]
      exact Nat.le_sub_one_of_lt hk)
    refine ⟨rest, ?_, hholds, hsame.trans hsame'⟩
    rw [gather_succ, ← Multiset.cons_coe, Multiset.cons_add, hsum, Multiset.cons_erase hn.1]

theorem nSamples_le : s.nSamples.toNat ≤ s.m_qSize.toNat ∨ s.m_qSize < 2 := by
  rw [nSamples]
  have h5 : (5 : UInt32).toNat = 5 := rfl
  have h2 : (2 : UInt32).toNat = 2 := rfl
  have h25 : (25 : UInt32).toNat = 25 := rfl
  have h10 : (10 : UInt32).toNat = 10 := rfl
  have := s.m_qSize.toNat_lt
  split_ifs with h h' h' <;>
    simp only [UInt32.le_iff_toNat_le, UInt32.lt_iff_toNat_lt, gt_iff_lt, UInt32.toNat_add,
      UInt32.toNat_div, h5, h2, h25, h10] at * <;> omega

theorem one_le_max (a : UInt64) : 0 < (max a 1).toNat := by
  change 0 < (if a ≤ 1 then 1 else a).toNat
  split_ifs with h
  · exact Nat.one_pos
  · rw [UInt64.not_le] at h
    exact (Nat.zero_le _).trans_lt (UInt64.lt_iff_toNat_lt.mp h)

theorem calculateNewWidth_spec (h : Calendar s pending) (hq : s.m_qSize.toNat ≤ pending.card) :
    Calendar s.calculateNewWidth.2 pending ∧ SameYear s s.calculateNewWidth.2 ∧
      s.calculateNewWidth.2.m_lastPrio = s.m_lastPrio ∧
      0 < s.calculateNewWidth.1.toNat := by
  rw [calculateNewWidth]
  split_ifs with h2
  · exact ⟨h, ⟨rfl, rfl, rfl, rfl⟩, rfl, Nat.one_pos⟩
  · have hk : s.nSamples.toNat ≤ pending.card := (nSamples_le.resolve_right h2).trans hq
    obtain ⟨rest, hsum, hholds, hsame⟩ := gather_spec h hk
    generalize gather s.nSamples.toNat s = r at hsum hholds hsame
    obtain ⟨samples, t⟩ := r
    dsimp only at hsum hholds hsame ⊢
    have hholds' := hholds.foldl_doInsert samples
    rw [hsum] at hholds'
    rw [foldl_doInsert_eq] at hholds' ⊢
    refine ⟨⟨⟨hholds'.size, hholds'.nBuckets_pos, hholds'.nBuckets_le, hholds'.width_pos,
      hholds'.buckets, hholds'.sorted⟩, h.lastPrio_le, h.ts_lt, h.lastPrio_lt, ?_, ?_⟩,
      ⟨hsame.nBuckets, hsame.width, hsame.qSize, hsame.reverse⟩, rfl, ?_⟩
    · rw [h.lastBucket, hash, hash, hsame.nBuckets, hsame.width]
    · rw [h.bucketTop, window, window, hsame.width]
    · exact one_le_max _

theorem holds_init {nBuckets : UInt32} {width startPrio : UInt64} (hn : 0 < nBuckets.toNat)
    (hn' : nBuckets.toNat ≤ 65536) (hw : 0 < width.toNat) :
    Holds (s.init nBuckets width startPrio) 0 := by
  have hbucket : ∀ b, (s.init nBuckets width startPrio).bucket b = [] := by
    intro b
    rw [bucket, init, Array.getD_eq_getD_getElem?, Array.getElem?_replicate]
    split_ifs <;> rfl
  refine ⟨Array.size_replicate, hn, hn', hw, fun b _ ↦ ?_, fun b _ ↦ ?_⟩
  · rw [hbucket]
    rfl
  · rw [hbucket]
    exact List.Pairwise.nil

/-- **`DoResize` rehashes everything.** -/
theorem doResize_spec (h : Calendar s pending) {newSize : UInt32} {newWidth : UInt64}
    (hn : 0 < newSize.toNat) (hn' : newSize.toNat ≤ 65536) (hw : 0 < newWidth.toNat) :
    Calendar (s.doResize newSize newWidth) pending ∧
      (s.doResize newSize newWidth).m_lastPrio = s.m_lastPrio ∧
      (s.doResize newSize newWidth).m_qSize = s.m_qSize := by
  have hinit : Holds (s.init newSize newWidth s.m_lastPrio) 0 := holds_init hn hn' hw
  have hholds := hinit.foldl_doInsert s.m_buckets.toList.flatten
  have hcontents : (s.m_buckets.toList.flatten : Multiset Event) = pending := h.contents_eq
  rw [hcontents, Multiset.add_zero, List.foldl_flatten] at hholds
  have heq := foldl_doInsert_eq s.m_buckets.toList.flatten (s.init newSize newWidth s.m_lastPrio)
  rw [List.foldl_flatten] at heq
  rw [doResize]
  rw [heq] at hholds ⊢
  exact ⟨⟨⟨hholds.size, hholds.nBuckets_pos, hholds.nBuckets_le, hholds.width_pos,
    hholds.buckets, hholds.sorted⟩, h.lastPrio_le, h.ts_lt, h.lastPrio_lt, rfl,
    windowTop_toNat h.lastPrio_lt⟩, rfl, rfl⟩

/-- What an operation leaves: a calendar of `pending` whose last event is at `lastPrio`, with the
number of events, up to 32 bits, in `m_qSize`. -/
structure Resized (lastPrio : UInt64) (s : CalendarScheduler) (pending : Multiset Event) : Prop
    extends Calendar s pending where
  lastPrio_eq : s.m_lastPrio = lastPrio
  qSize : s.m_qSize.toNat = pending.card % 2 ^ 32

theorem Resized.resize {lastPrio : UInt64} (h : Resized lastPrio s pending) {newSize : UInt32}
    (hn : 0 < newSize.toNat) (hn' : newSize.toNat ≤ 65536) :
    Resized lastPrio (s.resize newSize) pending := by
  have hq : s.m_qSize.toNat ≤ pending.card := h.qSize ▸ Nat.mod_le _ _
  obtain ⟨hcal, hsame, hprio, hw⟩ := calculateNewWidth_spec h.toCalendar hq
  obtain ⟨hcal', hprio', hq'⟩ := doResize_spec hcal hn hn' hw
  exact ⟨hcal', hprio'.trans (hprio.trans h.lastPrio_eq),
    (congrArg UInt32.toNat (hq'.trans hsame.qSize)).trans h.qSize⟩

theorem Resized.resizeUp {lastPrio : UInt64} (h : Resized lastPrio s pending) :
    Resized lastPrio s.resizeUp pending := by
  rw [CalendarScheduler.resizeUp]
  split_ifs with hup
  · have hlt : s.m_nBuckets.toNat < 32768 := UInt32.lt_iff_toNat_lt.mp hup.2
    have htwo : (s.m_nBuckets * 2).toNat = s.m_nBuckets.toNat * 2 := by
      rw [UInt32.toNat_mul]
      exact Nat.mod_eq_of_lt (by change s.m_nBuckets.toNat * 2 < 2 ^ 32; omega)
    have := h.nBuckets_pos
    exact h.resize (by omega) (by omega)
  · exact h

theorem Resized.resizeDown {lastPrio : UInt64} (h : Resized lastPrio s pending) :
    Resized lastPrio s.resizeDown pending := by
  rw [CalendarScheduler.resizeDown]
  split_ifs with hdown
  · have hhalf : (s.m_nBuckets / 2).toNat = s.m_nBuckets.toNat / 2 := UInt32.toNat_div _ _
    have hpos := UInt32.lt_iff_toNat_lt.mp hdown
    have := h.nBuckets_le
    exact h.resize (by omega) (by omega)
  · exact h

/-! ## Runs -/

theorem insert_spec {lastPrio : UInt64} (h : Resized lastPrio s pending)
    (hge : lastPrio.toNat ≤ ev.key.m_ts.toNat) (hlt : ev.key.m_ts.toNat < 2 ^ 63) :
    Resized lastPrio (s.insert ev) (ev ::ₘ pending) := by
  have hholds := h.toHolds.doInsert ev
  refine Resized.resizeUp ⟨⟨⟨hholds.size, hholds.nBuckets_pos, hholds.nBuckets_le, hholds.width_pos,
    hholds.buckets, hholds.sorted⟩, fun e he ↦ ?_, fun e he ↦ ?_, h.lastPrio_lt, h.lastBucket,
    h.bucketTop⟩, h.lastPrio_eq, ?_⟩
  · rcases Multiset.mem_cons.mp he with rfl | he
    · exact (congrArg UInt64.toNat h.lastPrio_eq).trans_le hge
    · exact h.lastPrio_le e he
  · rcases Multiset.mem_cons.mp he with rfl | he
    · exact hlt
    · exact h.ts_lt e he
  · change (s.m_qSize + 1).toNat = _
    rw [UInt32.toNat_add, UInt32.toNat_one, h.qSize, Multiset.card_cons, Nat.mod_add_mod]

theorem qSize_erase {qSize : UInt32} (hq : qSize.toNat = pending.card % 2 ^ 32)
    (hev : ev ∈ pending) : (qSize - 1).toNat = (pending.erase ev).card % 2 ^ 32 := by
  have hpos : 0 < pending.card := Multiset.card_pos_iff_exists_mem.mpr ⟨ev, hev⟩
  rw [UInt32.toNat_sub, hq, UInt32.toNat_one, Multiset.card_erase_of_mem hev, Nat.pred_eq_sub_one]
  omega

theorem removeNext_spec {lastPrio : UInt64} (h : Resized lastPrio s pending) (hne : pending ≠ 0) :
    IsNext pending s.removeNext.1 ∧
      Resized s.removeNext.1.key.m_ts s.removeNext.2 (pending.erase s.removeNext.1) := by
  obtain ⟨hn, hcal, hprio, hsame⟩ := doRemoveNext_spec h.toCalendar hne
  refine ⟨hn, Resized.resizeDown ⟨⟨⟨hcal.size, hcal.nBuckets_pos, hcal.nBuckets_le, hcal.width_pos,
    hcal.buckets, hcal.sorted⟩, hcal.lastPrio_le, hcal.ts_lt, hcal.lastPrio_lt, hcal.lastBucket,
    hcal.bucketTop⟩, hprio, qSize_erase ?_ hn.1⟩⟩
  exact (congrArg UInt32.toNat hsame.qSize).trans h.qSize

theorem remove_spec {lastPrio : UInt64} (h : Resized lastPrio s pending) (hd : DistinctUids pending)
    (hev : ev ∈ pending) : Resized lastPrio (s.remove ev) (pending.erase ev) := by
  set isEv : Event → Bool := fun i ↦ i.key.m_uid == ev.key.m_uid with hisEv
  have hb := hash_lt h.nBuckets_pos ev.key.m_ts
  have hmem : ev ∈ s.bucket (s.hash ev.key.m_ts).toNat := (h.mem_bucket hb).mpr ⟨hev, rfl⟩
  have hself : isEv ev = true := by simp [hisEv]
  have hany : (s.bucket (s.hash ev.key.m_ts).toNat).any isEv = true :=
    List.any_eq_true.mpr ⟨ev, hmem, hself⟩
  -- the event with this unique id is `ev` itself
  have hperm : (ev :: (s.bucket (s.hash ev.key.m_ts).toNat).eraseP isEv).Perm
      (s.bucket (s.hash ev.key.m_ts).toNat) := by
    obtain ⟨a, l₁, l₂, -, ha, hl, herase⟩ := List.exists_of_eraseP hmem hself
    have hamem : a ∈ s.bucket (s.hash ev.key.m_ts).toNat := by
      rw [hl]
      exact List.mem_append_right _ List.mem_cons_self
    have hae : a = ev :=
      hd.eq_of_uid_eq ((h.mem_bucket hb).mp hamem).1 hev (beq_iff_eq.mp ha)
    rw [herase, hl, hae]
    exact List.perm_middle.symm
  have hholds := h.toHolds.modify_erase hev (f := fun b ↦ b.eraseP isEv) hperm
    ((h.sorted _ hb).sublist List.eraseP_sublist)
  rw [remove, if_pos hany]
  refine Resized.resizeDown ⟨⟨⟨hholds.size, hholds.nBuckets_pos, hholds.nBuckets_le,
    hholds.width_pos, hholds.buckets, hholds.sorted⟩, fun e he ↦ ?_, fun e he ↦ ?_, h.lastPrio_lt,
    h.lastBucket, h.bucketTop⟩, h.lastPrio_eq, qSize_erase h.qSize hev⟩
  · exact h.lastPrio_le e (Multiset.mem_of_mem_erase he)
  · exact h.ts_lt e (Multiset.mem_of_mem_erase he)

/-- What the simulator guarantees: events are inserted at or after the time of the last event that
was taken, and before `2 ^ 63`. -/
def InsertsAhead (s : Scheduled CalendarScheduler) : SchedulerOp → Prop
  | .insert ev => s.lastTs ≤ ev.key.m_ts ∧ ev.key.m_ts < 0x8000000000000000
  | _ => True

instance (s : Scheduled CalendarScheduler) : ∀ op, Decidable (InsertsAhead s op)
  | .insert ev => inferInstanceAs
    (Decidable (s.lastTs ≤ ev.key.m_ts ∧ ev.key.m_ts < 0x8000000000000000))
  | .remove _ => isTrue trivial
  | .removeNext => isTrue trivial

theorem resized_create (reverse : Bool) : Resized 0 (create reverse) 0 := by
  have h : Holds (create reverse) 0 := holds_init (by decide) (by decide) (by decide)
  exact ⟨⟨h, fun e he ↦ absurd he (Multiset.notMem_zero e),
    fun e he ↦ absurd he (Multiset.notMem_zero e), Nat.two_pow_pos 63, rfl,
    by cases reverse <;> decide⟩, rfl, rfl⟩

theorem resized_of_run {reverse : Bool} {ops : List SchedulerOp} {s : Scheduled CalendarScheduler}
    (hr : (scheduler reverse).machine.Run InsertsAhead ops s) :
    Resized s.lastTs s.sched s.pending := by
  have hinit : DistinctUids (scheduler reverse).machine.init.pending := Multiset.nodup_zero
  refine (hr.invariant (I := fun s ↦ Resized s.lastTs s.sched s.pending ∧ DistinctUids s.pending)
    ⟨resized_create reverse, hinit⟩ fun s op s' h hok hs ↦ ?_).1
  obtain ⟨ev, rfl, hfresh, rfl⟩ | ⟨ev, -, hev, rfl⟩ | ⟨-, hne, rfl⟩ :=
    Scheduler.machine_next_cases hs
  · exact ⟨insert_spec h.1 (UInt64.le_iff_toNat_le.mp hok.1) (UInt64.lt_iff_toNat_lt.mp hok.2),
      h.2.cons hfresh⟩
  · exact ⟨remove_spec h.1 h.2 hev, h.2.erase ev⟩
  · exact ⟨(removeNext_spec h.1 hne).2, h.2.erase _⟩

/-- **The calendar scheduler is a sorted set of events in every run**, in either mode: the buckets
hold exactly the pending events, `PeekNext` shows the pending event with the smallest key, and that
is the one `RemoveNext` returns. -/
theorem refines (reverse : Bool) {ops : List SchedulerOp} {s : Scheduled CalendarScheduler}
    (hr : (scheduler reverse).machine.Run InsertsAhead ops s) :
    s.sched.contents = s.pending ∧
      (s.pending ≠ 0 → IsNext s.pending s.sched.removeNext.1 ∧
        s.sched.peekNext = s.sched.removeNext.1) := by
  have h := resized_of_run hr
  refine ⟨h.contents_eq, fun hne ↦ ?_⟩
  have hn := (removeNext_spec h hne).1
  exact ⟨hn, (isNext_peekNext h.toCalendar hne).unique (Scheduler.distinctUids_of_run hr) hn⟩

/-- Enough events to double the buckets, the smallest of them at two equal times, in reverse mode;
the first is taken and another removed. -/
def resizingOps : List SchedulerOp :=
  [.insert (eventAt 900 4), .insert (eventAt 30 5), .insert (eventAt 30 6), .insert (eventAt 31 7),
    .insert (eventAt 70 8), .removeNext, .remove (eventAt 70 8), .insert (eventAt 30 9)]

theorem refines_resizingOps : ∃ s : Scheduled CalendarScheduler,
    (scheduler true).machine.Run InsertsAhead resizingOps s ∧ s.sched.contents = s.pending ∧
      (s.pending ≠ 0 → IsNext s.pending s.sched.removeNext.1 ∧
        s.sched.peekNext = s.sched.removeNext.1) := by
  refine Machine.exists_run_and_allowed (p := fun s ↦ s.sched.m_nBuckets = 4) (by decide) (by decide)
    fun s hr _ ↦ ?_
  exact refines true hr

/-! ## The calendar and the heap -/

theorem takesNext (reverse : Bool) : (scheduler reverse).TakesNext InsertsAhead :=
  fun _ _ hr hne ↦ (removeNext_spec (resized_of_run hr) hne).1

/-- The steps that both schedulers serve. -/
def HeapStep (s : Scheduled HeapScheduler) : SchedulerOp → Prop
  | .insert ev => s.lastTs ≤ ev.key.m_ts ∧ ev.key.m_ts < 0x8000000000000000
  | .remove ev => s.sched.RefillInOrder ev
  | .removeNext => True

instance (s : Scheduled HeapScheduler) : ∀ op, Decidable (HeapStep s op)
  | .insert ev => inferInstanceAs
    (Decidable (s.lastTs ≤ ev.key.m_ts ∧ ev.key.m_ts < 0x8000000000000000))
  | .remove ev => inferInstanceAs (Decidable (s.sched.RefillInOrder ev))
  | .removeNext => isTrue trivial

/-- **The calendar takes the events of the heap**, in either mode: it has a run with the same steps,
in which the same events are pending and the same one is next. -/
theorem exists_run_of_heap (reverse : Bool) {ops : List SchedulerOp} {s : Scheduled HeapScheduler}
    (hr : HeapScheduler.scheduler.machine.Run HeapStep ops s) :
    ∃ t, (scheduler reverse).machine.Run InsertsAhead ops t ∧ t.pending = s.pending ∧
      t.lastTs = s.lastTs ∧ (s.pending ≠ 0 → t.sched.removeNext.1 = s.sched.removeNext.1 ∧
        t.sched.peekNext = s.sched.peekNext) := by
  have hheap : HeapScheduler.scheduler.TakesNext HeapStep := fun ops s hr hne ↦ by
    refine HeapScheduler.takesNext ops s (hr.mono fun s op hop ↦ ?_) hne
    cases op with
    | insert ev => exact trivial
    | remove ev => exact hop
    | removeNext => exact trivial
  obtain ⟨t, ht, hp, hl, hnext⟩ := hheap.exists_run (takesNext reverse)
    (fun s t op _ hl hop ↦ by
      cases op with
      | insert ev => exact ⟨hl ▸ hop.1, hop.2⟩
      | remove ev => exact trivial
      | removeNext => exact trivial) hr
  refine ⟨t, ht, hp, hl, fun hne ↦ ⟨hnext hne, ?_⟩⟩
  have hcal := resized_of_run ht
  have hpeek := (isNext_peekNext hcal.toCalendar (hp ▸ hne)).unique (Scheduler.distinctUids_of_run ht)
    (removeNext_spec hcal (hp ▸ hne)).1
  exact hpeek.trans (hnext hne)

theorem exists_run_of_heap_resizing : ∃ s, HeapScheduler.scheduler.machine.Run HeapStep resizingOps s ∧
    ∃ t, (scheduler true).machine.Run InsertsAhead resizingOps t ∧ t.pending = s.pending ∧
      t.lastTs = s.lastTs ∧ (s.pending ≠ 0 → t.sched.removeNext.1 = s.sched.removeNext.1 ∧
        t.sched.peekNext = s.sched.peekNext) := by
  refine Machine.exists_run_and_allowed (p := fun s ↦ s.pending ≠ 0) (by decide) (by decide)
    fun s hr _ ↦ ?_
  exact exists_run_of_heap true hr

end CalendarScheduler

end Ns3
