import Ns3.TrafficControl.CoDelQueueDisc

/-!
# The end of a CoDel dequeue

A call of `DoDequeue` takes packets out of the queue at two places, one inside the loop of the dropping
state, each time after it has dropped the one it held. It returns the packet that it holds at the end, and
the packets behind that one are left in their order.

There may be no packet left. The loop then ends, as `OkToDrop` of a null item is false, but the end of the
call asks the item for its time stamp before it tests whether there is one. With a byte threshold a packet
is never dropped when the queue behind it is empty. Without one, a call drops the last packet if all of
them are late and cannot be marked, and either the dropping state is entered with a single packet or the
times of the next drops, one for each packet, have all passed.
-/

namespace Ns3

namespace TrafficControl

namespace CoDelQueueDisc

open CoDel

/-! ## The packets that a call takes -/

/-- What a call holds after it has dropped packets from the front: an item, with those behind it in the
queue, or nothing if there is none left. -/
structure Takes (items : List QueueDiscItem) (r : List Event × Option QueueDiscItem × CoDelQueueDisc) :
    Prop where
  suffix : ∀ item ∈ r.2.1, item :: r.2.2.queue <:+ items
  empty : r.2.1 = none → r.2.2.queue = []

theorem Takes.of_some {items : List QueueDiscItem} {item : QueueDiscItem}
    {r : List Event × Option QueueDiscItem × CoDelQueueDisc} (hitem : r.2.1 = some item)
    (hsuffix : item :: r.2.2.queue <:+ items) : Takes items r where
  suffix i hi := by
    rw [hitem, Option.mem_some_iff] at hi
    exact hi ▸ hsuffix
  empty hnone := absurd (hitem.symm.trans hnone) (Option.some_ne_none item)

theorem Takes.of_none {items : List QueueDiscItem}
    {r : List Event × Option QueueDiscItem × CoDelQueueDisc} (hitem : r.2.1 = none)
    (hqueue : r.2.2.queue = []) : Takes items r where
  suffix i hi := by
    rw [hitem] at hi
    cases hi
  empty _ := hqueue

theorem Takes.cons {items : List QueueDiscItem}
    {r : List Event × Option QueueDiscItem × CoDelQueueDisc} (h : Takes items r) (item : QueueDiscItem)
    (events : List Event) :
    Takes (item :: items) (events, r.2) where
  suffix i hi := (h.suffix i hi).trans (List.suffix_cons _ _)
  empty := h.empty

/-! ## The loop -/

/-- Whether the ECN settings let an item be marked. -/
def markable (cfg : Attributes) (item : QueueDiscItem) : Bool :=
  cfg.m_useEcn && item.packet.ecnCapable

/-- The loop of the dropping state drops the item that it holds. -/
def Drops (cfg : Attributes) (t : ℕ) (item : QueueDiscItem) (s : CoDelQueueDisc) : Prop :=
  s.m_dropping = true ∧ s.m_dropNext ≤ time2CoDel t ∧ markable cfg item = false

/-- The loop, with the item that it holds, ends within `fuel` tests of its condition. -/
def LoopEnds (cfg : Attributes) (t : ℕ) : ℕ → QueueDiscItem → CoDelQueueDisc → Prop
  | 0, _, _ => False
  | fuel + 1, item, s =>
    Drops cfg t item s → ∀ item' ∈ s.countDrop.pop.1,
      (s.countDrop.pop.2.okToDrop cfg (some item') t).2 = true →
        LoopEnds cfg t fuel item'
          ((s.countDrop.pop.2.okToDrop cfg (some item') t).1.scheduleDrop cfg
            (s.countDrop.pop.2.okToDrop cfg (some item') t).1.m_dropNext)

@[simp] theorem scheduleDrop_queue (cfg : Attributes) (s : CoDelQueueDisc) (t : ℕ) :
    (s.scheduleDrop cfg t).queue = s.queue := rfl

@[simp] theorem countDrop_queue (s : CoDelQueueDisc) : s.countDrop.queue = s.queue := rfl

/-- **The loop ends**: it takes a packet out of the queue each time. -/
theorem loopEnds_of_length_lt (cfg : Attributes) (t : ℕ) {fuel : ℕ} (item : QueueDiscItem)
    {s : CoDelQueueDisc} (hfuel : s.queue.length < fuel) : LoopEnds cfg t fuel item s := by
  induction fuel generalizing item s with
  | zero => exact absurd hfuel (Nat.not_lt_zero _)
  | succ fuel ih =>
    rintro - item' hitem' -
    apply ih
    have hne : s.queue ≠ [] := by
      rintro hnil
      rw [pop, countDrop_queue, hnil] at hitem'
      cases hitem'
    have hlength : (s.countDrop.pop.2.okToDrop cfg (some item') t).1.queue.length =
        s.queue.length - 1 := by
      rw [okToDrop_queue]
      exact List.length_tail
    have hpos := List.length_pos_of_ne_nil hne
    rw [scheduleDrop_queue, hlength]
    omega

section Loop

variable {cfg : Attributes} {t : ℕ} {item : QueueDiscItem} {s : CoDelQueueDisc}

theorem dropLoop_of_not (fuel : ℕ) (hdrops : ¬ Drops cfg t item s) :
    (dropLoop cfg t fuel item s).2.1 = some item ∧
      (dropLoop cfg t fuel item s).2.2.queue = s.queue := by
  cases fuel with
  | zero => exact ⟨rfl, rfl⟩
  | succ fuel =>
    rw [dropLoop]
    split_ifs with htime hmark
    · exact ⟨rfl, rfl⟩
    · rw [Bool.and_eq_true, CoDelTimeAfterEq, decide_eq_true_iff] at htime
      exact absurd ⟨htime.1, htime.2, Bool.eq_false_of_not_eq_true hmark⟩ hdrops
    · exact ⟨rfl, rfl⟩

theorem dropLoop_of_nil (fuel : ℕ) (hdrops : Drops cfg t item s) (hqueue : s.queue = []) :
    (dropLoop cfg t (fuel + 1) item s).2.1 = none ∧
      (dropLoop cfg t (fuel + 1) item s).2.2.queue = [] := by
  obtain ⟨hdropping, htime, hmark⟩ := hdrops
  have hpop : s.countDrop.pop.1 = none := by
    rw [pop, countDrop_queue, hqueue]
    rfl
  have htail : s.countDrop.pop.2.queue = [] := congrArg List.tail hqueue
  rw [markable] at hmark
  rw [dropLoop, hdropping, CoDelTimeAfterEq, decide_eq_true htime, hmark, Bool.true_and,
    if_pos rfl, if_neg Bool.false_ne_true, hpop]
  exact ⟨rfl, (okToDrop_queue cfg _ none t).trans htail⟩

theorem dropLoop_of_cons (fuel : ℕ) {item' : QueueDiscItem} {queue : List QueueDiscItem}
    (hdrops : Drops cfg t item s) (hqueue : s.queue = item' :: queue) :
    (dropLoop cfg t (fuel + 1) item s).2 =
      if (okToDrop cfg { s.countDrop with queue } (some item') t).2 then
        (dropLoop cfg t fuel item'
          ((okToDrop cfg { s.countDrop with queue } (some item') t).1.scheduleDrop cfg
            (okToDrop cfg { s.countDrop with queue } (some item') t).1.m_dropNext)).2
      else
        (some item',
          { (okToDrop cfg { s.countDrop with queue } (some item') t).1 with m_dropping := false }) := by
  obtain ⟨hdropping, htime, hmark⟩ := hdrops
  have hpop : s.countDrop.pop = (some item', { s.countDrop with queue }) := by
    rw [pop, countDrop_queue, hqueue]
    rfl
  rw [markable] at hmark
  rw [dropLoop, hdropping, CoDelTimeAfterEq, decide_eq_true htime, hmark, Bool.true_and,
    if_pos rfl, if_neg Bool.false_ne_true, hpop]
  dsimp only
  generalize okToDrop cfg { s.countDrop with queue } (some item') t = r
  obtain ⟨s₁, ok⟩ := r
  cases ok with
  | false => rfl
  | true => rfl

/-- **The loop drops packets from the front of the queue.** -/
theorem takes_dropLoop (cfg : Attributes) (t fuel : ℕ) (item : QueueDiscItem) (s : CoDelQueueDisc) :
    Takes (item :: s.queue) (dropLoop cfg t fuel item s) := by
  induction fuel generalizing item s with
  | zero => exact Takes.of_some rfl (List.suffix_refl _)
  | succ fuel ih =>
    by_cases hdrops : Drops cfg t item s
    · cases hqueue : s.queue with
      | nil =>
        obtain ⟨hitem, hempty⟩ := dropLoop_of_nil fuel hdrops hqueue
        exact Takes.of_none hitem hempty
      | cons item' queue =>
        have hcons := dropLoop_of_cons fuel hdrops hqueue
        have hkept := okToDrop_queue cfg { s.countDrop with queue } (some item') t
        have hrest := ih item' ((okToDrop cfg { s.countDrop with queue } (some item') t).1.scheduleDrop
          cfg (okToDrop cfg { s.countDrop with queue } (some item') t).1.m_dropNext)
        rw [scheduleDrop_queue, hkept] at hrest
        split_ifs at hcons with hok
        · have htakes := hrest.cons item (dropLoop cfg t (fuel + 1) item s).1
          rw [← hcons] at htakes
          exact htakes
        · refine Takes.of_some (congrArg Prod.fst hcons) ?_
          rw [hcons]
          exact hkept.symm ▸ List.suffix_cons _ _
    · obtain ⟨hitem, hsame⟩ := dropLoop_of_not (fuel + 1) hdrops
      exact Takes.of_some hitem (hsame.symm ▸ List.suffix_refl _)

end Loop

/-! ## A call -/

theorem takes_enterDropping (cfg : Attributes) (s : CoDelQueueDisc) (item : QueueDiscItem) (t : ℕ) :
    Takes (item :: s.queue) (s.enterDropping cfg item t) := by
  unfold enterDropping
  cases cfg.m_useEcn && item.packet.ecnCapable with
  | true =>
    refine Takes.of_some rfl ?_
    dsimp only
    rw [if_pos rfl, scheduleDrop_queue, restart_queue]
  | false =>
    have hkept := okToDrop_queue cfg s.pop.2 s.pop.1 t
    cases hqueue : s.queue with
    | nil =>
      refine Takes.of_none ?_ ?_
      · rw [if_neg Bool.false_ne_true, pop, hqueue]
        rfl
      · dsimp only
        rw [if_neg Bool.false_ne_true, scheduleDrop_queue, restart_queue]
        exact hkept.trans (congrArg List.tail hqueue)
    | cons item' queue =>
      refine Takes.of_some (show _ = some item' from ?_) ?_
      · rw [if_neg Bool.false_ne_true, pop, hqueue]
        rfl
      · dsimp only
        rw [if_neg Bool.false_ne_true, scheduleDrop_queue, restart_queue]
        exact (hkept.trans (congrArg List.tail hqueue)).symm ▸ List.suffix_cons _ _

theorem finish_eq_none {cfg : Attributes} {t : ℕ}
    {r : List Event × Option QueueDiscItem × CoDelQueueDisc} :
    finish cfg t r = none ↔ r.2.1 = none := by
  obtain ⟨events, item, s⟩ := r
  cases item with
  | none => exact iff_of_true rfl rfl
  | some item =>
    refine iff_of_false ?_ (Option.some_ne_none _)
    unfold finish
    dsimp only
    split_ifs
    · exact not_false
    · exact not_false

theorem Takes.finish {items : List QueueDiscItem}
    {r : List Event × Option QueueDiscItem × CoDelQueueDisc} (h : Takes items r) {cfg : Attributes}
    {t : ℕ} {s' : CoDelQueueDisc} {events : List Event} (hfinish : finish cfg t r = some (s', events)) :
    ∃ item, returned events = some item.packet ∧ item :: s'.queue <:+ items := by
  obtain ⟨before, i, s⟩ := r
  cases i with
  | none => cases hfinish
  | some item =>
    refine ⟨item, ?_⟩
    unfold CoDelQueueDisc.finish at hfinish
    dsimp only at hfinish
    split_ifs at hfinish
    · rw [Option.some.injEq, Prod.mk.injEq] at hfinish
      obtain ⟨rfl, rfl⟩ := hfinish
      exact ⟨by simp [returned], h.suffix item rfl⟩
    · rw [Option.some.injEq, Prod.mk.injEq] at hfinish
      obtain ⟨rfl, rfl⟩ := hfinish
      exact ⟨by simp [returned], h.suffix item rfl⟩

/-- **A call keeps the order**: it returns a packet of the queue and leaves those behind it. -/
theorem doDequeue_takes {cfg : Attributes} {s s' : CoDelQueueDisc} {t : ℕ} {events : List Event}
    (hqueue : s.queue ≠ []) (hcall : s.doDequeue cfg t = some (s', events)) :
    ∃ item, returned events = some item.packet ∧ item :: s'.queue <:+ s.queue := by
  obtain ⟨item, queue, hcons⟩ := List.exists_cons_of_ne_nil hqueue
  have hkept := okToDrop_queue cfg { s with queue } (some item) t
  unfold doDequeue at hcall
  rw [hcons] at hcall ⊢
  dsimp only at hcall hkept
  refine Takes.finish ?_ hcall
  generalize okToDrop cfg { s with queue } (some item) t = r at *
  obtain ⟨s₁, ok⟩ := r
  dsimp only at hkept ⊢
  rw [← hkept]
  split_ifs
  · exact takes_dropLoop cfg t _ item s₁
  · exact Takes.of_some rfl (List.suffix_refl _)
  · exact takes_enterDropping cfg s₁ item t
  · exact Takes.of_some rfl (List.suffix_refl _)

/-! ## The last packet -/

/-- The delay of an item is not below the target. -/
def Late (cfg : Attributes) (t : ℕ) (item : QueueDiscItem) : Prop :=
  time2CoDel cfg.m_target ≤ time2CoDel (t - item.timeStamp)

/-- What a drop of the loop does to the counter and to the time of the next one. -/
def nextDrop (cfg : Attributes) (s : CoDelQueueDisc) : CoDelQueueDisc :=
  s.countDrop.scheduleDrop cfg s.m_dropNext

/-- The time of the next drop after `k` drops of the loop. -/
def dropTime (cfg : Attributes) (s : CoDelQueueDisc) (k : ℕ) : ℕ :=
  ((nextDrop cfg)^[k] s).m_dropNext

theorem dropTime_succ (cfg : Attributes) (s : CoDelQueueDisc) (k : ℕ) :
    dropTime cfg s (k + 1) = dropTime cfg (nextDrop cfg s) k := by
  rw [dropTime, Function.iterate_succ_apply, ← dropTime]

theorem dropTime_queue (cfg : Attributes) (s : CoDelQueueDisc) (queue : List QueueDiscItem) (k : ℕ) :
    dropTime cfg { s with queue } k = dropTime cfg s k := by
  induction k generalizing s with
  | zero => rfl
  | succ k ih =>
    rw [dropTime_succ, dropTime_succ]
    exact ih (nextDrop cfg s)

/-- A call that drops every packet of the queue: there is no byte threshold, every packet is late and not
to be marked, and a drop is due for each one. -/
structure Exhausts (cfg : Attributes) (s : CoDelQueueDisc) (t : ℕ) : Prop where
  minBytes : cfg.m_minBytes = 0
  nonempty : s.queue ≠ []
  first : s.m_firstAboveTime ≠ 0
  after : s.m_firstAboveTime < time2CoDel t
  late : ∀ item ∈ s.queue, Late cfg t item
  unmarkable : ∀ item ∈ s.queue, markable cfg item = false
  due : s.m_dropping = true → ∀ k < s.queue.length, s.dropTime cfg k ≤ time2CoDel t
  single : s.m_dropping = false → s.queue.length = 1

section NoThreshold

variable {cfg : Attributes} {t : ℕ} {s : CoDelQueueDisc}

theorem okToDrop_iff (hmin : cfg.m_minBytes = 0) (item : QueueDiscItem) :
    (s.okToDrop cfg (some item) t).2 = true ↔
      s.m_firstAboveTime ≠ 0 ∧ s.m_firstAboveTime < time2CoDel t ∧ Late cfg t item := by
  have hbelow : isBelow cfg s.queue item t = true ↔ ¬ Late cfg t item := by
    rw [isBelow, hmin, CoDelTimeBefore, Bool.or_eq_true, decide_eq_true_iff, decide_eq_true_iff, Late,
      not_le]
    exact or_iff_left (Nat.not_lt_zero _)
  unfold okToDrop
  dsimp only
  split_ifs with h hzero
  · exact iff_of_false not_false fun hok ↦ hbelow.mp h hok.2.2
  · exact iff_of_false not_false fun hok ↦ hok.1 hzero
  · rw [CoDelTimeAfter, decide_eq_true_iff]
    exact ⟨fun hlt ↦ ⟨hzero, hlt, not_not.mp (mt hbelow.mpr h)⟩, fun hok ↦ hok.2.1⟩

theorem okToDrop_state {item : QueueDiscItem} (hok : (s.okToDrop cfg (some item) t).2 = true) :
    (s.okToDrop cfg (some item) t).1 = s := by
  unfold okToDrop at hok ⊢
  dsimp only at hok ⊢
  split_ifs at hok ⊢
  rfl

/-- **The loop drops the last packet** if all of them are late and a drop is due for each one. -/
theorem dropLoop_eq_none_iff (hmin : cfg.m_minBytes = 0) (item : QueueDiscItem) {fuel : ℕ}
    (hfirst : s.m_firstAboveTime ≠ 0) (hafter : s.m_firstAboveTime < time2CoDel t)
    (hdropping : s.m_dropping = true) (hfuel : s.queue.length < fuel) :
    (dropLoop cfg t fuel item s).2.1 = none ↔
      (∀ i ∈ s.queue, Late cfg t i) ∧ (∀ i ∈ item :: s.queue, markable cfg i = false) ∧
        ∀ k ≤ s.queue.length, s.dropTime cfg k ≤ time2CoDel t := by
  induction fuel generalizing item s with
  | zero => exact absurd hfuel (Nat.not_lt_zero _)
  | succ fuel ih =>
    by_cases hdrops : Drops cfg t item s
    · cases hqueue : s.queue with
      | nil =>
        refine iff_of_true (dropLoop_of_nil fuel hdrops hqueue).1 ⟨by simp, ?_, ?_⟩
        · rintro i hi
          rw [List.mem_singleton.mp hi]
          exact hdrops.2.2
        · rintro k hk
          rw [Nat.le_zero.mp hk]
          exact hdrops.2.1
      | cons item' queue =>
        have hcons := dropLoop_of_cons fuel hdrops hqueue
        have hiff := okToDrop_iff (s := { s.countDrop with queue }) (t := t) hmin item'
        rw [hcons]
        by_cases hok : (okToDrop cfg { s.countDrop with queue } (some item') t).2 = true
        · have hlength : queue.length < fuel := by
            rw [hqueue] at hfuel
            exact Nat.lt_of_succ_lt_succ hfuel
          have hrest := ih item' (s := { nextDrop cfg s with queue }) hfirst hafter hdropping hlength
          rw [if_pos hok, okToDrop_state hok]
          refine hrest.trans ?_
          simp only [dropTime_queue, ← dropTime_succ, List.forall_mem_cons, List.length_cons]
          refine and_congr (iff_and_self.mpr fun _ ↦ (hiff.mp hok).2.2) ?_
          refine and_congr (iff_and_self.mpr fun _ ↦ hdrops.2.2) ⟨?_, ?_⟩
          · rintro hdue k hk
            cases k with
            | zero => exact hdrops.2.1
            | succ k => exact hdue k (Nat.le_of_succ_le_succ hk)
          · rintro hdue k hk
            exact hdue (k + 1) (Nat.succ_le_succ hk)
        · rw [if_neg hok]
          refine iff_of_false (Option.some_ne_none _) ?_
          rintro ⟨hlate, -⟩
          exact hok (hiff.mpr ⟨hfirst, hafter, hlate item' List.mem_cons_self⟩)
    · refine iff_of_false ?_ ?_
      · rw [(dropLoop_of_not (fuel + 1) hdrops).1]
        exact Option.some_ne_none _
      · rintro ⟨-, hmark, hdue⟩
        exact hdrops ⟨hdropping, hdue 0 (Nat.zero_le _), hmark item List.mem_cons_self⟩

/-- **A call without a byte threshold** dereferences a null item if it exhausts the queue. -/
theorem doDequeue_eq_none_iff (hmin : cfg.m_minBytes = 0) :
    s.doDequeue cfg t = none ↔ Exhausts cfg s t := by
  by_cases hne : s.queue = []
  · rw [doDequeue_nil hne]
    exact iff_of_false (Option.some_ne_none _) fun h ↦ h.nonempty hne
  obtain ⟨item, queue, hqueue⟩ := List.exists_cons_of_ne_nil hne
  have hiff := okToDrop_iff (s := { s with queue }) (t := t) hmin item
  have hkept := okToDrop_dropping cfg { s with queue } (some item) t
  unfold doDequeue
  rw [hqueue]
  dsimp only at hiff hkept ⊢
  rw [finish_eq_none, hkept]
  by_cases hok : (okToDrop cfg { s with queue } (some item) t).2 = true
  · obtain ⟨hfirst, hafter, hlate⟩ := hiff.mp hok
    rw [okToDrop_state hok, hok]
    by_cases hdropping : s.m_dropping = true
    · have hloop := dropLoop_eq_none_iff (s := { s with queue }) (t := t) hmin item hfirst hafter
        hdropping (Nat.lt_succ_self _)
      rw [if_pos hdropping, if_pos rfl, hloop]
      simp only [dropTime_queue]
      constructor
      · rintro ⟨hrest, hmark, hdue⟩
        refine ⟨hmin, hne, hfirst, hafter, ?_, hqueue ▸ hmark, ?_, ?_⟩
        · rw [hqueue, List.forall_mem_cons]
          exact ⟨hlate, hrest⟩
        · rintro - k hk
          rw [hqueue] at hk
          exact hdue k (Nat.le_of_lt_succ hk)
        · exact fun h ↦ absurd (hdropping.symm.trans h) (by decide)
      · rintro h
        refine ⟨fun i hi ↦ h.late i (hqueue ▸ List.mem_cons_of_mem _ hi), hqueue ▸ h.unmarkable, ?_⟩
        rintro k hk
        refine h.due hdropping k ?_
        rw [hqueue]
        exact Nat.lt_succ_of_le hk
    · rw [if_neg hdropping, if_pos rfl]
      rw [Bool.not_eq_true] at hdropping
      have henter : (enterDropping cfg { s with queue } item t).2.1 = none ↔
          markable cfg item = false ∧ queue = [] := by
        unfold enterDropping markable
        cases cfg.m_useEcn && item.packet.ecnCapable with
        | true => exact iff_of_false (Option.some_ne_none _) fun h ↦ absurd h.1 (by decide)
        | false =>
          rw [if_neg Bool.false_ne_true]
          exact List.head?_eq_none_iff.trans (and_iff_right rfl).symm
      rw [henter]
      constructor
      · rintro ⟨hmark, rfl⟩
        refine ⟨hmin, hne, hfirst, hafter, ?_, ?_, ?_, ?_⟩
        · rw [hqueue, List.forall_mem_singleton]
          exact hlate
        · rw [hqueue, List.forall_mem_singleton]
          exact hmark
        · exact fun h ↦ absurd (hdropping.symm.trans h) (by decide)
        · exact fun _ ↦ congrArg List.length hqueue
      · rintro h
        have hsingle := h.single hdropping
        rw [hqueue, List.length_cons, Nat.add_eq_right, List.length_eq_zero_iff] at hsingle
        exact ⟨h.unmarkable item (hqueue ▸ List.mem_cons_self), hsingle⟩
  · rw [Bool.not_eq_true] at hok
    refine iff_of_false ?_ fun h ↦ ?_
    · rw [hok, if_neg Bool.false_ne_true, if_neg Bool.false_ne_true]
      split_ifs
      · exact not_false
      · exact not_false
    · refine absurd (hiff.mpr ⟨h.first, h.after, ?_⟩) (by rw [hok]; decide)
      exact h.late item (hqueue ▸ List.mem_cons_self)

end NoThreshold

/-! ## Safety -/

/-- A call of `DoDequeue` ends and dereferences no null item, and when it returns null the queue is empty
and the dropping state has been left. -/
def Safe (cfg : Attributes) (s : CoDelQueueDisc) (t : ℕ) : Prop :=
  (∀ item ∈ s.pop.1,
    LoopEnds cfg t s.queue.length item (s.pop.2.okToDrop cfg (some item) t).1) ∧
  ∃ s' events, s.doDequeue cfg t = some (s', events) ∧
    (returned events = none → s'.queue = [] ∧ s'.m_dropping = false)

/-- **A call is safe** unless it exhausts the queue. -/
theorem safe_iff_not_exhausts (cfg : Attributes) (s : CoDelQueueDisc) (t : ℕ) :
    Safe cfg s t ↔ ¬ Exhausts cfg s t := by
  constructor
  · rintro ⟨-, s', events, hcall, -⟩ h
    rw [(doDequeue_eq_none_iff h.minBytes).mpr h] at hcall
    cases hcall
  · rintro hnot
    refine ⟨?_, ?_⟩
    · rintro item hitem
      apply loopEnds_of_length_lt
      rw [okToDrop_queue, pop, List.length_tail]
      have hne : s.queue ≠ [] := by
        rintro hnil
        rw [pop, hnil] at hitem
        cases hitem
      exact Nat.sub_lt (List.length_pos_of_ne_nil hne) Nat.one_pos
    · by_cases hne : s.queue = []
      · exact ⟨_, _, doDequeue_nil hne cfg t, fun _ ↦ ⟨hne, rfl⟩⟩
      have hsome : s.doDequeue cfg t ≠ none := by
        rcases Nat.eq_zero_or_pos cfg.m_minBytes with hmin | hmin
        · exact mt (doDequeue_eq_none_iff hmin).mp hnot
        · obtain ⟨item, queue, hqueue⟩ := List.exists_cons_of_ne_nil hne
          obtain ⟨s', events, -, -, hcall, -⟩ := doDequeue_cons hmin hqueue t
          rw [hcall]
          exact Option.some_ne_none _
      obtain ⟨⟨s', events⟩, hcall⟩ := Option.ne_none_iff_exists'.mp hsome
      obtain ⟨item, hreturned, -⟩ := doDequeue_takes hne hcall
      refine ⟨s', events, hcall, fun hnone ↦ ?_⟩
      exact absurd (hreturned.symm.trans hnone) (Option.some_ne_none _)

/-- No byte threshold. -/
def noThreshold : Attributes := { defaults with m_minBytes := 0 }

/-- A packet that is still in the queue 120 ms after another one has been returned late. -/
def latePacket : CoDelQueueDisc :=
  { create with
    queue := [⟨⟨1, 1500, false⟩, 0⟩]
    m_firstAboveTime := add32 (time2CoDel 10000000) (time2CoDel 100000000) }

/-- The call drops that packet and dereferences a null item, in the state and in a run. -/
theorem not_safe : ¬ (∀ cfg s t, Safe cfg s t) ∧ latePacket.doDequeue noThreshold 120000000 = none ∧
    run noThreshold create [.enqueue ⟨0, 1500, false⟩ 0, .enqueue ⟨1, 1500, false⟩ 0,
      .dequeue 10000000, .dequeue 120000000] = none := by
  have hnone : latePacket.doDequeue noThreshold 120000000 = none := by decide
  refine ⟨?_, hnone, by decide⟩
  rintro hsafe
  obtain ⟨-, s', events, hcall, -⟩ := hsafe noThreshold latePacket 120000000
  rw [hnone] at hcall
  cases hcall

end CoDelQueueDisc

end TrafficControl

end Ns3
