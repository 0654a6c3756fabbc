import Ns3.Library.Span

/-!
# The CoDel queue discipline

CoDel keeps two instants in units of 1024 ns and 32 bits: when the delay will have been above its target
for an interval, which is zero while it is below, and when the next packet is to be dropped. The clock is
compared with them as a number and not as a difference modulo `2 ^ 32`.

If all times are shifted then the two runs stay in step as long as every such comparison comes out the
same: the shift takes both of the numbers over a multiple of `2 ^ 32`, or neither, and does not take an
instant to zero or away from it.
-/

namespace Ns3

namespace TrafficControl

/-- A packet, of which `Mark` succeeds if it is ECN capable. -/
structure Packet where
  uid : ℕ
  size : ℕ
  ecnCapable : Bool
deriving DecidableEq

/-- A `QueueDiscItem`, with the time in ns at which it was enqueued. -/
structure QueueDiscItem where
  packet : Packet
  timeStamp : ℕ
deriving DecidableEq

inductive QueueSizeUnit where
  | PACKETS
  | BYTES
deriving DecidableEq

inductive DropReason where
  | UNCLASSIFIED_DROP
  | OVERLIMIT_DROP
  | TARGET_EXCEEDED_DROP
deriving DecidableEq

inductive MarkReason where
  | TARGET_EXCEEDED_MARK
  | CE_THRESHOLD_EXCEEDED_MARK
deriving DecidableEq

/-- What a call does to a packet. -/
inductive Event where
  | drop (p : Packet) (reason : DropReason)
  | mark (p : Packet) (reason : MarkReason)
  | deliver (p : Packet)
deriving DecidableEq

namespace CoDel

/-- The attributes, with the times in ns. -/
structure Attributes where
  m_useEcn : Bool
  maxSizeUnit : QueueSizeUnit
  maxSize : ℕ
  m_minBytes : ℕ
  m_interval : ℕ
  m_target : ℕ
  m_ceThreshold : ℕ

/-- The default values. -/
def defaults : Attributes where
  m_useEcn := false
  maxSizeUnit := .BYTES
  maxSize := 1500 * 1000
  m_minBytes := 1500
  m_interval := 100000000
  m_target := 5000000
  m_ceThreshold := 2 ^ 63 - 1

end CoDel

open CoDel

/-- A `CoDelQueueDisc`, with its internal queue. -/
structure CoDelQueueDisc where
  queue : List QueueDiscItem
  m_count : ℕ
  m_lastCount : ℕ
  m_dropping : Bool
  m_recInvSqrt : ℕ
  m_firstAboveTime : ℕ
  m_dropNext : ℕ
deriving DecidableEq

namespace CoDelQueueDisc

/-! ## The clock and the control law -/

def CODEL_SHIFT : ℕ := 10

def REC_INV_SQRT_SHIFT : ℕ := 16

/-- `Time2CoDel`, and `CoDelGetTime` of the current time. -/
def time2CoDel (t : ℕ) : ℕ := (t >>> CODEL_SHIFT) % 2 ^ 32

def CoDelTimeAfter (a b : ℕ) : Bool := decide (b < a)

def CoDelTimeAfterEq (a b : ℕ) : Bool := decide (b ≤ a)

def CoDelTimeBefore (a b : ℕ) : Bool := decide (a < b)

def reciprocalDivide (A R : ℕ) : ℕ := (A * R) >>> 32 % 2 ^ 32

def newtonStep (recInvSqrt count : ℕ) : ℕ :=
  let invsqrt := recInvSqrt <<< REC_INV_SQRT_SHIFT % 2 ^ 32
  let invsqrt2 := (invsqrt * invsqrt) >>> 32
  let val := (3 <<< 32 + 2 ^ 64 - count * invsqrt2 % 2 ^ 64) % 2 ^ 64
  let val' := (val >>> 2 * invsqrt % 2 ^ 64) >>> (32 - 2 + 1)
  val' >>> REC_INV_SQRT_SHIFT % 2 ^ 16

def controlLaw (t interval recInvSqrt : ℕ) : ℕ :=
  add32 t (reciprocalDivide interval (recInvSqrt <<< REC_INV_SQRT_SHIFT % 2 ^ 32))

/-- The constructor. -/
def create : CoDelQueueDisc where
  queue := []
  m_count := 0
  m_lastCount := 0
  m_dropping := false
  m_recInvSqrt := (2 ^ 32 - 1) >>> REC_INV_SQRT_SHIFT
  m_firstAboveTime := 0
  m_dropNext := 0

/-! ## Enqueueing and dequeueing -/

/-- `GetNBytes` of the internal queue. -/
def nBytes (queue : List QueueDiscItem) : ℕ := (queue.map fun item ↦ item.packet.size).sum % 2 ^ 32

/-- `GetCurrentSize () + item > GetMaxSize ()`. -/
def exceedsMaxSize (cfg : Attributes) (s : CoDelQueueDisc) (p : Packet) : Bool :=
  match cfg.maxSizeUnit with
  | .PACKETS => decide (cfg.maxSize < add32 s.queue.length 1)
  | .BYTES => decide (cfg.maxSize < add32 (nBytes s.queue) p.size)

/-- `DoEnqueue` of a packet, which `Enqueue` has stamped with the time. -/
def doEnqueue (cfg : Attributes) (s : CoDelQueueDisc) (p : Packet) (t : ℕ) :
    CoDelQueueDisc × List Event :=
  if s.exceedsMaxSize cfg p then (s, [.drop p .OVERLIMIT_DROP])
  else ({ s with queue := s.queue ++ [⟨p, t⟩] }, [])

/-- Whether the delay of an item is below the target, or the queue is too short to drop from. -/
def isBelow (cfg : Attributes) (queue : List QueueDiscItem) (item : QueueDiscItem) (t : ℕ) : Bool :=
  CoDelTimeBefore (time2CoDel (t - item.timeStamp)) (time2CoDel cfg.m_target) ||
    decide (nBytes queue < cfg.m_minBytes)

def okToDrop (cfg : Attributes) (s : CoDelQueueDisc) (item : Option QueueDiscItem) (t : ℕ) :
    CoDelQueueDisc × Bool :=
  match item with
  | none => ({ s with m_firstAboveTime := 0 }, false)
  | some item =>
    if isBelow cfg s.queue item t then ({ s with m_firstAboveTime := 0 }, false)
    else if s.m_firstAboveTime = 0 then
      ({ s with m_firstAboveTime := add32 (time2CoDel t) (time2CoDel cfg.m_interval) }, false)
    else (s, CoDelTimeAfter (time2CoDel t) s.m_firstAboveTime)

/-- `++m_count; m_recInvSqrt = NewtonStep (m_recInvSqrt, m_count)`. -/
def countDrop (s : CoDelQueueDisc) : CoDelQueueDisc :=
  { s with
    m_count := add32 s.m_count 1
    m_recInvSqrt := newtonStep s.m_recInvSqrt (add32 s.m_count 1) }

/-- `m_dropNext = ControlLaw (t, Time2CoDel (m_interval), m_recInvSqrt)`. -/
def scheduleDrop (cfg : Attributes) (s : CoDelQueueDisc) (t : ℕ) : CoDelQueueDisc :=
  { s with m_dropNext := controlLaw t (time2CoDel cfg.m_interval) s.m_recInvSqrt }

/-- `Dequeue` of the internal queue. -/
def pop (s : CoDelQueueDisc) : Option QueueDiscItem × CoDelQueueDisc :=
  (s.queue.head?, { s with queue := s.queue.tail })

/-- The loop of `DoDequeue` in the dropping state, with the item that it holds; it takes at most `fuel`
packets out of the queue. -/
def dropLoop (cfg : Attributes) (t : ℕ) : ℕ → QueueDiscItem → CoDelQueueDisc →
    List Event × Option QueueDiscItem × CoDelQueueDisc
  | 0, item, s => ([], some item, s)
  | fuel + 1, item, s =>
    if s.m_dropping && CoDelTimeAfterEq (time2CoDel t) s.m_dropNext then
      if cfg.m_useEcn && item.packet.ecnCapable then
        ([.mark item.packet .TARGET_EXCEEDED_MARK], some item,
          s.countDrop.scheduleDrop cfg (time2CoDel t))
      else
        let r := s.countDrop.pop.2.okToDrop cfg s.countDrop.pop.1 t
        match s.countDrop.pop.1, r.2 with
        | some item', true =>
          let l := dropLoop cfg t fuel item' (r.1.scheduleDrop cfg r.1.m_dropNext)
          (.drop item.packet .TARGET_EXCEEDED_DROP :: l.1, l.2)
        | item', _ =>
          ([.drop item.packet .TARGET_EXCEEDED_DROP], item', { r.1 with m_dropping := false })
    else ([], some item, s)

/-- The counter with which the dropping state is entered. -/
def restart (cfg : Attributes) (s : CoDelQueueDisc) (t : ℕ) : CoDelQueueDisc :=
  -- `delta` is a signed number.
  if 1 < sub32 s.m_count s.m_lastCount ∧ sub32 s.m_count s.m_lastCount < 2 ^ 31 ∧
      CoDelTimeBefore (sub32 (time2CoDel t) s.m_dropNext) (16 * time2CoDel cfg.m_interval % 2 ^ 32) then
    { s with
      m_count := sub32 s.m_count s.m_lastCount
      m_recInvSqrt := newtonStep s.m_recInvSqrt (sub32 s.m_count s.m_lastCount) }
  else { s with m_count := 1, m_recInvSqrt := (2 ^ 32 - 1) >>> REC_INV_SQRT_SHIFT }

/-- `DoDequeue` where the dropping state is entered, with the item that it holds. -/
def enterDropping (cfg : Attributes) (s : CoDelQueueDisc) (item : QueueDiscItem) (t : ℕ) :
    List Event × Option QueueDiscItem × CoDelQueueDisc :=
  let r :=
    if cfg.m_useEcn && item.packet.ecnCapable then
      ([.mark item.packet .TARGET_EXCEEDED_MARK], some item, s)
    else ([.drop item.packet .TARGET_EXCEEDED_DROP], s.pop.1, (s.pop.2.okToDrop cfg s.pop.1 t).1)
  let s' := r.2.2.restart cfg t
  (r.1, r.2.1,
    { s' with m_lastCount := s'.m_count, m_dropping := true }.scheduleDrop cfg (time2CoDel t))

/-- The end of `DoDequeue`; `none` if it dereferences a null pointer. -/
def finish (cfg : Attributes) (t : ℕ) :
    List Event × Option QueueDiscItem × CoDelQueueDisc → Option (CoDelQueueDisc × List Event)
  | (_, none, _) => none
  | (events, some item, s) =>
    if cfg.m_useEcn && CoDelTimeAfter (time2CoDel (t - item.timeStamp)) (time2CoDel cfg.m_ceThreshold) &&
        item.packet.ecnCapable then
      some (s, events ++ [.mark item.packet .CE_THRESHOLD_EXCEEDED_MARK, .deliver item.packet])
    else some (s, events ++ [.deliver item.packet])

def doDequeue (cfg : Attributes) (s : CoDelQueueDisc) (t : ℕ) :
    Option (CoDelQueueDisc × List Event) :=
  match s.queue with
  | [] => some ({ s with m_dropping := false }, [])
  | item :: queue =>
    let r := { s with queue }.okToDrop cfg (some item) t
    finish cfg t
      (if r.1.m_dropping then
        if r.2 then dropLoop cfg t (queue.length + 1) item r.1
        else ([], some item, { r.1 with m_dropping := false })
      else if r.2 then enterDropping cfg r.1 item t
      else ([], some item, r.1))

/-! ## Runs -/

/-- A call, at a time in ns. -/
inductive Op where
  | enqueue (p : Packet) (t : ℕ)
  | dequeue (t : ℕ)
deriving DecidableEq

def step (cfg : Attributes) (s : CoDelQueueDisc) : Op → Option (CoDelQueueDisc × List Event)
  | .enqueue p t => some (s.doEnqueue cfg p t)
  | .dequeue t => s.doDequeue cfg t

/-- What each call of a run does. -/
def run (cfg : Attributes) : CoDelQueueDisc → List Op → Option (List (List Event))
  | _, [] => some []
  | s, op :: ops => (s.step cfg op).bind fun r ↦ (run cfg r.1 ops).map (r.2 :: ·)

/-- The same call, `k` units of the clock later. -/
def Op.shift (k : ℕ) : Op → Op
  | .enqueue p t => .enqueue p (t + 1024 * k)
  | .dequeue t => .dequeue (t + 1024 * k)

/-! ## What a call returns -/

/-- The packet that a call returns, which is the last thing that it does. -/
def returned (events : List Event) : Option Packet :=
  match events.getLast? with
  | some (.deliver p) => some p
  | _ => none

theorem okToDrop_dropping (cfg : Attributes) (s : CoDelQueueDisc) (item : Option QueueDiscItem)
    (t : ℕ) : (s.okToDrop cfg item t).1.m_dropping = s.m_dropping := by
  unfold okToDrop
  cases item with
  | none => rfl
  | some item =>
    dsimp only
    split_ifs
    · rfl
    · rfl
    · rfl

theorem okToDrop_queue (cfg : Attributes) (s : CoDelQueueDisc) (item : Option QueueDiscItem)
    (t : ℕ) : (s.okToDrop cfg item t).1.queue = s.queue := by
  unfold okToDrop
  cases item with
  | none => rfl
  | some item =>
    dsimp only
    split_ifs
    · rfl
    · rfl
    · rfl

theorem okToDrop_ne_nil {cfg : Attributes} (hmin : 0 < cfg.m_minBytes) {s : CoDelQueueDisc}
    {i : Option QueueDiscItem} {t : ℕ} (hok : (s.okToDrop cfg i t).2 = true) : s.queue ≠ [] := by
  rintro hnil
  unfold okToDrop at hok
  cases i with
  | none => cases hok
  | some item =>
    have hbelow : isBelow cfg s.queue item t = true := by
      rw [hnil, isBelow, Bool.or_eq_true]
      exact Or.inr (decide_eq_true hmin)
    dsimp only at hok
    rw [if_pos hbelow] at hok
    cases hok

/-- What a call holds after it has dropped packets: one of those that it had, and in the queue those
behind it. -/
def Kept (item : QueueDiscItem) (queue : List QueueDiscItem)
    (r : List Event × Option QueueDiscItem × CoDelQueueDisc) : Prop :=
  (∃ item' ∈ item :: queue, r.2.1 = some item') ∧ r.2.2.queue <:+ queue

theorem Kept.cons {item item' : QueueDiscItem} {queue : List QueueDiscItem} {events : List Event}
    {r : List Event × Option QueueDiscItem × CoDelQueueDisc} (h : Kept item' queue r) :
    Kept item (item' :: queue) (events, r.2) := by
  obtain ⟨⟨i, hmem, heq⟩, hsuffix⟩ := h
  exact ⟨⟨i, List.mem_cons_of_mem _ hmem, heq⟩, hsuffix.trans (List.suffix_cons _ _)⟩

theorem kept_dropLoop {cfg : Attributes} (hmin : 0 < cfg.m_minBytes) (t fuel : ℕ)
    (item : QueueDiscItem) {s : CoDelQueueDisc} (hne : s.queue ≠ []) :
    Kept item s.queue (dropLoop cfg t fuel item s) := by
  induction fuel generalizing item s with
  | zero => exact ⟨⟨item, List.mem_cons_self, rfl⟩, List.suffix_refl _⟩
  | succ fuel ih =>
    rw [dropLoop]
    split_ifs
    · exact ⟨⟨item, List.mem_cons_self, rfl⟩, List.suffix_refl _⟩
    · obtain ⟨item', queue, hqueue⟩ := List.exists_cons_of_ne_nil hne
      have hpop : s.countDrop.pop = (some item', { s.countDrop with queue }) := by
        unfold pop countDrop
        dsimp only
        rw [hqueue]
        rfl
      have hkept := okToDrop_queue cfg { s.countDrop with queue } (some item') t
      have htail := okToDrop_ne_nil hmin (s := { s.countDrop with queue }) (i := some item') (t := t)
      rw [hpop, hqueue]
      dsimp only at hkept htail ⊢
      generalize okToDrop cfg { s.countDrop with queue } (some item') t = r at *
      obtain ⟨s₁, ok⟩ := r
      cases ok with
      | false =>
        refine ⟨⟨item', List.mem_cons_of_mem _ List.mem_cons_self, rfl⟩, ?_⟩
        dsimp only at hkept ⊢
        rw [hkept]
        exact List.suffix_cons _ _
      | true =>
        dsimp only at hkept htail ⊢
        have := ih item' (s := s₁.scheduleDrop cfg s₁.m_dropNext) (by
          change s₁.queue ≠ []
          rw [hkept]
          exact htail rfl)
        change Kept item' s₁.queue _ at this
        rw [hkept] at this
        exact this.cons
    · exact ⟨⟨item, List.mem_cons_self, rfl⟩, List.suffix_refl _⟩

theorem restart_queue (cfg : Attributes) (s : CoDelQueueDisc) (t : ℕ) :
    (s.restart cfg t).queue = s.queue := by
  unfold restart
  split_ifs
  · rfl
  · rfl

theorem kept_enterDropping {cfg : Attributes} (t : ℕ) (item : QueueDiscItem) {s : CoDelQueueDisc}
    (hne : s.queue ≠ []) : Kept item s.queue (s.enterDropping cfg item t) := by
  unfold enterDropping scheduleDrop
  dsimp only
  split_ifs
  · refine ⟨⟨item, List.mem_cons_self, rfl⟩, ?_⟩
    dsimp only
    rw [restart_queue]
  · obtain ⟨item', queue, hqueue⟩ := List.exists_cons_of_ne_nil hne
    have hpop : s.pop = (some item', { s with queue }) := by
      unfold pop
      rw [hqueue]
      rfl
    rw [hpop, hqueue]
    refine ⟨⟨item', List.mem_cons_of_mem _ List.mem_cons_self, rfl⟩, ?_⟩
    dsimp only
    rw [restart_queue, okToDrop_queue]
    exact List.suffix_cons _ _

theorem Kept.finish {cfg : Attributes} {t : ℕ} {item : QueueDiscItem} {queue : List QueueDiscItem}
    {r : List Event × Option QueueDiscItem × CoDelQueueDisc} (h : Kept item queue r) :
    ∃ s' events, ∃ item' ∈ item :: queue, finish cfg t r = some (s', events) ∧
      returned events = some item'.packet ∧ s'.queue <:+ queue := by
  obtain ⟨⟨item', hmem, heq⟩, hsuffix⟩ := h
  obtain ⟨events, i, s'⟩ := r
  dsimp only at heq hsuffix
  subst heq
  unfold CoDelQueueDisc.finish
  dsimp only
  split_ifs
  · exact ⟨s', _, item', hmem, rfl, by simp [returned], hsuffix⟩
  · exact ⟨s', _, item', hmem, rfl, by simp [returned], hsuffix⟩

/-- **A call returns a packet** if there is one, and no null pointer is dereferenced. -/
theorem doDequeue_cons {cfg : Attributes} (hmin : 0 < cfg.m_minBytes) {s : CoDelQueueDisc}
    {item : QueueDiscItem} {queue : List QueueDiscItem} (hqueue : s.queue = item :: queue) (t : ℕ) :
    ∃ s' events, ∃ item' ∈ s.queue, s.doDequeue cfg t = some (s', events) ∧
      returned events = some item'.packet ∧ s'.queue <:+ queue := by
  have hkept := okToDrop_queue cfg { s with queue } (some item) t
  have htail := okToDrop_ne_nil hmin (s := { s with queue }) (i := some item) (t := t)
  unfold doDequeue
  rw [hqueue]
  dsimp only at hkept htail ⊢
  apply Kept.finish
  generalize okToDrop cfg { s with queue } (some item) t = r at *
  obtain ⟨s₁, ok⟩ := r
  dsimp only at hkept htail ⊢
  rw [← hkept] at htail ⊢
  split_ifs with hdropping hok hok
  · exact kept_dropLoop hmin t _ item (htail hok)
  · exact ⟨⟨item, List.mem_cons_self, rfl⟩, List.suffix_refl _⟩
  · exact kept_enterDropping t item (htail hok)
  · exact ⟨⟨item, List.mem_cons_self, rfl⟩, List.suffix_refl _⟩

theorem doDequeue_nil {s : CoDelQueueDisc} (hqueue : s.queue = []) (cfg : Attributes) (t : ℕ) :
    s.doDequeue cfg t = some ({ s with m_dropping := false }, []) := by
  unfold doDequeue
  rw [hqueue]

/-! ## The comparisons of a call -/

/-- Both of two instants, `k` units later, compare as they do now. -/
def SameSide (k a b : ℕ) : Prop := a < b ↔ add32 a k < add32 b k

instance (k a b : ℕ) : Decidable (SameSide k a b) := inferInstanceAs (Decidable (_ ↔ _))

/-- A call of `OkToDrop` compares the clock with an instant on the same side of it `k` units later, and
does not set an instant that is zero now or then but not both. -/
def OkStable (cfg : Attributes) (k : ℕ) (s : CoDelQueueDisc) (item : Option QueueDiscItem) (t : ℕ) :
    Prop :=
  match item with
  | none => True
  | some i =>
    isBelow cfg s.queue i t = false →
      if s.m_firstAboveTime = 0 then
        (add32 (time2CoDel t) (time2CoDel cfg.m_interval) = 0 ↔
          add32 (add32 (time2CoDel t) (time2CoDel cfg.m_interval)) k = 0)
      else SameSide k s.m_firstAboveTime (time2CoDel t)

instance (cfg : Attributes) (k : ℕ) (s : CoDelQueueDisc) (t : ℕ) :
    ∀ item, Decidable (OkStable cfg k s item t)
  | none => inferInstanceAs (Decidable True)
  | some i => inferInstanceAs (Decidable (isBelow cfg s.queue i t = false → ite _ _ _))

/-- The same of the comparisons of the loop. -/
def LoopStable (cfg : Attributes) (k t : ℕ) : ℕ → QueueDiscItem → CoDelQueueDisc → Prop
  | 0, _, _ => True
  | fuel + 1, item, s =>
    SameSide k (time2CoDel t) s.m_dropNext ∧
      (CoDelTimeAfterEq (time2CoDel t) s.m_dropNext = true →
        (cfg.m_useEcn && item.packet.ecnCapable) = false →
        OkStable cfg k s.countDrop.pop.2 s.countDrop.pop.1 t ∧
          ∀ item' ∈ s.countDrop.pop.1,
            (s.countDrop.pop.2.okToDrop cfg s.countDrop.pop.1 t).2 = true →
            LoopStable cfg k t fuel item'
              ((s.countDrop.pop.2.okToDrop cfg s.countDrop.pop.1 t).1.scheduleDrop cfg
                (s.countDrop.pop.2.okToDrop cfg s.countDrop.pop.1 t).1.m_dropNext))

instance decidableLoopStable (cfg : Attributes) (k t : ℕ) : ∀ fuel item s,
    Decidable (LoopStable cfg k t fuel item s)
  | 0, _, _ => inferInstanceAs (Decidable True)
  | fuel + 1, _, _ =>
    have := decidableLoopStable cfg k t fuel
    inferInstanceAs (Decidable (_ ∧ (_ → _ → _ ∧ _)))

/-- The same of all comparisons of a call of `DoDequeue`. -/
def DequeueStable (cfg : Attributes) (k : ℕ) (s : CoDelQueueDisc) (t : ℕ) : Prop :=
  ∀ item ∈ s.pop.1,
    let r := s.pop.2.okToDrop cfg (some item) t
    OkStable cfg k s.pop.2 (some item) t ∧
      (r.2 = true → r.1.m_dropping = true → LoopStable cfg k t s.queue.length item r.1) ∧
      (r.2 = true → r.1.m_dropping = false → (cfg.m_useEcn && item.packet.ecnCapable) = false →
        OkStable cfg k r.1.pop.2 r.1.pop.1 t)

instance (cfg : Attributes) (k : ℕ) (s : CoDelQueueDisc) (t : ℕ) :
    Decidable (DequeueStable cfg k s t) :=
  inferInstanceAs (Decidable (∀ item ∈ s.pop.1, _ ∧ (_ → _ → _) ∧ (_ → _ → _ → _)))

/-- The same of all calls of a run. -/
def RunStable (cfg : Attributes) (k : ℕ) : CoDelQueueDisc → List Op → Prop
  | _, [] => True
  | s, .enqueue p t :: ops => RunStable cfg k (s.doEnqueue cfg p t).1 ops
  | s, .dequeue t :: ops =>
    DequeueStable cfg k s t ∧ ∀ r ∈ s.doDequeue cfg t, RunStable cfg k r.1 ops

instance decidableRunStable (cfg : Attributes) (k : ℕ) : ∀ s ops, Decidable (RunStable cfg k s ops)
  | _, [] => inferInstanceAs (Decidable True)
  | s, .enqueue p t :: ops => decidableRunStable cfg k (s.doEnqueue cfg p t).1 ops
  | s, .dequeue t :: ops =>
    have := fun s' ↦ decidableRunStable cfg k s' ops
    inferInstanceAs (Decidable (_ ∧ ∀ r ∈ s.doDequeue cfg t, _))

/-! ## Shifted states -/

/-- The same item, stamped `k` units of the clock later. -/
def shiftItem (k : ℕ) (item : QueueDiscItem) : QueueDiscItem :=
  { item with timeStamp := item.timeStamp + 1024 * k }

/-- The states of two runs, one of them `k` units later. Zero is no instant, and the next drop is not
looked at before the dropping state has been entered once. -/
structure Related (k : ℕ) (s s' : CoDelQueueDisc) : Prop where
  queue : s'.queue = s.queue.map (shiftItem k)
  count : s'.m_count = s.m_count
  lastCount : s'.m_lastCount = s.m_lastCount
  dropping : s'.m_dropping = s.m_dropping
  recInvSqrt : s'.m_recInvSqrt = s.m_recInvSqrt
  first : s'.m_firstAboveTime = if s.m_firstAboveTime = 0 then 0 else add32 s.m_firstAboveTime k
  first_ne_zero : s.m_firstAboveTime ≠ 0 → add32 s.m_firstAboveTime k ≠ 0
  next : s'.m_dropNext = add32 s.m_dropNext k ∨ s.m_dropping = false ∧ s.m_count = s.m_lastCount

theorem related_create (k : ℕ) : Related k create create where
  queue := rfl
  count := rfl
  lastCount := rfl
  dropping := rfl
  recInvSqrt := rfl
  first := rfl
  first_ne_zero h := absurd rfl h
  next := Or.inr ⟨rfl, rfl⟩

theorem time2CoDel_shift (t k : ℕ) : time2CoDel (t + 1024 * k) = add32 (time2CoDel t) k := by
  rw [time2CoDel, time2CoDel, add32, CODEL_SHIFT, Nat.shiftRight_eq_div_pow,
    Nat.shiftRight_eq_div_pow, Nat.mod_add_mod, Nat.add_mul_div_left _ _ (by decide)]

theorem add32_right_comm (a b k : ℕ) : add32 (add32 a k) b = add32 (add32 a b) k := by
  rw [add32, add32, add32, add32, Nat.mod_add_mod, Nat.mod_add_mod, Nat.add_right_comm]

theorem controlLaw_shift (t k interval recInvSqrt : ℕ) :
    controlLaw (add32 t k) interval recInvSqrt = add32 (controlLaw t interval recInvSqrt) k :=
  add32_right_comm _ _ _

theorem sub32_shift (a b k : ℕ) : sub32 (add32 a k) (add32 b k) = sub32 a b := by
  rw [sub32, sub32, add32, add32]
  omega

theorem nBytes_map (k : ℕ) (queue : List QueueDiscItem) :
    nBytes (queue.map (shiftItem k)) = nBytes queue := by
  rw [nBytes, List.map_map]
  rfl

theorem isBelow_shift (cfg : Attributes) (k : ℕ) (queue : List QueueDiscItem) (item : QueueDiscItem)
    (t : ℕ) : isBelow cfg (queue.map (shiftItem k)) (shiftItem k item) (t + 1024 * k) =
      isBelow cfg queue item t := by
  rw [isBelow, nBytes_map, shiftItem, Nat.add_sub_add_right]
  rfl

section Related

variable {cfg : Attributes} {k t : ℕ} {s s' : CoDelQueueDisc}

theorem Related.doEnqueue (h : Related k s s') (cfg : Attributes) (p : Packet) (t : ℕ) :
    (s'.doEnqueue cfg p (t + 1024 * k)).2 = (s.doEnqueue cfg p t).2 ∧
      Related k (s.doEnqueue cfg p t).1 (s'.doEnqueue cfg p (t + 1024 * k)).1 := by
  have hmax : s'.exceedsMaxSize cfg p = s.exceedsMaxSize cfg p := by
    rw [exceedsMaxSize, h.queue, nBytes_map, List.length_map]
    rfl
  unfold CoDelQueueDisc.doEnqueue
  rw [hmax]
  split_ifs
  · exact ⟨rfl, h⟩
  · refine ⟨rfl, { h with queue := ?_ }⟩
    rw [h.queue, List.map_append]
    rfl

theorem Related.okToDrop (h : Related k s s') {item : Option QueueDiscItem}
    (hstable : OkStable cfg k s item t) :
    (s'.okToDrop cfg (item.map (shiftItem k)) (t + 1024 * k)).2 = (s.okToDrop cfg item t).2 ∧
      Related k (s.okToDrop cfg item t).1
        (s'.okToDrop cfg (item.map (shiftItem k)) (t + 1024 * k)).1 := by
  cases item with
  | none => exact ⟨rfl, { h with first := rfl, first_ne_zero := fun hne ↦ absurd rfl hne }⟩
  | some item =>
    have hok := hstable
    have hbelow' : isBelow cfg s'.queue (shiftItem k item) (t + 1024 * k) =
        isBelow cfg s.queue item t := by rw [h.queue, isBelow_shift]
    unfold CoDelQueueDisc.okToDrop
    simp only [Option.map_some]
    rw [hbelow', time2CoDel_shift]
    cases hbelow : isBelow cfg s.queue item t with
    | true =>
      rw [if_pos rfl, if_pos rfl]
      exact ⟨rfl, { h with first := rfl, first_ne_zero := fun hne ↦ absurd rfl hne }⟩
    | false =>
      have hok' := hok hbelow
      rw [if_neg Bool.false_ne_true, if_neg Bool.false_ne_true]
      by_cases hzero : s.m_firstAboveTime = 0
      · -- The instant is set, in both runs.
        have hzero' : s'.m_firstAboveTime = 0 := by rw [h.first, if_pos hzero]
        rw [if_pos hzero] at hok' ⊢
        rw [if_pos hzero', add32_right_comm]
        refine ⟨rfl, { h with first := ?_, first_ne_zero := fun hne ↦ (not_congr hok').mp hne }⟩
        dsimp only
        split_ifs with hinstant
        · exact hok'.mp hinstant
        · rfl
      · have hfirst : s'.m_firstAboveTime = add32 s.m_firstAboveTime k := by
          rw [h.first, if_neg hzero]
        have hzero' : s'.m_firstAboveTime ≠ 0 := by
          rw [hfirst]
          exact h.first_ne_zero hzero
        rw [if_neg hzero] at hok' ⊢
        rw [if_neg hzero', hfirst]
        exact ⟨decide_eq_decide.mpr hok'.symm, h⟩

theorem Related.pop (h : Related k s s') :
    s'.pop.1 = s.pop.1.map (shiftItem k) ∧ Related k s.pop.2 s'.pop.2 := by
  unfold CoDelQueueDisc.pop
  rw [h.queue]
  exact ⟨List.head?_map, { h with queue := List.map_tail.symm }⟩

theorem Related.dropNext (h : Related k s s') (hdropping : s.m_dropping = true) :
    s'.m_dropNext = add32 s.m_dropNext k :=
  h.next.resolve_right fun hfalse ↦ Bool.false_ne_true (hfalse.1.symm.trans hdropping)

theorem Related.countDrop (h : Related k s s') (hdropping : s.m_dropping = true) :
    Related k s.countDrop s'.countDrop :=
  { h with
    count := congrArg (add32 · 1) h.count
    recInvSqrt := congrArg₂ newtonStep h.recInvSqrt (congrArg (add32 · 1) h.count)
    next := Or.inl (h.dropNext hdropping) }

theorem Related.leave (h : Related k s s') :
    Related k { s with m_dropping := false } { s' with m_dropping := false } :=
  { h with dropping := rfl, next := h.next.imp id fun hnext ↦ ⟨rfl, hnext.2⟩ }

theorem Related.scheduleDrop (h : Related k s s') (cfg : Attributes) (t : ℕ) :
    Related k (s.scheduleDrop cfg t) (s'.scheduleDrop cfg (add32 t k)) := by
  have hnext : controlLaw (add32 t k) (time2CoDel cfg.m_interval) s'.m_recInvSqrt =
      add32 (controlLaw t (time2CoDel cfg.m_interval) s.m_recInvSqrt) k := by
    rw [controlLaw_shift, h.recInvSqrt]
  exact { h with next := Or.inl hnext }

/-- What two calls have done so far: the same events, the same item, and states that are still
related. -/
def RelatedResult (k : ℕ) (r r' : List Event × Option QueueDiscItem × CoDelQueueDisc) : Prop :=
  r'.1 = r.1 ∧ r'.2.1 = r.2.1.map (shiftItem k) ∧ Related k r.2.2 r'.2.2

/-- **The loop drops and marks the same packets.** -/
theorem Related.dropLoop (fuel : ℕ) (item : QueueDiscItem) (h : Related k s s')
    (hdropping : s.m_dropping = true) (hstable : LoopStable cfg k t fuel item s) :
    RelatedResult k (dropLoop cfg t fuel item s)
      (dropLoop cfg (t + 1024 * k) fuel (shiftItem k item) s') := by
  induction fuel generalizing item s s' with
  | zero => exact ⟨rfl, rfl, h⟩
  | succ fuel ih =>
    obtain ⟨hside, hrest⟩ := hstable
    have hafter : CoDelTimeAfterEq (time2CoDel (t + 1024 * k)) s'.m_dropNext =
        CoDelTimeAfterEq (time2CoDel t) s.m_dropNext := by
      rw [time2CoDel_shift, h.dropNext hdropping]
      exact decide_eq_decide.mpr (not_lt.symm.trans ((not_congr hside.symm).trans not_lt))
    rw [CoDelQueueDisc.dropLoop, CoDelQueueDisc.dropLoop, hafter, h.dropping, hdropping, Bool.true_and]
    cases htime : CoDelTimeAfterEq (time2CoDel t) s.m_dropNext with
    | false => exact ⟨rfl, rfl, h⟩
    | true =>
      rw [if_pos rfl, if_pos rfl]
      have hcount := h.countDrop hdropping
      change RelatedResult k _ (if (cfg.m_useEcn && item.packet.ecnCapable) = true then _ else _)
      cases hecn : cfg.m_useEcn && item.packet.ecnCapable with
      | true =>
        rw [if_pos rfl, if_pos rfl, time2CoDel_shift]
        exact ⟨rfl, rfl, hcount.scheduleDrop cfg _⟩
      | false =>
        rw [if_neg Bool.false_ne_true, if_neg Bool.false_ne_true]
        obtain ⟨hok, hloop⟩ := hrest htime hecn
        obtain ⟨hitem, hpop⟩ := hcount.pop
        obtain ⟨hsame, hrelated⟩ := hpop.okToDrop hok
        have hdropping' := (okToDrop_dropping cfg s.countDrop.pop.2 s.countDrop.pop.1 t).trans hdropping
        rw [← hitem] at hsame hrelated
        dsimp only at hloop ⊢
        generalize CoDelQueueDisc.okToDrop cfg s.countDrop.pop.2 s.countDrop.pop.1 t = r at *
        generalize CoDelQueueDisc.okToDrop cfg s'.countDrop.pop.2 s'.countDrop.pop.1 (t + 1024 * k) =
          r' at *
        rw [hsame, hitem]
        obtain ⟨s₁, ok⟩ := r
        cases hpopped : s.countDrop.pop.1 with
        | none => exact ⟨rfl, rfl, hrelated.leave⟩
        | some item' =>
          cases ok with
          | false => exact ⟨rfl, rfl, hrelated.leave⟩
          | true =>
            have hnext := hrelated.scheduleDrop cfg s₁.m_dropNext
            rw [← hrelated.dropNext hdropping'] at hnext
            obtain ⟨hevents, hres⟩ := ih item' hnext hdropping' (hloop item' hpopped rfl)
            exact ⟨congrArg (Event.drop item.packet .TARGET_EXCEEDED_DROP :: ·) hevents, hres⟩

theorem sub32_self (a : ℕ) : sub32 a a = 0 := by
  rw [sub32]
  omega

theorem Related.setCount (h : Related k s s') {n c c' r r' : ℕ} (hc : c' = c) (hr : r' = r) :
    Related k
      ({ s with
        m_count := c
        m_recInvSqrt := r
        m_lastCount := c
        m_dropping := true }.scheduleDrop cfg n)
      ({ s' with
        m_count := c'
        m_recInvSqrt := r'
        m_lastCount := c'
        m_dropping := true }.scheduleDrop cfg (add32 n k)) := by
  subst hc hr
  exact { h with
    count := rfl, lastCount := rfl, dropping := rfl, recInvSqrt := rfl
    next := Or.inl (controlLaw_shift _ _ _ _) }

theorem Related.restart (h : Related k s s') :
    Related k
      ({ s.restart cfg t with
        m_lastCount := (s.restart cfg t).m_count
        m_dropping := true }.scheduleDrop cfg (time2CoDel t))
      ({ s'.restart cfg (t + 1024 * k) with
        m_lastCount := (s'.restart cfg (t + 1024 * k)).m_count
        m_dropping := true }.scheduleDrop cfg (add32 (time2CoDel t) k)) := by
  have hcond : (1 < sub32 s'.m_count s'.m_lastCount ∧ sub32 s'.m_count s'.m_lastCount < 2 ^ 31 ∧
      CoDelTimeBefore (sub32 (time2CoDel (t + 1024 * k)) s'.m_dropNext)
        (16 * time2CoDel cfg.m_interval % 2 ^ 32) = true) ↔
      (1 < sub32 s.m_count s.m_lastCount ∧ sub32 s.m_count s.m_lastCount < 2 ^ 31 ∧
        CoDelTimeBefore (sub32 (time2CoDel t) s.m_dropNext)
          (16 * time2CoDel cfg.m_interval % 2 ^ 32) = true) := by
    rw [h.count, h.lastCount, time2CoDel_shift]
    rcases h.next with hnext | ⟨-, heq⟩
    · rw [hnext, sub32_shift]
    · rw [heq, sub32_self]
      exact iff_of_false (fun hlt ↦ absurd hlt.1 (by decide)) fun hlt ↦ absurd hlt.1 (by decide)
  unfold CoDelQueueDisc.restart
  by_cases hdelta : 1 < sub32 s.m_count s.m_lastCount ∧ sub32 s.m_count s.m_lastCount < 2 ^ 31 ∧
      CoDelTimeBefore (sub32 (time2CoDel t) s.m_dropNext)
        (16 * time2CoDel cfg.m_interval % 2 ^ 32) = true
  · rw [if_pos hdelta, if_pos (hcond.mpr hdelta)]
    have hsub := congrArg₂ sub32 h.count h.lastCount
    exact h.setCount hsub (congrArg₂ newtonStep h.recInvSqrt hsub)
  · rw [if_neg hdelta, if_neg (mt hcond.mp hdelta)]
    exact h.setCount rfl rfl

/-- **Entering the dropping state.** -/
theorem Related.enterDropping (h : Related k s s') (item : QueueDiscItem)
    (hstable : (cfg.m_useEcn && item.packet.ecnCapable) = false → OkStable cfg k s.pop.2 s.pop.1 t) :
    RelatedResult k (s.enterDropping cfg item t)
      (s'.enterDropping cfg (shiftItem k item) (t + 1024 * k)) := by
  unfold CoDelQueueDisc.enterDropping
  rw [show (shiftItem k item).packet = item.packet from rfl, time2CoDel_shift]
  cases hecn : cfg.m_useEcn && item.packet.ecnCapable with
  | true =>
    rw [if_pos rfl, if_pos rfl]
    exact ⟨rfl, rfl, h.restart⟩
  | false =>
    rw [if_neg Bool.false_ne_true, if_neg Bool.false_ne_true]
    obtain ⟨hitem, hpop⟩ := h.pop
    obtain ⟨-, hrelated⟩ := hpop.okToDrop (hstable hecn)
    rw [← hitem] at hrelated
    exact ⟨rfl, hitem, hrelated.restart⟩

/-- What two calls return: the same events, and states that are still related. -/
def RelatedOutcome (k : ℕ) (r r' : Option (CoDelQueueDisc × List Event)) : Prop :=
  r'.map Prod.snd = r.map Prod.snd ∧
    ∀ x, r = some x → ∀ x', r' = some x' → Related k x.1 x'.1

theorem RelatedResult.finish {r r' : List Event × Option QueueDiscItem × CoDelQueueDisc}
    (h : RelatedResult k r r') (cfg : Attributes) (t : ℕ) :
    RelatedOutcome k (finish cfg t r) (finish cfg (t + 1024 * k) r') := by
  obtain ⟨events, item, s⟩ := r
  obtain ⟨events', item', s'⟩ := r'
  obtain ⟨hevents, hitem, hrelated⟩ := h
  dsimp only at hevents hitem hrelated
  subst hevents hitem
  cases item with
  | none => exact ⟨rfl, fun _ hnone ↦ absurd hnone (by simp [CoDelQueueDisc.finish])⟩
  | some item =>
    unfold RelatedOutcome CoDelQueueDisc.finish
    simp only [Option.map_some, shiftItem, Nat.add_sub_add_right]
    split_ifs
    · refine ⟨rfl, ?_⟩
      rintro _ ⟨⟩ _ ⟨⟩
      exact hrelated
    · refine ⟨rfl, ?_⟩
      rintro _ ⟨⟩ _ ⟨⟩
      exact hrelated

/-- **A call of `DoDequeue`.** -/
theorem Related.doDequeue (h : Related k s s') (hstable : DequeueStable cfg k s t) :
    RelatedOutcome k (s.doDequeue cfg t) (s'.doDequeue cfg (t + 1024 * k)) := by
  unfold CoDelQueueDisc.doDequeue
  rw [h.queue]
  cases hqueue : s.queue with
  | nil =>
    refine ⟨rfl, ?_⟩
    rintro _ ⟨⟩ _ ⟨⟩
    exact { h.leave with queue := rfl }
  | cons item queue =>
    unfold DequeueStable CoDelQueueDisc.pop at hstable
    rw [hqueue] at hstable
    obtain ⟨hok, hloop, henter⟩ := hstable item rfl
    dsimp only [List.tail_cons] at hok hloop henter
    have hpop : Related k { s with queue } { s' with queue := queue.map (shiftItem k) } :=
      { h with queue := rfl }
    obtain ⟨hsame, hrelated⟩ := hpop.okToDrop hok
    rw [Option.map_some] at hsame hrelated
    rw [List.map_cons]
    dsimp only
    refine RelatedResult.finish ?_ cfg t
    rw [hsame, hrelated.dropping, List.length_map]
    generalize CoDelQueueDisc.okToDrop cfg { s with queue } (some item) t = r at *
    obtain ⟨s₁, ok⟩ := r
    dsimp only at hloop henter hrelated ⊢
    by_cases hdropping : s₁.m_dropping = true
    · rw [if_pos hdropping, if_pos hdropping]
      cases ok with
      | false => exact ⟨rfl, rfl, hrelated.leave⟩
      | true => exact hrelated.dropLoop _ item hdropping (hloop rfl hdropping)
    · rw [if_neg hdropping, if_neg hdropping]
      cases ok with
      | false => exact ⟨rfl, rfl, hrelated⟩
      | true => exact hrelated.enterDropping item (henter rfl (Bool.not_eq_true _ ▸ hdropping))

/-- **Related runs do the same.** -/
theorem Related.run (h : Related k s s') {ops : List Op} (hstable : RunStable cfg k s ops) :
    CoDelQueueDisc.run cfg s' (ops.map (Op.shift k)) = CoDelQueueDisc.run cfg s ops := by
  induction ops generalizing s s' with
  | nil => rfl
  | cons op ops ih =>
    rw [List.map_cons, CoDelQueueDisc.run, CoDelQueueDisc.run]
    cases op with
    | enqueue p t =>
      obtain ⟨hevents, hrelated⟩ := h.doEnqueue cfg p t
      rw [Op.shift, step, step, Option.bind_some, Option.bind_some, hevents, ih hrelated hstable]
    | dequeue t =>
      obtain ⟨hcall, hrest⟩ := hstable
      obtain ⟨hevents, hrelated⟩ := h.doDequeue hcall
      rw [Op.shift, step, step]
      cases hr : s.doDequeue cfg t with
      | none =>
        rw [hr, Option.map_none, Option.map_eq_none_iff] at hevents
        rw [hevents]
        rfl
      | some r =>
        rw [hr, Option.map_some, Option.map_eq_some_iff] at hevents
        obtain ⟨r', hr', heq⟩ := hevents
        rw [hr', Option.bind_some, Option.bind_some, heq,
          ih (hrelated r hr r' hr') (hrest r hr)]

end Related

/-- **CoDel does not depend on absolute time** in a run none of whose comparisons the shift affects: all
calls drop, mark and deliver the same packets. -/
theorem run_shift_of_stable (cfg : Attributes) (k : ℕ) (ops : List Op)
    (hstable : RunStable cfg k create ops) :
    run cfg create (ops.map (Op.shift k)) = run cfg create ops :=
  (related_create k).run hstable

/-- Four packets that are enqueued at once, and two calls of `DoDequeue`, ten and twenty milliseconds
later. -/
def fourPackets : List Op :=
  [.enqueue ⟨0, 1500, false⟩ 0, .enqueue ⟨1, 1500, false⟩ 0, .enqueue ⟨2, 1500, false⟩ 0,
    .enqueue ⟨3, 1500, false⟩ 0, .dequeue 10000000, .dequeue 20000000]

/-- A shift over which the clock wraps before the first instant is set. -/
theorem run_shift_of_stable_four :
    run defaults create (fourPackets.map (Op.shift (2 ^ 32 - 5000))) =
      run defaults create fourPackets :=
  run_shift_of_stable defaults (2 ^ 32 - 5000) fourPackets (by decide)

/-- A shift over which the clock wraps between a packet and the instant that is set for it, so that the
next packet is dropped at once. -/
theorem run_shift_of_wrap :
    run defaults create fourPackets =
        some [[], [], [], [], [.deliver ⟨0, 1500, false⟩], [.deliver ⟨1, 1500, false⟩]] ∧
      run defaults create (fourPackets.map (Op.shift (2 ^ 32 - 50000))) =
        some [[], [], [], [], [.deliver ⟨0, 1500, false⟩],
          [.drop ⟨1, 1500, false⟩ .TARGET_EXCEEDED_DROP, .deliver ⟨2, 1500, false⟩]] := by
  decide

end CoDelQueueDisc

end TrafficControl

end Ns3
