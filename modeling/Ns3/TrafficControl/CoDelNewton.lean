import Ns3.Library.InvSqrt
import Ns3.Library.Machine
import Ns3.TrafficControl.CoDelQueueDisc

/-!
# The inverse square root of CoDel

`m_recInvSqrt` approximates the inverse square root of `m_count`, with one step of Newton's iteration for
each drop in the dropping state. When the dropping state is entered soon after it was left, `m_count` jumps
down to the number of drops of the last time, and the step is taken from the value that was kept.

The steps are read off what the calls do: in the dropping state each packet that is dropped or marked for
its delay is one, and the packet with which the dropping state is entered is one or resets the value. The
value is never above the inverse square root of the count, so the subtraction does not underflow. It goes up
while it is too small after a jump of the count; otherwise it does not rise above its value of two steps
earlier.
-/

namespace Ns3

namespace TrafficControl

namespace CoDelQueueDisc

open CoDel InvSqrt

/-! ## The steps of a run -/

/-- How `m_count` and `m_recInvSqrt` are set, with the old value of `m_recInvSqrt`. -/
inductive Update
  /-- `++m_count` and a step of Newton's iteration. -/
  | counted (old count new : ℕ)
  /-- `m_count = delta` and a step of Newton's iteration. -/
  | reentered (old count new : ℕ)
  /-- `m_count = 1` and the largest value. -/
  | reset
deriving DecidableEq

/-- `m_count` and `m_recInvSqrt`. -/
def control (s : CoDelQueueDisc) : ℕ × ℕ := (s.m_count, s.m_recInvSqrt)

/-- What one drop in the dropping state does to `m_count` and `m_recInvSqrt`. -/
def countOne (x : ℕ × ℕ) : ℕ × ℕ := (add32 x.1 1, newtonStep x.2 (add32 x.1 1))

/-- The updates of `n` drops in the dropping state, before older ones. The last update is the first one of
the list. -/
def countUpdates : ℕ → ℕ × ℕ → List Update → List Update
  | 0, _, us => us
  | n + 1, x, us => countUpdates n (countOne x) (.counted x.2 (countOne x).1 (countOne x).2 :: us)

/-- Whether an event is a drop or a mark for the delay. -/
def isDecision : Event → Bool
  | .drop _ .TARGET_EXCEEDED_DROP => true
  | .mark _ .TARGET_EXCEEDED_MARK => true
  | _ => false

def decisions (events : List Event) : ℕ := events.countP isDecision

/-- The dropping state is entered close to when it was left, after more than one drop. -/
def ResumesCount (cfg : Attributes) (s : CoDelQueueDisc) (t : ℕ) : Prop :=
  1 < sub32 s.m_count s.m_lastCount ∧ sub32 s.m_count s.m_lastCount < 2 ^ 31 ∧
    CoDelTimeBefore (sub32 (time2CoDel t) s.m_dropNext) (16 * time2CoDel cfg.m_interval % 2 ^ 32)

instance (cfg : Attributes) (s : CoDelQueueDisc) (t : ℕ) : Decidable (ResumesCount cfg s t) :=
  inferInstanceAs (Decidable (_ ∧ _))

/-- The update with which the dropping state is entered. -/
def entryUpdate (cfg : Attributes) (s : CoDelQueueDisc) (t : ℕ) : Update :=
  if ResumesCount cfg s t then
    .reentered s.m_recInvSqrt (sub32 s.m_count s.m_lastCount)
      (newtonStep s.m_recInvSqrt (sub32 s.m_count s.m_lastCount))
  else .reset

/-- The updates of a call with these events, before older ones. -/
def callUpdates (cfg : Attributes) (s : CoDelQueueDisc) (t : ℕ) (events : List Event)
    (us : List Update) : List Update :=
  if s.m_dropping then countUpdates (decisions events) s.control us
  else if decisions events = 0 then us else s.entryUpdate cfg t :: us

/-- A disc with the updates so far, the last one first. -/
structure Traced where
  disc : CoDelQueueDisc
  updates : List Update

/-- The runs of a disc. A call that dereferences a null pointer ends them. -/
def traced (cfg : Attributes) : Machine Traced Op where
  init := ⟨create, []⟩
  next s
    | .enqueue p t => some ⟨(s.disc.doEnqueue cfg p t).1, s.updates⟩
    | .dequeue t => (s.disc.doDequeue cfg t).map fun r ↦
        ⟨r.1, s.disc.callUpdates cfg t r.2 s.updates⟩

/-- The drops since the dropping state was last entered. -/
def drops : List Update → ℕ
  | .counted _ _ _ :: us => drops us + 1
  | _ => 0

/-- Whether the dropping state was last entered with a reset. -/
def clean : List Update → Bool
  | .counted _ _ _ :: us => clean us
  | .reset :: _ => true
  | _ => false

/-- A call makes fewer than `2 ^ 31` drops in the dropping state. -/
def FewDrops (cfg : Attributes) (s : Traced) (op : Op) : Prop :=
  ∀ s' ∈ (traced cfg).next s op, drops s'.updates < 2 ^ 31

instance (cfg : Attributes) (s : Traced) (op : Op) : Decidable (FewDrops cfg s op) :=
  inferInstanceAs (Decidable (∀ s' ∈ (traced cfg).next s op, drops s'.updates < 2 ^ 31))

/-- A step of Newton's iteration whose subtraction does not underflow, to a value of 16 bits above zero
that is not above the inverse square root of the count. -/
def Sane (old count new : ℕ) : Prop :=
  count * old ^ 2 ≤ 3 * 2 ^ 32 ∧ new = newtonStep old count ∧ 0 < new ∧ new < 2 ^ 16 ∧
    count * new ^ 2 ≤ 2 ^ 32

def Update.Sane : Update → Prop
  | .counted old count new => CoDelQueueDisc.Sane old count new
  | .reentered old count new => CoDelQueueDisc.Sane old count new
  | .reset => True

/-- The `m_count` and `m_recInvSqrt` that an update sets. -/
def Update.result : Update → ℕ × ℕ
  | .counted _ count new => (count, new)
  | .reentered _ count new => (count, new)
  | .reset => (1, 2 ^ 16 - 1)

/-- `m_count` and `m_recInvSqrt` after updates. -/
def latest (us : List Update) : ℕ × ℕ := (us.head?.map Update.result).getD create.control

/-! ## What a call does to the count -/

variable {cfg : Attributes} {t : ℕ}

theorem decisions_cons_drop (p : Packet) (events : List Event) :
    decisions (.drop p .TARGET_EXCEEDED_DROP :: events) = decisions events + 1 :=
  List.countP_cons_of_pos rfl

theorem exists_okToDrop_eq (cfg : Attributes) (s : CoDelQueueDisc) (item : Option QueueDiscItem)
    (t : ℕ) : ∃ x, (s.okToDrop cfg item t).1 = { s with m_firstAboveTime := x } := by
  rcases item with _ | item
  · exact ⟨0, rfl⟩
  rw [okToDrop]
  split_ifs
  · exact ⟨0, rfl⟩
  · exact ⟨_, rfl⟩
  · exact ⟨s.m_firstAboveTime, rfl⟩

theorem control_dropLoop (cfg : Attributes) (t fuel : ℕ) : ∀ (item : QueueDiscItem) (s : CoDelQueueDisc),
    (dropLoop cfg t fuel item s).2.2.control =
        countOne^[decisions (dropLoop cfg t fuel item s).1] s.control ∧
      (dropLoop cfg t fuel item s).2.2.m_lastCount = s.m_lastCount := by
  induction fuel with
  | zero => exact fun _ _ ↦ ⟨rfl, rfl⟩
  | succ fuel ih =>
    intro item s
    by_cases hloop : (s.m_dropping && CoDelTimeAfterEq (time2CoDel t) s.m_dropNext) = true
    swap
    · rw [dropLoop, if_neg hloop]
      exact ⟨rfl, rfl⟩
    by_cases hmark : (cfg.m_useEcn && item.packet.ecnCapable) = true
    · rw [dropLoop, if_pos hloop, if_pos hmark]
      exact ⟨rfl, rfl⟩
    rw [dropLoop, if_pos hloop, if_neg hmark]
    obtain ⟨x, hx⟩ := exists_okToDrop_eq cfg s.countDrop.pop.2 s.countDrop.pop.1 t
    generalize s.countDrop.pop.2.okToDrop cfg s.countDrop.pop.1 t = r at hx
    dsimp only
    rcases hpop : s.countDrop.pop.1 with _ | item'
    · dsimp only
      rw [hx]
      exact ⟨rfl, rfl⟩
    rcases hok : r.2 with _ | _
    · dsimp only
      rw [hx]
      exact ⟨rfl, rfl⟩
    · dsimp only
      obtain ⟨hcontrol, hlast⟩ := ih item' (r.1.scheduleDrop cfg r.1.m_dropNext)
      rw [hcontrol, hlast, decisions_cons_drop, Function.iterate_succ_apply, hx]
      exact ⟨rfl, rfl⟩

theorem finish_eq_some {r : List Event × Option QueueDiscItem × CoDelQueueDisc} {s' : CoDelQueueDisc}
    {events : List Event} (h : finish cfg t r = some (s', events)) :
    s' = r.2.2 ∧ decisions events = decisions r.1 := by
  obtain ⟨before, item, s⟩ := r
  rcases item with _ | item
  · cases h
  rw [finish] at h
  split_ifs at h
  · cases h
    exact ⟨rfl, List.countP_append⟩
  · cases h
    exact ⟨rfl, List.countP_append⟩

theorem restart_control (cfg : Attributes) (s : CoDelQueueDisc) (t : ℕ) :
    (restart cfg s t).control = if ResumesCount cfg s t then (sub32 s.m_count s.m_lastCount,
      newtonStep s.m_recInvSqrt (sub32 s.m_count s.m_lastCount)) else (1, 2 ^ 16 - 1) := by
  have hrestart : restart cfg s t = if ResumesCount cfg s t then
      { s with
        m_count := sub32 s.m_count s.m_lastCount
        m_recInvSqrt := newtonStep s.m_recInvSqrt (sub32 s.m_count s.m_lastCount) }
      else { s with m_count := 1, m_recInvSqrt := (2 ^ 32 - 1) >>> REC_INV_SQRT_SHIFT } := rfl
  rw [hrestart]
  split_ifs
  · rfl
  · rfl

theorem enterDropping_spec (cfg : Attributes) (s : CoDelQueueDisc) (item : QueueDiscItem) (t : ℕ) :
    decisions (s.enterDropping cfg item t).1 = 1 ∧
      (s.enterDropping cfg item t).2.2.m_lastCount = (s.enterDropping cfg item t).2.2.m_count ∧
      (s.enterDropping cfg item t).2.2.control =
        if ResumesCount cfg s t then (sub32 s.m_count s.m_lastCount,
          newtonStep s.m_recInvSqrt (sub32 s.m_count s.m_lastCount)) else (1, 2 ^ 16 - 1) := by
  rw [enterDropping]
  by_cases hmark : (cfg.m_useEcn && item.packet.ecnCapable) = true
  · rw [if_pos hmark]
    exact ⟨rfl, rfl, restart_control cfg s t⟩
  · rw [if_neg hmark]
    obtain ⟨x, hx⟩ := exists_okToDrop_eq cfg s.pop.2 s.pop.1 t
    dsimp only
    rw [hx]
    exact ⟨rfl, rfl, restart_control cfg { s.pop.2 with m_firstAboveTime := x } t⟩

/-- What a call does to `m_count` and `m_recInvSqrt`: nothing, one update for each drop or mark in the
dropping state, or the update with which the dropping state is entered. -/
theorem doDequeue_control {s s' : CoDelQueueDisc} {events : List Event}
    (h : s.doDequeue cfg t = some (s', events)) :
    (s.m_dropping = true ∧ s'.control = countOne^[decisions events] s.control ∧
        s'.m_lastCount = s.m_lastCount) ∨
      (s.m_dropping = false ∧ decisions events = 0 ∧ s'.m_dropping = false ∧ s'.control = s.control ∧
        s'.m_lastCount = s.m_lastCount) ∨
      (s.m_dropping = false ∧ decisions events = 1 ∧ s'.m_lastCount = s'.m_count ∧
        s'.control = if ResumesCount cfg s t then (sub32 s.m_count s.m_lastCount,
          newtonStep s.m_recInvSqrt (sub32 s.m_count s.m_lastCount)) else (1, 2 ^ 16 - 1)) := by
  rw [doDequeue] at h
  rcases hqueue : s.queue with _ | ⟨item, queue⟩
  · rw [hqueue] at h
    cases h
    rcases hdropping : s.m_dropping with _ | _
    · exact Or.inr (Or.inl ⟨rfl, rfl, rfl, rfl, rfl⟩)
    · exact Or.inl ⟨rfl, rfl, rfl⟩
  rw [hqueue] at h
  obtain ⟨x, hx⟩ := exists_okToDrop_eq cfg { s with queue } (some item) t
  dsimp only at h
  generalize CoDelQueueDisc.okToDrop cfg { s with queue } (some item) t = r at h hx
  obtain ⟨rfl, hdecisions⟩ := finish_eq_some h
  rw [hdecisions]
  have hsame : r.1.m_dropping = s.m_dropping := by rw [hx]
  have hresumes : ResumesCount cfg r.1 t ↔ ResumesCount cfg s t := by rw [hx]; exact Iff.rfl
  rcases hdropping : s.m_dropping with _ | _
  · rw [hsame, hdropping, if_neg Bool.false_ne_true]
    rcases hok : r.2 with _ | _
    · rw [if_neg Bool.false_ne_true]
      refine Or.inr (Or.inl ⟨rfl, rfl, hsame.trans hdropping, ?_, ?_⟩)
      · rw [hx]
        rfl
      · rw [hx]
    · rw [if_pos rfl]
      obtain ⟨hone, hlast, hcontrol⟩ := enterDropping_spec cfg r.1 item t
      refine Or.inr (Or.inr ⟨rfl, hone, hlast, ?_⟩)
      rw [hcontrol, if_congr hresumes rfl rfl, hx]
  · rw [hsame, hdropping, if_pos rfl]
    refine Or.inl ⟨rfl, ?_⟩
    rcases hok : r.2 with _ | _
    · rw [if_neg Bool.false_ne_true]
      refine ⟨?_, ?_⟩
      · rw [hx]
        rfl
      · rw [hx]
    · rw [if_pos rfl]
      obtain ⟨hcontrol, hlast⟩ := control_dropLoop cfg t (queue.length + 1) item r.1
      rw [hcontrol, hlast, hx]
      exact ⟨rfl, rfl⟩

/-! ## One step of Newton's iteration -/

/-- Without underflow the step of the code is that of the iteration, which has one at `2 ^ 32`. -/
theorem newtonStep_eq {r c : ℕ} (hr : r < 2 ^ 16) (h : c * r ^ 2 ≤ 3 * 2 ^ 32)
    (hfit : newton (2 ^ 32) r c < 2 ^ 16) : newtonStep r c = newton (2 ^ 32) r c := by
  have hinv : r <<< REC_INV_SQRT_SHIFT % 2 ^ 32 = r * 2 ^ 16 := by
    rw [REC_INV_SQRT_SHIFT, Nat.shiftLeft_eq]
    omega
  have hinv2 : (r * 2 ^ 16 * (r * 2 ^ 16)) >>> 32 = r ^ 2 := by
    rw [Nat.shiftRight_eq_div_pow, show r * 2 ^ 16 * (r * 2 ^ 16) = r ^ 2 * 2 ^ 32 by ring]
    exact Nat.mul_div_cancel _ (by norm_num)
  have hval : (3 <<< 32 + 2 ^ 64 - c * r ^ 2 % 2 ^ 64) % 2 ^ 64 = 3 * 2 ^ 32 - c * r ^ 2 := by
    rw [Nat.shiftLeft_eq]
    omega
  set v := (3 * 2 ^ 32 - c * r ^ 2) / 4 with hv
  have hvlt : v < 2 ^ 32 := by omega
  have hmul : v * (r * 2 ^ 16) % 2 ^ 64 = v * r * 2 ^ 16 := by
    have hlt : v * r < 2 ^ 32 * 2 ^ 16 := Nat.mul_lt_mul'' hvlt hr
    rw [← mul_assoc]
    omega
  have hshift : v * r * 2 ^ 16 / 2 ^ 31 / 2 ^ 16 = v * r / 2 ^ 31 := by
    rw [Nat.div_div_eq_div_mul, Nat.mul_div_mul_right _ _ (by norm_num)]
  rw [newtonStep]
  rw [hinv, hinv2, hval, Nat.shiftRight_eq_div_pow _ 2, show (2 : ℕ) ^ 2 = 4 by norm_num, ← hv, hmul,
    Nat.shiftRight_eq_div_pow, REC_INV_SQRT_SHIFT, Nat.shiftRight_eq_div_pow, hshift]
  exact Nat.mod_eq_of_lt hfit

theorem sane_newtonStep {r c : ℕ} (hpos : 0 < r) (hr : r < 2 ^ 16) (hc : 2 ≤ c) (hc' : c ≤ 2 ^ 32)
    (h : c * r ^ 2 ≤ 2 * 2 ^ 32) :
    newtonStep r c = newton (2 ^ 32) r c ∧ Sane r c (newtonStep r c) := by
  have hle : c * newton (2 ^ 32) r c ^ 2 ≤ 2 ^ 32 :=
    mul_newton_sq_le (by norm_num) (by norm_num) (h.trans (by norm_num))
  have hfit : newton (2 ^ 32) r c < 2 ^ 16 := by
    by_contra hge
    have hsq : (2 ^ 16) ^ 2 ≤ newton (2 ^ 32) r c ^ 2 := Nat.pow_le_pow_left (not_lt.mp hge) 2
    have := (Nat.mul_le_mul hc hsq).trans hle
    norm_num at this
  have heq := newtonStep_eq hr (h.trans (by norm_num)) hfit
  refine ⟨heq, h.trans (by norm_num), rfl, ?_, ?_, ?_⟩
  · rw [heq]
    exact newton_pos (by norm_num) (by norm_num) hpos hc' h
  · rwa [heq]
  · rwa [heq]

/-! ## The invariant -/

/-- Where the value is after a reset: never more than two counts below the root. -/
def Near (c r : ℕ) : Prop :=
  c = 1 ∧ r = 65535 ∨ c = 2 ∧ r = 32769 ∨ 3 ≤ c ∧ 2 ^ 32 < (c + 2) * (r + 1) ^ 2

theorem Near.lt {c r : ℕ} (h : Near c r) : 2 ^ 32 < (c + 2) * (r + 1) ^ 2 := by
  rcases h with ⟨rfl, rfl⟩ | ⟨rfl, rfl⟩ | ⟨-, h⟩
  · norm_num
  · norm_num
  · exact h

theorem Near.step {c r : ℕ} (h : Near c r) (hpos : 0 < r) (hr : r < 2 ^ 16) (hc : c + 1 ≤ 2 ^ 32)
    (hbelow : c * r ^ 2 ≤ 2 ^ 32) : Near (c + 1) (newtonStep r (c + 1)) := by
  rcases h with ⟨rfl, rfl⟩ | ⟨rfl, rfl⟩ | ⟨h3, h⟩
  · exact Or.inr (Or.inl ⟨rfl, by decide⟩)
  · exact Or.inr (Or.inr ⟨le_rfl, by decide⟩)
  · have hsucc : (c + 1) * r ^ 2 ≤ 2 * 2 ^ 32 :=
      calc (c + 1) * r ^ 2 ≤ 2 * c * r ^ 2 := Nat.mul_le_mul_right _ (by omega)
        _ = 2 * (c * r ^ 2) := mul_assoc _ _ _
        _ ≤ 2 * 2 ^ 32 := Nat.mul_le_mul_left 2 hbelow
    obtain ⟨heq, -⟩ := sane_newtonStep hpos hr (by omega) hc hsucc
    refine Or.inr (Or.inr ⟨by omega, ?_⟩)
    rw [heq]
    exact lt_mul_newton_succ_sq (by norm_num) (by norm_num) hpos h3 hc hbelow h

/-- While the count increases by one, no step leads above the value of two steps earlier, when the dropping
state was entered with a reset, or when that value was near the root. -/
def NeverRises (us : List Update) : Prop :=
  ∀ old mid mid' new c c' older, .counted mid c' new :: .counted old c mid' :: older <:+ us →
    clean older = true ∨ 2 ^ 32 < c' * (old + 1) ^ 2 → new ≤ old

/-- What holds of `m_count`, `m_recInvSqrt` and `m_lastCount` after updates. -/
structure Tracked (c r last : ℕ) (us : List Update) : Prop where
  latest_eq : latest us = (c, r)
  count_eq : c = last + drops us
  lastCount_lt : last < 2 ^ 31
  drops_lt : drops us < 2 ^ 31
  pos : 0 < r
  lt : r < 2 ^ 16
  below : c * r ^ 2 ≤ 2 ^ 32
  near : clean us = true → Near c r
  newest : ∀ old c' new older, us = .counted old c' new :: older →
    c' = c ∧ (clean older = true → 2 ^ 32 < (c + 1) * (old + 1) ^ 2)
  sane : ∀ u ∈ us, u.Sane
  neverRises : NeverRises us

theorem Tracked.create : Tracked 0 (2 ^ 16 - 1) 0 [] where
  latest_eq := rfl
  count_eq := rfl
  lastCount_lt := by norm_num
  drops_lt := by norm_num [drops]
  pos := by norm_num
  lt := by norm_num
  below := by norm_num
  near h := by cases h
  newest _ _ _ _ h := by cases h
  sane _ h := absurd h List.not_mem_nil
  neverRises _ _ _ _ _ _ _ h := by
    rw [List.suffix_nil] at h
    cases h

theorem Tracked.countOne {c r last : ℕ} {us : List Update} (h : Tracked c r last us) (hc : 0 < c)
    (hdrops : drops us + 1 < 2 ^ 31) :
    Tracked (countOne (c, r)).1 (countOne (c, r)).2 last
      (.counted r (countOne (c, r)).1 (countOne (c, r)).2 :: us) := by
  have hlt : c + 1 < 2 ^ 32 := by
    have := h.lastCount_lt
    have := h.count_eq
    omega
  have hone : CoDelQueueDisc.countOne (c, r) = (c + 1, newtonStep r (c + 1)) := by
    rw [CoDelQueueDisc.countOne, add32, Nat.mod_eq_of_lt hlt]
  rw [hone]
  have hsucc : (c + 1) * r ^ 2 ≤ 2 * 2 ^ 32 :=
    calc (c + 1) * r ^ 2 ≤ 2 * c * r ^ 2 := Nat.mul_le_mul_right _ (by omega)
      _ = 2 * (c * r ^ 2) := mul_assoc _ _ _
      _ ≤ 2 * 2 ^ 32 := Nat.mul_le_mul_left 2 h.below
  obtain ⟨-, hsane⟩ := sane_newtonStep h.pos h.lt (by omega) hlt.le hsucc
  refine ⟨rfl, ?_, h.lastCount_lt, hdrops, hsane.2.2.1, hsane.2.2.2.1, hsane.2.2.2.2, ?_, ?_, ?_, ?_⟩
  · rw [drops, ← add_assoc, ← h.count_eq]
  · exact fun hclean ↦ (h.near hclean).step h.pos h.lt hlt.le h.below
  · rintro old c' new older heq
    cases heq
    exact ⟨rfl, fun hclean ↦ (h.near hclean).lt⟩
  · rintro u hu
    rcases List.mem_cons.mp hu with rfl | hu
    · exact hsane
    · exact h.sane u hu
  · rintro old mid mid' new c₁ c₂ older hsuffix hor
    rcases List.suffix_cons_iff.mp hsuffix with heq | hsuffix
    swap
    · exact h.neverRises old mid mid' new c₁ c₂ older hsuffix hor
    -- The new step and the last one of before.
    rw [List.cons.injEq] at heq
    obtain ⟨hu, hus⟩ := heq
    cases hu
    obtain ⟨-, hnear⟩ := h.newest old c₁ mid' older hus.symm
    have hlow : 2 ^ 32 < (c + 1) * (old + 1) ^ 2 := hor.elim hnear id
    have hnew : (c + 1) * newtonStep r (c + 1) ^ 2 < (c + 1) * (old + 1) ^ 2 :=
      hsane.2.2.2.2.trans_lt hlow
    have := lt_of_pow_lt_pow_left₀ 2 (Nat.zero_le _) (Nat.lt_of_mul_lt_mul_left hnew)
    omega

theorem drops_countUpdates (n : ℕ) : ∀ (x : ℕ × ℕ) (us : List Update),
    drops (countUpdates n x us) = drops us + n := by
  induction n with
  | zero => exact fun _ _ ↦ rfl
  | succ n ih =>
    intro x us
    rw [countUpdates, ih, drops]
    omega

theorem Tracked.countUpdates {last : ℕ} (n : ℕ) : ∀ {x : ℕ × ℕ} {us : List Update},
    Tracked x.1 x.2 last us → 0 < x.1 → drops us + n < 2 ^ 31 →
      Tracked (CoDelQueueDisc.countOne^[n] x).1 (CoDelQueueDisc.countOne^[n] x).2 last
        (countUpdates n x us) ∧ 0 < (CoDelQueueDisc.countOne^[n] x).1 := by
  induction n with
  | zero => exact fun h hpos _ ↦ ⟨h, hpos⟩
  | succ n ih =>
    intro x us h hpos hdrops
    have hone := h.countOne hpos (by omega)
    have hpos' : 0 < (CoDelQueueDisc.countOne x).1 := by
      have heq := hone.count_eq
      rw [drops] at heq
      change (CoDelQueueDisc.countOne x).1 = _ at heq
      omega
    rw [Function.iterate_succ_apply, CoDelQueueDisc.countUpdates]
    refine ih hone hpos' ?_
    rw [drops]
    omega

theorem sub32_add_left {a b : ℕ} (hb : b < 2 ^ 31) : sub32 (a + b) a = b := by
  rw [sub32]
  omega

theorem Tracked.enter {c r last : ℕ} {us : List Update} (h : Tracked c r last us) (hcount : 1 < drops us) :
    Tracked (drops us) (newtonStep r (drops us)) (drops us)
      (.reentered r (drops us) (newtonStep r (drops us)) :: us) := by
  have hlt := h.drops_lt
  have hjump : drops us * r ^ 2 ≤ 2 * 2 ^ 32 :=
    calc drops us * r ^ 2 ≤ c * r ^ 2 := Nat.mul_le_mul_right _ (h.count_eq ▸ Nat.le_add_left _ _)
      _ ≤ 2 * 2 ^ 32 := h.below.trans (by norm_num)
  obtain ⟨-, hsane⟩ := sane_newtonStep h.pos h.lt hcount (by omega) hjump
  refine ⟨rfl, rfl, hlt, Nat.zero_lt_of_lt hlt, hsane.2.2.1, hsane.2.2.2.1, hsane.2.2.2.2, ?_, ?_, ?_, ?_⟩
  · exact fun hclean ↦ by cases hclean
  · exact fun _ _ _ _ heq ↦ by cases heq
  · rintro u hu
    rcases List.mem_cons.mp hu with rfl | hu
    · exact hsane
    · exact h.sane u hu
  · rintro old mid mid' new c₁ c₂ older hsuffix
    rcases List.suffix_cons_iff.mp hsuffix with heq | hsuffix
    · cases heq
    · exact h.neverRises old mid mid' new c₁ c₂ older hsuffix

theorem Tracked.reset {c r last : ℕ} {us : List Update} (h : Tracked c r last us) :
    Tracked 1 (2 ^ 16 - 1) 1 (.reset :: us) where
  latest_eq := rfl
  count_eq := rfl
  lastCount_lt := by norm_num
  drops_lt := by norm_num [drops]
  pos := by norm_num
  lt := by norm_num
  below := by norm_num
  near _ := Or.inl ⟨rfl, rfl⟩
  newest _ _ _ _ heq := by cases heq
  sane u hu := by
    rcases List.mem_cons.mp hu with rfl | hu
    · trivial
    · exact h.sane u hu
  neverRises old mid mid' new c₁ c₂ older hsuffix := by
    rcases List.suffix_cons_iff.mp hsuffix with heq | hsuffix
    · cases heq
    · exact h.neverRises old mid mid' new c₁ c₂ older hsuffix

/-- The invariant of the runs. In the dropping state there is a count. -/
structure Traced.Inv (s : Traced) : Prop where
  tracked : Tracked s.disc.m_count s.disc.m_recInvSqrt s.disc.m_lastCount s.updates
  count_pos : s.disc.m_dropping = true → 0 < s.disc.m_count

theorem Traced.Inv.dequeue {s : Traced} (h : s.Inv) {disc : CoDelQueueDisc} {events : List Event}
    (hcall : s.disc.doDequeue cfg t = some (disc, events))
    (hfew : drops (s.disc.callUpdates cfg t events s.updates) < 2 ^ 31) :
    Traced.Inv ⟨disc, s.disc.callUpdates cfg t events s.updates⟩ := by
  rcases doDequeue_control hcall with
    ⟨hdropping, hcontrol, hlast⟩ | ⟨hdropping, hzero, hout, hcontrol, hlast⟩ |
      ⟨hdropping, hone, hlast, hcontrol⟩
  · rw [callUpdates, if_pos hdropping] at hfew ⊢
    rw [drops_countUpdates] at hfew
    obtain ⟨htracked, hpos⟩ := h.tracked.countUpdates (x := s.disc.control) _ (h.count_pos hdropping) hfew
    rw [← hcontrol, ← hlast] at htracked
    rw [← hcontrol] at hpos
    exact ⟨htracked, fun _ ↦ hpos⟩
  · rw [callUpdates, if_neg (by simp [hdropping]), if_pos hzero]
    obtain ⟨hcount, hrecInvSqrt⟩ := Prod.mk.inj hcontrol
    refine ⟨?_, ?_⟩
    · dsimp only
      rw [hcount, hrecInvSqrt, hlast]
      exact h.tracked
    · exact fun h ↦ absurd (hout.symm.trans h) Bool.false_ne_true
  · rw [callUpdates, if_neg (by simp [hdropping]), if_neg (by omega), entryUpdate]
    have hdelta : sub32 s.disc.m_count s.disc.m_lastCount = drops s.updates := by
      rw [h.tracked.count_eq]
      exact sub32_add_left h.tracked.drops_lt
    by_cases hresumes : ResumesCount cfg s.disc t
    · rw [if_pos hresumes, hdelta] at hcontrol
      rw [if_pos hresumes, hdelta]
      have hcount : 1 < drops s.updates := hdelta ▸ hresumes.1
      obtain ⟨hc, hr⟩ := Prod.mk.inj hcontrol
      refine ⟨?_, ?_⟩
      · dsimp only
        rw [hlast, hc, hr]
        exact h.tracked.enter hcount
      · intro _
        dsimp only
        omega
    · rw [if_neg hresumes] at hcontrol ⊢
      obtain ⟨hc, hr⟩ := Prod.mk.inj hcontrol
      refine ⟨?_, ?_⟩
      · dsimp only
        rw [hlast, hc, hr]
        exact h.tracked.reset
      · intro _
        dsimp only
        omega

theorem Traced.Inv.enqueue {s : Traced} (h : s.Inv) (p : Packet) :
    Traced.Inv ⟨(s.disc.doEnqueue cfg p t).1, s.updates⟩ := by
  rw [doEnqueue]
  split_ifs
  · exact h
  · exact ⟨h.tracked, h.count_pos⟩

theorem traced_inv {ops : List Op} {s : Traced} (hr : (traced cfg).Run (FewDrops cfg) ops s) : s.Inv := by
  refine hr.invariant (I := Traced.Inv) ⟨.create, fun h ↦ by cases h⟩ ?_
  rintro s (⟨p, t⟩ | t) s' h hfew hs
  · exact Option.some.inj hs ▸ h.enqueue p
  · obtain ⟨⟨disc, events⟩, hcall, rfl⟩ := Option.map_eq_some_iff.mp hs
    exact h.dequeue hcall (hfew _ hs)

/-- The drop spacing is not zero for intervals of at least `2 ^ 16` units. -/
theorem spacing_pos {interval r : ℕ} (hinterval : 2 ^ 16 ≤ interval) (hlt : interval < 2 ^ 32)
    (hpos : 0 < r) (hr : r < 2 ^ 16) :
    0 < reciprocalDivide interval (r <<< REC_INV_SQRT_SHIFT % 2 ^ 32) := by
  have hinv : r <<< REC_INV_SQRT_SHIFT % 2 ^ 32 = r * 2 ^ 16 := by
    rw [REC_INV_SQRT_SHIFT, Nat.shiftLeft_eq]
    omega
  have hle : 2 ^ 16 ≤ interval * r := by
    calc 2 ^ 16 ≤ interval * 1 := by omega
      _ ≤ interval * r := Nat.mul_le_mul_left interval hpos
  have hlt' : interval * r < 2 ^ 32 * 2 ^ 16 := Nat.mul_lt_mul'' hlt hr
  rw [reciprocalDivide, hinv, Nat.shiftRight_eq_div_pow, ← mul_assoc]
  omega

/-- **The inverse square root stays sane** in the runs with fewer than `2 ^ 31` drops in each dropping
state. No step of Newton's iteration underflows; the value has 16 bits and is not zero; it is never above
the inverse square root of the count, and while the count increases by one no step leads above the value of
two steps earlier, if the dropping state was entered with a reset or that value was not below the inverse
square root, up to truncation. So the drop spacing is not zero for intervals of at least `2 ^ 16` units. -/
theorem recInvSqrt_sane (cfg : Attributes) {ops : List Op} {s : Traced}
    (hr : (traced cfg).Run (FewDrops cfg) ops s) :
    latest s.updates = (s.disc.m_count, s.disc.m_recInvSqrt) ∧
      (0 < s.disc.m_recInvSqrt ∧ s.disc.m_recInvSqrt < 2 ^ 16) ∧ (∀ u ∈ s.updates, u.Sane) ∧
      NeverRises s.updates ∧ (2 ^ 16 ≤ time2CoDel cfg.m_interval → ∀ r,
        r = s.disc.m_recInvSqrt ∨ (∃ old c, .counted old c r ∈ s.updates ∨ .reentered old c r ∈ s.updates) →
          0 < reciprocalDivide (time2CoDel cfg.m_interval) (r <<< REC_INV_SQRT_SHIFT % 2 ^ 32)) := by
  have h := (traced_inv hr).tracked
  have hinterval : time2CoDel cfg.m_interval < 2 ^ 32 := Nat.mod_lt _ (by norm_num)
  refine ⟨h.latest_eq, ⟨h.pos, h.lt⟩, h.sane, h.neverRises, ?_⟩
  rintro hlong r (rfl | ⟨old, c, hmem | hmem⟩)
  · exact spacing_pos hlong hinterval h.pos h.lt
  · obtain ⟨-, -, hpos, hlt, -⟩ := h.sane _ hmem
    exact spacing_pos hlong hinterval hpos hlt
  · obtain ⟨-, -, hpos, hlt, -⟩ := h.sane _ hmem
    exact spacing_pos hlong hinterval hpos hlt

/-- Packets that arrive at a time in ms. -/
def burst (n ms : ℕ) : List Op := List.replicate n (.enqueue ⟨0, 1500, false⟩ (ms * 1000000))

def dequeueAt (ms : ℕ) : Op := .dequeue (ms * 1000000)

/-- Three bursts. The dropping state is entered for each one, and left when the queue is short; the second
time there are two drops in it. -/
def threeBursts : List Op :=
  burst 11 0 ++ [dequeueAt 10, dequeueAt 120, dequeueAt 600] ++ burst 6 600 ++
    [dequeueAt 610, dequeueAt 720, dequeueAt 900] ++ burst 6 900 ++
    [dequeueAt 910, dequeueAt 1020, dequeueAt 1300]

theorem threeBursts_updates : ∃ s, (traced defaults).Run (FewDrops defaults) threeBursts s ∧
    s.updates.take 3 = [.counted 35693 4 32364, .counted 30224 3 35693, .reentered 21746 2 30224] :=
  Machine.exists_run_of_exec_allowed
    (p := fun s : Traced ↦ s.updates.take 3 =
      [.counted 35693 4 32364, .counted 30224 3 35693, .reentered 21746 2 30224])
    (by decide +kernel) (by decide +kernel)

/-- The run with three bursts stays sane. -/
theorem recInvSqrt_sane_threeBursts : ∃ s, (traced defaults).Run (FewDrops defaults) threeBursts s ∧
    s.updates.take 3 = [.counted 35693 4 32364, .counted 30224 3 35693, .reentered 21746 2 30224] ∧
    NeverRises s.updates := by
  obtain ⟨s, hr, hupdates⟩ := threeBursts_updates
  exact ⟨s, hr, hupdates, (recInvSqrt_sane defaults hr).2.2.2.1⟩

/-- **The value may rise** above that of two steps earlier after a jump of the count. -/
theorem not_never_rises : ¬ ∀ cfg ops s, (traced cfg).Run (FewDrops cfg) ops s →
    ∀ old mid mid' new c c' older,
      .counted mid c' new :: .counted old c mid' :: older <:+ s.updates → new ≤ old := by
  intro h
  obtain ⟨s, hr, hupdates⟩ := threeBursts_updates
  have hsuffix : .counted 35693 4 32364 :: .counted 30224 3 35693 ::
      (.reentered 21746 2 30224 :: s.updates.drop 3) <:+ s.updates := by
    conv_rhs => rw [← List.take_append_drop 3 s.updates, hupdates]
    exact List.suffix_refl _
  exact absurd (h defaults threeBursts s hr 30224 35693 35693 32364 3 4 _ hsuffix) (by norm_num)

end CoDelQueueDisc

end TrafficControl

end Ns3
