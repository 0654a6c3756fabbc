import Ns3.Lte.SequenceNumber10
import Ns3.Library.Machine
import Ns3.Library.OrderedMap
import Ns3.Library.WhileLoop

/-!
# RLC unacknowledged mode: the receiving side

A receiver keeps the PDUs that have arrived out of order, and three sequence numbers: the first one
that it still waits for, VR(UR), the one after the highest that it has got, VR(UH), and the one after
that which has started the reordering timer, VR(UX). The reordering window are the 512 numbers below
VR(UH).

The buffer is a map by sequence number, and two of its loops forget that these are numbers modulo 1024.
When the window moves, PDUs are taken out from the smallest number on, up to the first inside, although
the window may begin above the ones that fell out. And the first missing number is looked for with a
counter that goes from 1023 to 1024 and not to 0. In runs where neither matters the state is what it
should be (`consistent`).
-/

namespace Ns3

namespace Lte

namespace LteRlcUm

open OrderedMap (keys)
open SequenceNumber10 (distance distance_eq exists_mod_eq)

/-- `m_windowSize`. -/
def windowSize : ℕ := 512

/-- The variables of the receiving side of an `LteRlcUm`, with all PDUs that `ReassembleAndDeliver` has
been called with. The timer is running or not. -/
structure Receiver (α : Type) where
  m_rxBuffer : List (ℕ × α)
  m_vrUr : SequenceNumber10
  m_vrUx : SequenceNumber10
  m_vrUh : SequenceNumber10
  m_reorderingTimer : Bool
  reassembled : List α
  deriving DecidableEq

namespace Receiver

variable {α : Type}

/-- The constructor. -/
def create : Receiver α where
  m_rxBuffer := []
  m_vrUr := .ofValue 0
  m_vrUx := .ofValue 0
  m_vrUh := .ofValue 0
  m_reorderingTimer := false
  reassembled := []

/-- `m_vrUh - m_windowSize`. -/
def windowStart (s : Receiver α) : SequenceNumber10 := s.m_vrUh.sub windowSize

/-- Operator `&&`. -/
def andThen (a b : Option Bool) : Option Bool := a.bind fun a ↦ if a then b else some false

/-- Operator `||`. -/
def orElse (a b : Option Bool) : Option Bool := a.bind fun a ↦ if a then some true else b

/-- `m_vrUh.SetModulusBase (m_vrUh - m_windowSize)`. -/
def setBase (s : Receiver α) : Receiver α := { s with m_vrUh := s.m_vrUh.setModulusBase s.windowStart }

def isInsideReorderingWindow (s : Receiver α) (seqNumber : SequenceNumber10) :
    Option (Receiver α × Bool) :=
  let s := s.setBase
  let seqNumber := seqNumber.setModulusBase s.windowStart
  (andThen (s.windowStart.le seqNumber) (seqNumber.lt s.m_vrUh)).map fun b ↦ (s, b)

/-- The loop of `ReassembleOutsideWindow`, over what is left in the buffer. -/
def reassembleOutsideLoop : List (ℕ × α) → Receiver α → Option (Receiver α)
  | [], s => some { s with m_rxBuffer := [] }
  | it :: rest, s => do
    let (s, inside) ← s.isInsideReorderingWindow (.ofValue it.1)
    if inside then some { s with m_rxBuffer := it :: rest }
    else reassembleOutsideLoop rest { s with reassembled := s.reassembled ++ [it.2] }

def reassembleOutsideWindow (s : Receiver α) : Option (Receiver α) :=
  reassembleOutsideLoop s.m_rxBuffer s

/-- One turn of the loop of `ReassembleSnInterval`. -/
def reassembleSn (s : Receiver α) (sn : ℕ) : Receiver α :=
  { s with
    m_rxBuffer := OrderedMap.erase sn s.m_rxBuffer
    reassembled := s.reassembled ++ (s.m_rxBuffer.filter fun it ↦ decide (it.1 = sn)).map Prod.snd }

/-- The loop of `ReassembleSnInterval`. -/
def reassembleSnLoop : ℕ → SequenceNumber10 → SequenceNumber10 → Receiver α → Option (Receiver α)
  | 0, _, _, _ => none
  | fuel + 1, reassembleSn, highSeqNumber, s => do
    if ← reassembleSn.lt highSeqNumber then
      reassembleSnLoop fuel reassembleSn.next highSeqNumber (s.reassembleSn reassembleSn.m_value)
    else some s

def reassembleSnInterval (s : Receiver α) (lowSeqNumber highSeqNumber : SequenceNumber10) :
    Option (Receiver α) :=
  reassembleSnLoop 1025 lowSeqNumber highSeqNumber s

/-- The first number from `newVrUr` on that is not in the buffer, for `DoReceivePdu`. -/
def firstMissing (s : Receiver α) : ℕ → ℕ → Option ℕ :=
  whileLoop (fun newVrUr ↦ OrderedMap.contains newVrUr s.m_rxBuffer)
    fun newVrUr ↦ some ((newVrUr + 1) % 65536)

/-- The first sequence number from `newVrUr` on that is not in the buffer, for
`ExpireReorderingTimer`. -/
def firstMissingSn (s : Receiver α) : ℕ → SequenceNumber10 → Option SequenceNumber10 :=
  whileLoop (fun newVrUr ↦ OrderedMap.contains newVrUr.m_value s.m_rxBuffer) fun newVrUr ↦ some newVrUr.next

/-- A PDU that is not placed in the reception buffer. -/
def discards (s : Receiver α) (seqNumber : SequenceNumber10) : Option Bool :=
  orElse
    (andThen (andThen (s.m_vrUr.lt seqNumber) (seqNumber.lt s.m_vrUh))
      (some (OrderedMap.contains seqNumber.m_value s.m_rxBuffer)))
    (andThen (s.windowStart.le seqNumber) (seqNumber.lt s.m_vrUr))

/-- `DoReceivePdu`: a PDU is placed in the buffer that falls outside of the reordering window. -/
def updateWindow (s : Receiver α) (seqNumber : SequenceNumber10) : Option (Receiver α) := do
  let (s, inside) ← s.isInsideReorderingWindow seqNumber
  if inside then some s
  else
    let s ← reassembleOutsideWindow { s with m_vrUh := seqNumber.add 1 }
    let (s, inside) ← s.isInsideReorderingWindow s.m_vrUr
    if inside then some s else some { s with m_vrUr := s.windowStart }

/-- `DoReceivePdu`: the reception buffer contains the PDU with VR(UR). -/
def advance (s : Receiver α) : Option (Receiver α) :=
  if OrderedMap.contains s.m_vrUr.m_value s.m_rxBuffer then do
    let newVrUr ← s.firstMissing 1025 (s.m_vrUr.m_value + 1)
    let oldVrUr := s.m_vrUr
    let s := { s with m_vrUr := s.m_vrUr.assign newVrUr }
    s.reassembleSnInterval oldVrUr s.m_vrUr
  else some s

/-- `m_vrUh` may have changed: all numbers are given the new modulus base. -/
def setBases (s : Receiver α) : Receiver α :=
  { s with
    m_vrUr := s.m_vrUr.setModulusBase s.windowStart
    m_vrUx := s.m_vrUx.setModulusBase s.windowStart
    m_vrUh := s.m_vrUh.setModulusBase s.windowStart }

/-- Whether VR(UX) is not above VR(UR), or outside of the reordering window and not VR(UH). -/
def timerIsIdle (s : Receiver α) : Option (Receiver α × Bool) := do
  if ← s.m_vrUx.le s.m_vrUr then some (s, true)
  else
    let (s, inside) ← s.isInsideReorderingWindow s.m_vrUx
    some (s, !inside && decide (s.m_vrUx.m_value ≠ s.m_vrUh.m_value))

/-- The reordering timer is stopped, if it is running for nothing. -/
def stopTimer (s : Receiver α) : Option (Receiver α) :=
  if s.m_reorderingTimer then do
    let (s, idle) ← s.timerIsIdle
    if idle then some { s with m_reorderingTimer := false } else some s
  else some s

/-- The reordering timer is started, if there is a gap. -/
def startTimer (s : Receiver α) : Option (Receiver α) := do
  if ← s.m_vrUh.gt s.m_vrUr then some { s with m_reorderingTimer := true, m_vrUx := s.m_vrUh }
  else some s

/-- `DoReceivePdu`, given the sequence number of the header. -/
def doReceivePdu (s : Receiver α) (seqNumber : ℕ) (p : α) : Option (Receiver α) := do
  let s := { s with m_vrUr := s.m_vrUr.setModulusBase s.windowStart }
  let s := s.setBase
  let seqNumber := (SequenceNumber10.ofValue seqNumber).setModulusBase s.windowStart
  if ← s.discards seqNumber then some s
  else
    let s := { s with m_rxBuffer := OrderedMap.insert seqNumber.m_value p s.m_rxBuffer }
    let s ← s.updateWindow seqNumber
    let s ← s.advance
    let s ← s.setBases.stopTimer
    if s.m_reorderingTimer then some s else s.startTimer

def expireReorderingTimer (s : Receiver α) : Option (Receiver α) := do
  let s := { s with m_reorderingTimer := false }
  let newVrUr ← s.firstMissingSn 1025 s.m_vrUx
  let oldVrUr := s.m_vrUr
  let s := { s with m_vrUr := newVrUr }
  let s ← s.reassembleSnInterval oldVrUr s.m_vrUr
  s.startTimer

/-! ## Runs -/

/-- A PDU with a sequence number is received, or the reordering timer expires. -/
inductive Event (α : Type)
  | receive (seqNumber : ℕ) (p : α)
  | expire
  deriving DecidableEq

/-- What a receiver does. The timer expires only if it is running. -/
def step (s : Receiver α) : Event α → Option (Receiver α)
  | .receive seqNumber p => s.doReceivePdu seqNumber p
  | .expire => if s.m_reorderingTimer then s.expireReorderingTimer else none

/-- A receiver. -/
def machine (α : Type) : Machine (Receiver α) (Event α) := ⟨create, step⟩

/-- A number is one of the 512 below another one. -/
def Inside (h k : ℕ) : Prop := distance ((h + windowSize) % 1024) k < windowSize

instance (h k : ℕ) : Decidable (Inside h k) := inferInstanceAs (Decidable (_ < _))

/-- The state is as it should be: every PDU in the buffer is between VR(UR) and VR(UH) and inside the
reordering window, VR(UR) is not in the buffer, and the timer is running if VR(UR) is not VR(UH). -/
structure Consistent (s : Receiver α) : Prop where
  between : ∀ k ∈ keys s.m_rxBuffer, 0 < distance s.m_vrUr.m_value k ∧
    distance s.m_vrUr.m_value k < distance s.m_vrUr.m_value s.m_vrUh.m_value
  inside : ∀ k ∈ keys s.m_rxBuffer, Inside s.m_vrUh.m_value k
  vrUr_notMem : s.m_vrUr.m_value ∉ keys s.m_rxBuffer
  running : s.m_vrUr.m_value ≠ s.m_vrUh.m_value → s.m_reorderingTimer = true

theorem consistent_iff {s : Receiver α} : s.Consistent ↔
    (∀ k ∈ keys s.m_rxBuffer, 0 < distance s.m_vrUr.m_value k ∧
      distance s.m_vrUr.m_value k < distance s.m_vrUr.m_value s.m_vrUh.m_value) ∧
    (∀ k ∈ keys s.m_rxBuffer, Inside s.m_vrUh.m_value k) ∧
    s.m_vrUr.m_value ∉ keys s.m_rxBuffer ∧
    (s.m_vrUr.m_value ≠ s.m_vrUh.m_value → s.m_reorderingTimer = true) :=
  ⟨fun ⟨h₁, h₂, h₃, h₄⟩ ↦ ⟨h₁, h₂, h₃, h₄⟩, fun ⟨h₁, h₂, h₃, h₄⟩ ↦ ⟨h₁, h₂, h₃, h₄⟩⟩

instance (s : Receiver α) : Decidable s.Consistent := decidable_of_iff' _ consistent_iff

/-! ## When it goes well -/

variable (s : Receiver α)

/-- The sequence number `x` moves the window. -/
def Moves (x : ℕ) : Prop := ¬Inside s.m_vrUh.m_value x

instance (x : ℕ) : Decidable (s.Moves x) := inferInstanceAs (Decidable (¬_))

/-- The sequence numbers in the buffer and `x` that are in the window, which ends after `x` if `x` moves
it. -/
def Kept (x k : ℕ) : Prop :=
  (k = x ∨ k ∈ keys s.m_rxBuffer) ∧ (s.Moves x → Inside (x + 1) k)

instance (x k : ℕ) : Decidable (s.Kept x k) := by
  unfold Kept
  infer_instance

/-- The first number that is waited for, when `x` has arrived. -/
def waitedFor (x : ℕ) : ℕ :=
  if s.Moves x ∧ ¬Inside (x + 1) s.m_vrUr.m_value then (x + 1 + windowSize) % 1024
  else s.m_vrUr.m_value

/-- What falls out of the window is below all that is inside. -/
def Purges (x : ℕ) : Prop :=
  s.Moves x → ∀ k ∈ keys s.m_rxBuffer, ¬Inside (x + 1) k → k < x ∧
    ∀ k' ∈ keys s.m_rxBuffer, Inside (x + 1) k' → k < k'

instance (x : ℕ) : Decidable (s.Purges x) := by
  unfold Purges
  infer_instance

/-- It is not the case that 0 is there and all numbers from the one that is waited for to 1023. -/
def StopsBeforeWrap (x : ℕ) : Prop :=
  s.Kept x 0 → ∃ k < 1024, s.waitedFor x ≤ k ∧ ¬s.Kept x k

instance (x : ℕ) : Decidable (s.StopsBeforeWrap x) := by
  unfold StopsBeforeWrap
  infer_instance

/-- The events that are handled well. -/
def Allowed (s : Receiver α) : Event α → Prop
  | .receive seqNumber _ => s.Purges (seqNumber % 1024) ∧ s.StopsBeforeWrap (seqNumber % 1024)
  | .expire => True

instance (s : Receiver α) : (e : Event α) → Decidable (s.Allowed e)
  | .receive seqNumber _ =>
    inferInstanceAs (Decidable (s.Purges (seqNumber % 1024) ∧ s.StopsBeforeWrap (seqNumber % 1024)))
  | .expire => inferInstanceAs (Decidable True)

/-! ## The window -/

section Window

variable {s : Receiver α} {H U X B M a n m h v : ℕ} {seqNumber : SequenceNumber10}

theorem inside_iff (hle : H ≤ n + 512) (hlt : n < H + 512) :
    Inside (H % 1024) (n % 1024) ↔ n < H := by
  rw [Inside, Nat.mod_add_mod, distance, windowSize]
  omega

theorem inside_mod : Inside (h % 1024) v ↔ Inside h v := by
  rw [Inside, Inside, Nat.mod_add_mod]

theorem windowStart_value (hvrUh : s.m_vrUh.m_value = H % 1024) (hH : 512 ≤ H) :
    s.windowStart.m_value = (H - 512) % 1024 :=
  SequenceNumber10.value_sub hvrUh (by decide) hH

/-- **`IsInsideReorderingWindow`** gives VR(UH) its base. -/
theorem isInsideReorderingWindow_eq (hvrUh : s.m_vrUh.m_value < 1024) (hv : seqNumber.m_value < 1024) :
    s.isInsideReorderingWindow seqNumber =
      some (s.setBase, decide (Inside s.m_vrUh.m_value seqNumber.m_value)) := by
  obtain ⟨H, hH, -, hHv⟩ := exists_mod_eq 512 hvrUh
  obtain ⟨n, hle, hlt, hnv⟩ := exists_mod_eq (H - 512) hv
  have hstart := windowStart_value hHv hH
  have hdstart : SequenceNumber10.Denotes (H - 512) (H - 512) s.setBase.windowStart :=
    ⟨hstart, hstart, le_rfl, by omega⟩
  have hdvrUh : SequenceNumber10.Denotes (H - 512) H s.setBase.m_vrUh :=
    ⟨hHv, hstart, Nat.sub_le _ _, by omega⟩
  have hdn : SequenceNumber10.Denotes (H - 512) n
      (seqNumber.setModulusBase s.setBase.windowStart) := ⟨hnv, hstart, hle, hlt⟩
  have hiff := inside_iff (H := H) (n := n) (by omega) (by omega)
  rw [← hHv, ← hnv] at hiff
  have hcond : andThen
      (s.setBase.windowStart.le (seqNumber.setModulusBase s.setBase.windowStart))
      ((seqNumber.setModulusBase s.setBase.windowStart).lt s.setBase.m_vrUh) =
        some (decide (Inside s.m_vrUh.m_value seqNumber.m_value)) := by
    rw [SequenceNumber10.le_eq hdstart hdn, SequenceNumber10.lt_eq hdn hdvrUh, decide_eq_true hle]
    exact congrArg some (decide_eq_decide.mpr hiff.symm)
  rw [isInsideReorderingWindow]
  exact congrArg (Option.map fun b ↦ (s.setBase, b)) hcond

/-! ## The loops -/

/-- What a loop over the buffer does not change. -/
structure Frame (s s' : Receiver α) : Prop where
  vrUr : s'.m_vrUr = s.m_vrUr
  vrUx : s'.m_vrUx = s.m_vrUx
  vrUh : s'.m_vrUh.m_value = s.m_vrUh.m_value
  timer : s'.m_reorderingTimer = s.m_reorderingTimer

theorem reassembleOutsideLoop_spec : ∀ {l : List (ℕ × α)} {s : Receiver α},
    s.m_vrUh.m_value < 1024 → (∀ k ∈ keys l, k < 1024) →
    ∃ s', reassembleOutsideLoop l s = some s' ∧ Frame s s' ∧
      s'.m_rxBuffer = l.dropWhile fun it ↦ decide ¬Inside s.m_vrUh.m_value it.1 := by
  intro l
  induction l with
  | nil => exact fun _ _ ↦ ⟨_, rfl, ⟨rfl, rfl, rfl, rfl⟩, rfl⟩
  | cons it l ih =>
    intro s hvrUh hkeys
    rw [OrderedMap.keys_cons, List.forall_mem_cons] at hkeys
    have hit : (SequenceNumber10.ofValue it.1).m_value = it.1 := Nat.mod_eq_of_lt hkeys.1
    have heq := isInsideReorderingWindow_eq hvrUh (hit.symm ▸ hkeys.1)
    rw [hit] at heq
    rw [reassembleOutsideLoop, heq, List.dropWhile_cons]
    by_cases hin : Inside s.m_vrUh.m_value it.1
    · rw [decide_eq_true hin, if_neg (by simpa using hin)]
      exact ⟨_, rfl, ⟨rfl, rfl, rfl, rfl⟩, rfl⟩
    · rw [decide_eq_false hin, if_pos (by simpa using hin)]
      obtain ⟨s', hs', hframe, hbuffer⟩ := ih (s :=
        { s.setBase with reassembled := s.setBase.reassembled ++ [it.2] }) hvrUh hkeys.2
      exact ⟨s', hs', ⟨hframe.vrUr, hframe.vrUx, hframe.vrUh, hframe.timer⟩, hbuffer⟩

/-- **`ReassembleOutsideWindow`** takes out what is not in the window, if that is below all else. -/
theorem reassembleOutsideWindow_spec (hvrUh : s.m_vrUh.m_value < 1024)
    (hsorted : OrderedMap.Sorted s.m_rxBuffer) (hkeys : ∀ k ∈ keys s.m_rxBuffer, k < 1024)
    (hbelow : ∀ k ∈ keys s.m_rxBuffer, ¬Inside s.m_vrUh.m_value k →
      ∀ k' ∈ keys s.m_rxBuffer, Inside s.m_vrUh.m_value k' → k < k') :
    ∃ s', s.reassembleOutsideWindow = some s' ∧ Frame s s' ∧ OrderedMap.Sorted s'.m_rxBuffer ∧
      ∀ k, k ∈ keys s'.m_rxBuffer ↔ k ∈ keys s.m_rxBuffer ∧ Inside s.m_vrUh.m_value k := by
  obtain ⟨s', hs', hframe, hbuffer⟩ := reassembleOutsideLoop_spec hvrUh hkeys
  rw [OrderedMap.dropWhile_eq_filter (p := fun k ↦ decide ¬Inside s.m_vrUh.m_value k) hsorted
    fun k hk hout k' hk' hin ↦ hbelow k hk (of_decide_eq_true hout) k' hk'
      (not_not.mp (of_decide_eq_false hin))] at hbuffer
  refine ⟨s', hs', hframe, hbuffer ▸ hsorted.filter, fun k ↦ ?_⟩
  rw [hbuffer, OrderedMap.mem_keys_filter (p := fun k ↦ !decide ¬Inside s.m_vrUh.m_value k)]
  simp

/-- **`ReassembleSnInterval`** takes out the PDUs of an interval. -/
theorem reassembleSnLoop_spec : ∀ {fuel n : ℕ} {low high : SequenceNumber10} {s : Receiver α},
    SequenceNumber10.Denotes B n low → SequenceNumber10.Denotes B m high → n ≤ m → m - n < fuel →
    OrderedMap.Sorted s.m_rxBuffer →
    ∃ s', reassembleSnLoop fuel low high s = some s' ∧ Frame s s' ∧ s'.m_vrUh = s.m_vrUh ∧
      OrderedMap.Sorted s'.m_rxBuffer ∧ ∀ k, k ∈ keys s'.m_rxBuffer ↔
        k ∈ keys s.m_rxBuffer ∧ ∀ K, n ≤ K → K < m → k ≠ K % 1024 := by
  intro fuel
  induction fuel with
  | zero => exact fun _ _ _ h ↦ absurd h (Nat.not_lt_zero _)
  | succ fuel ih =>
    intro n low high s hlow hhigh hle hfuel hsorted
    rw [reassembleSnLoop, SequenceNumber10.lt_eq hlow hhigh]
    by_cases hlt : n < m
    · rw [decide_eq_true hlt]
      obtain ⟨s', hs', hframe, hvrUh, hsorted', hmem⟩ := ih (s := s.reassembleSn low.m_value)
        (hlow.next (by have := hhigh.lt; omega)) hhigh hlt (by omega) (hsorted.erase _)
      refine ⟨s', hs', ⟨hframe.vrUr, hframe.vrUx, hframe.vrUh, hframe.timer⟩, hvrUh, hsorted',
        fun k ↦ ?_⟩
      rw [hmem]
      change (k ∈ keys (OrderedMap.erase low.m_value s.m_rxBuffer) ∧ _) ↔ _
      rw [OrderedMap.mem_keys_erase, hlow.value, and_assoc]
      refine and_congr_right fun _ ↦ ⟨?_, ?_⟩
      · rintro ⟨hne, hrest⟩ K hnK hKm
        rcases Nat.eq_or_lt_of_le hnK with rfl | hnK
        · exact hne
        · exact hrest K hnK hKm
      · exact fun h ↦ ⟨h n le_rfl hlt, fun K hnK ↦ h K (Nat.le_of_succ_le hnK)⟩
    · rw [decide_eq_false hlt]
      refine ⟨s, rfl, ⟨rfl, rfl, rfl, rfl⟩, rfl, hsorted, fun k ↦ (and_iff_left ?_).symm⟩
      exact fun K hnK hKm ↦ absurd (hnK.trans_lt hKm) hlt

/-- The counter of `DoReceivePdu` ends at a number that is not in the buffer, which is at most 1024. -/
theorem firstMissing_spec (hkeys : ∀ k ∈ keys s.m_rxBuffer, k < 1024) (hn : n ≤ 1024) :
    ∃ m, s.firstMissing 1025 n = some m ∧ (n ≤ m ∧ m ≤ 1024 ∧
      ∀ k, n ≤ k → k < m → k ∈ keys s.m_rxBuffer) ∧ m ∉ keys s.m_rxBuffer := by
  obtain ⟨m, hm, hI, hnot⟩ := whileLoop_spec
    (fun newVrUr ↦ OrderedMap.contains newVrUr s.m_rxBuffer)
    (fun newVrUr ↦ some ((newVrUr + 1) % 65536))
    (fun m ↦ n ≤ m ∧ m ≤ 1024 ∧ ∀ k, n ≤ k → k < m → k ∈ keys s.m_rxBuffer) (fun m ↦ 1024 - m)
    (fun m ⟨hnm, _, hall⟩ hcond ↦ by
      rw [OrderedMap.contains_iff] at hcond
      have hlt := hkeys m hcond
      refine ⟨m + 1, congrArg some (Nat.mod_eq_of_lt (by omega)), ⟨by omega, hlt, ?_⟩, by omega⟩
      intro k hnk hkm
      rcases Nat.lt_succ_iff_lt_or_eq.mp hkm with hkm | rfl
      · exact hall k hnk hkm
      · exact hcond)
    ⟨le_rfl, hn, fun k hnk hkn ↦ absurd (hnk.trans_lt hkn) (lt_irrefl n)⟩
    (show 1024 - n < 1025 by omega)
  exact ⟨m, hm, hI, OrderedMap.contains_eq_false.mp hnot⟩

/-- The sequence number of `ExpireReorderingTimer` stops at VR(UH), where nothing can be in the
buffer. -/
theorem firstMissingSn_spec (hX : SequenceNumber10.Denotes B X seqNumber) (hle : X ≤ H)
    (hlt : H < B + 1024) (hvrUh : H % 1024 ∉ keys s.m_rxBuffer) :
    ∃ N newVrUr, s.firstMissingSn 1025 seqNumber = some newVrUr ∧
      SequenceNumber10.Denotes B N newVrUr ∧ X ≤ N ∧ N ≤ H ∧ N % 1024 ∉ keys s.m_rxBuffer := by
  obtain ⟨newVrUr, hres, ⟨N, hN, hXN, hNH⟩, hnot⟩ := whileLoop_spec
    (fun newVrUr : SequenceNumber10 ↦ OrderedMap.contains newVrUr.m_value s.m_rxBuffer)
    (fun newVrUr ↦ some newVrUr.next)
    (fun t ↦ ∃ N, SequenceNumber10.Denotes B N t ∧ X ≤ N ∧ N ≤ H)
    (fun t ↦ distance t.m_value (H % 1024))
    (fun t ⟨N, hN, hXN, hNH⟩ hcond ↦ by
      rw [OrderedMap.contains_iff, hN.value] at hcond
      have hne : N ≠ H := fun h ↦ hvrUh (h ▸ hcond)
      have hnext := hN.next (by omega)
      have hBX := hX.le
      refine ⟨t.next, rfl, ⟨N + 1, hnext, by omega, by omega⟩, ?_⟩
      rw [hnext.value, hN.value, distance_eq (by omega) (by omega),
        distance_eq (by omega) (by omega)]
      omega)
    ⟨X, hX, le_rfl, hle⟩
    (show distance _ _ < 1025 from Nat.lt_succ_of_lt (Nat.mod_lt _ (by decide)))
  rw [OrderedMap.contains_eq_false, hN.value] at hnot
  exact ⟨N, newVrUr, hres, hN, hXN, hNH, hnot⟩

end Window

/-! ## What the state stands for -/

section Invariant

variable {s t : Receiver α} {H U X B M n : ℕ} {seqNumber : SequenceNumber10}

/-- VR(UH) stands for `H`, VR(UR) for `U`, and the buffer has only PDUs between them. -/
structure Tracks (s : Receiver α) (H U : ℕ) : Prop where
  window : 512 ≤ H
  le : U ≤ H
  le_add : H ≤ U + 512
  vrUh : s.m_vrUh.m_value = H % 1024
  vrUr : s.m_vrUr.m_value = U % 1024
  sorted : OrderedMap.Sorted s.m_rxBuffer
  between : ∀ k ∈ keys s.m_rxBuffer, ∃ K, U < K ∧ K < H ∧ k = K % 1024

/-- The modulus base is that of the window below `H`. -/
structure Based (s : Receiver α) (H U : ℕ) : Prop where
  vrUh : SequenceNumber10.Denotes (H - 512) H s.m_vrUh
  vrUr : SequenceNumber10.Denotes (H - 512) U s.m_vrUr

/-- The reordering timer is running as long as something is missing. VR(UX) is between VR(UR) and
VR(UH) then. -/
structure Timed (s : Receiver α) (H U : ℕ) : Prop where
  stopped : s.m_reorderingTimer = false → U = H
  running : s.m_reorderingTimer = true → Based s H U ∧
    ∃ X, U < X ∧ X ≤ H ∧ SequenceNumber10.Denotes (H - 512) X s.m_vrUx

theorem Tracks.keys_lt (h : Tracks s H U) : ∀ k ∈ keys s.m_rxBuffer, k < 1024 := by
  intro k hk
  obtain ⟨K, -, -, rfl⟩ := h.between k hk
  exact Nat.mod_lt _ (by decide)

theorem Tracks.notMem (h : Tracks s H U) (hn : n ≤ U ∨ H ≤ n) (hle : H ≤ n + 512)
    (hlt : n ≤ U + 512) : n % 1024 ∉ keys s.m_rxBuffer := by
  intro hmem
  obtain ⟨K, hUK, hKH, hK⟩ := h.between _ hmem
  omega

/-- **What the invariant is for.** -/
theorem Tracks.toConsistent (h : Tracks s H U) (ht : Timed s H U) : s.Consistent := by
  have hw := h.window
  have hle := h.le
  have hadd := h.le_add
  refine ⟨fun k hk ↦ ?_, fun k hk ↦ ?_, ?_, fun hne ↦ ?_⟩
  · obtain ⟨K, hUK, hKH, rfl⟩ := h.between k hk
    rw [h.vrUr, h.vrUh, distance_eq hUK.le (by omega), distance_eq hle (by omega)]
    omega
  · obtain ⟨K, hUK, hKH, rfl⟩ := h.between k hk
    rw [h.vrUh]
    exact (inside_iff (by omega) (by omega)).mpr hKH
  · rw [h.vrUr]
    exact h.notMem (Or.inl le_rfl) hadd (Nat.le_add_right _ _)
  · by_contra hstopped
    rw [Bool.not_eq_true] at hstopped
    rw [h.vrUr, h.vrUh, ht.stopped hstopped] at hne
    exact hne rfl

/-! ## The timer -/

theorem based_setBases (h : Tracks s H U) : Based s.setBases H U := by
  have hw := h.window
  have hle := h.le
  have hadd := h.le_add
  have hstart := windowStart_value h.vrUh hw
  exact ⟨⟨h.vrUh, hstart, Nat.sub_le _ _, by omega⟩, ⟨h.vrUr, hstart, by omega, by omega⟩⟩

theorem startTimer_spec (h : Tracks s H U) (hb : Based s H U) (hs : s.m_reorderingTimer = false) :
    ∃ s', s.startTimer = some s' ∧ Tracks s' H U ∧ Timed s' H U := by
  rw [startTimer, SequenceNumber10.gt_eq hb.vrUh hb.vrUr]
  by_cases hlt : U < H
  · rw [decide_eq_true hlt]
    exact ⟨_, rfl, ⟨h.window, h.le, h.le_add, h.vrUh, h.vrUr, h.sorted, h.between⟩,
      ⟨Bool.noConfusion, fun _ ↦ ⟨⟨hb.vrUh, hb.vrUr⟩, H, hlt, le_rfl, hb.vrUh⟩⟩⟩
  · rw [decide_eq_false hlt]
    exact ⟨s, rfl, h, ⟨fun _ ↦ le_antisymm h.le (not_lt.mp hlt), fun hr ↦ by
      rw [hs] at hr
      exact Bool.noConfusion hr⟩⟩

theorem timerIsIdle_eq {Y : ℕ} (hH : 512 ≤ H) (hb : Based s H U)
    (hY : SequenceNumber10.Denotes (H - 512) Y s.m_vrUx) : ∃ s', s.timerIsIdle =
      some (s', decide (Y ≤ U ∨ H < Y)) ∧ (s' = s ∨ s' = s.setBase) := by
  have hYle := hY.le
  have hYlt := hY.lt
  have hUH : U < H - 512 + 1024 := hb.vrUr.lt
  rw [timerIsIdle, SequenceNumber10.le_eq hY hb.vrUr]
  by_cases hYU : Y ≤ U
  · rw [decide_eq_true hYU, decide_eq_true (Or.inl hYU)]
    exact ⟨s, rfl, Or.inl rfl⟩
  have hinside : Inside s.m_vrUh.m_value s.m_vrUx.m_value ↔ Y < H := by
    rw [hb.vrUh.value, hY.value]
    exact inside_iff (by omega) (by omega)
  have hne : s.m_vrUx.m_value ≠ s.m_vrUh.m_value ↔ Y ≠ H :=
    not_congr (SequenceNumber10.value_eq_iff hY hb.vrUh)
  have hvrUh : s.m_vrUh.m_value < 1024 := hb.vrUh.value ▸ Nat.mod_lt _ (by decide)
  have hvrUx : s.m_vrUx.m_value < 1024 := hY.value ▸ Nat.mod_lt _ (by decide)
  have hidle : (!decide (Inside s.m_vrUh.m_value s.m_vrUx.m_value) &&
      decide (s.setBase.m_vrUx.m_value ≠ s.setBase.m_vrUh.m_value)) = decide (Y ≤ U ∨ H < Y) := by
    change (_ && decide (s.m_vrUx.m_value ≠ s.m_vrUh.m_value)) = _
    rw [← decide_not, ← Bool.decide_and, decide_eq_decide, hinside, hne]
    omega
  rw [decide_eq_false hYU, isInsideReorderingWindow_eq hvrUh hvrUx, ← hidle]
  exact ⟨s.setBase, rfl, Or.inr rfl⟩

/-- The timer is stopped if VR(UX) is not between VR(UR) and VR(UH), although it may have fallen out of
the window. -/
theorem stopTimer_spec (h : Tracks s H U)
    (hvrUx : s.m_reorderingTimer = true → ∃ X, s.m_vrUx.m_value = X % 1024 ∧ X ≤ H ∧ H < X + 1024) :
    ∃ s', s.setBases.stopTimer = some s' ∧ Tracks s' H U ∧ Based s' H U ∧
      (s'.m_reorderingTimer = true →
        ∃ X, U < X ∧ X ≤ H ∧ SequenceNumber10.Denotes (H - 512) X s'.m_vrUx) := by
  have hb := based_setBases h
  have ht : Tracks s.setBases H U :=
    ⟨h.window, h.le, h.le_add, h.vrUh, h.vrUr, h.sorted, h.between⟩
  have hw := h.window
  have hle := h.le
  have hadd := h.le_add
  have hstart := windowStart_value h.vrUh hw
  rw [stopTimer]
  by_cases hr : s.setBases.m_reorderingTimer = true
  swap
  · rw [if_neg hr]
    exact ⟨_, rfl, ht, hb, fun hr' ↦ absurd hr' hr⟩
  rw [if_pos hr]
  obtain ⟨X, hvrUx, hXH, hHX⟩ := hvrUx hr
  -- below the window, VR(UX) is taken for a number that is 1024 larger
  obtain ⟨Y, hY, hYX⟩ : ∃ Y, SequenceNumber10.Denotes (H - 512) Y s.setBases.m_vrUx ∧
      (Y = X ∨ Y = X + 1024 ∧ H < Y) := by
    by_cases hin : H ≤ X + 512
    · exact ⟨X, ⟨hvrUx, hstart, by omega, by omega⟩, Or.inl rfl⟩
    · exact ⟨X + 1024, ⟨by rw [Nat.add_mod_right]; exact hvrUx, hstart, by omega, by omega⟩,
        Or.inr ⟨rfl, hHX⟩⟩
  obtain ⟨s', hs', hcases⟩ := timerIsIdle_eq hw hb hY
  have ht' : Tracks s' H U := by
    rcases hcases with rfl | rfl
    · exact ht
    · exact ⟨h.window, h.le, h.le_add, h.vrUh, h.vrUr, h.sorted, h.between⟩
  have hb' : Based s' H U := by
    rcases hcases with rfl | rfl
    · exact hb
    · exact ⟨hb.vrUh, hb.vrUr⟩
  have hY' : SequenceNumber10.Denotes (H - 512) Y s'.m_vrUx := by
    rcases hcases with rfl | rfl
    · exact hY
    · exact hY
  rw [hs']
  by_cases hidle : Y ≤ U ∨ H < Y
  · rw [decide_eq_true hidle]
    exact ⟨_, rfl, ⟨ht'.window, ht'.le, ht'.le_add, ht'.vrUh, ht'.vrUr, ht'.sorted, ht'.between⟩,
      ⟨hb'.vrUh, hb'.vrUr⟩, fun hr' ↦ Bool.noConfusion hr'⟩
  · rw [decide_eq_false hidle]
    push Not at hidle
    exact ⟨_, rfl, ht', hb', fun _ ↦ ⟨Y, hidle.1, hidle.2, hY'⟩⟩

/-- **The timer** is running afterwards as long as something is missing. -/
theorem timers_spec (h : Tracks s H U)
    (hvrUx : s.m_reorderingTimer = true → ∃ X, s.m_vrUx.m_value = X % 1024 ∧ X ≤ H ∧ H < X + 1024) :
    ∃ s₁ s', s.setBases.stopTimer = some s₁ ∧
      (if s₁.m_reorderingTimer then some s₁ else s₁.startTimer) = some s' ∧
      Tracks s' H U ∧ Timed s' H U := by
  obtain ⟨s₁, hs₁, ht, hb, hX⟩ := stopTimer_spec h hvrUx
  by_cases hr : s₁.m_reorderingTimer = true
  · refine ⟨s₁, s₁, hs₁, if_pos hr, ht, fun hstopped ↦ ?_, fun _ ↦ ⟨hb, hX hr⟩⟩
    rw [hr] at hstopped
    exact Bool.noConfusion hstopped
  · obtain ⟨s', hs', ht', htimed⟩ := startTimer_spec ht hb (Bool.not_eq_true _ ▸ hr)
    exact ⟨s₁, s', hs₁, by rw [if_neg hr, hs'], ht', htimed⟩

end Invariant

/-! ## A PDU is placed in the buffer -/

section Place

variable {s t : Receiver α} {H U X B M n x : ℕ} {seqNumber : SequenceNumber10}

/-- The buffer contains what has been kept, VR(UR) perhaps with it. Its base is `B`, and `M` is not in
the buffer. -/
structure Stored (s : Receiver α) (H U B M : ℕ) : Prop where
  window : 512 ≤ H
  le_add : H ≤ U + 512
  vrUh : s.m_vrUh.m_value = H % 1024
  vrUr : SequenceNumber10.Denotes B U s.m_vrUr
  sorted : OrderedMap.Sorted s.m_rxBuffer
  between : ∀ k ∈ keys s.m_rxBuffer, ∃ K, U ≤ K ∧ K < H ∧ k = K % 1024
  missing : M % 1024 ∉ keys s.m_rxBuffer
  le_missing : U ≤ M
  missing_le : M ≤ H
  missing_lt : M < B + 1024

theorem updateWindow_of_inside (hvrUh : s.m_vrUh.m_value < 1024) (hx : seqNumber.m_value < 1024)
    (hin : Inside s.m_vrUh.m_value seqNumber.m_value) :
    s.updateWindow seqNumber = some s.setBase := by
  rw [updateWindow, isInsideReorderingWindow_eq hvrUh hx, decide_eq_true hin]
  rfl

theorem updateWindow_of_moves (hvrUh : s.m_vrUh.m_value < 1024) (hx : seqNumber.m_value = x)
    (hxlt : x < 1024) (hvrUr : s.m_vrUr.m_value < 1024) (hout : ¬Inside s.m_vrUh.m_value x)
    (hsorted : OrderedMap.Sorted s.m_rxBuffer) (hkeys : ∀ k ∈ keys s.m_rxBuffer, k < 1024)
    (hbelow : ∀ k ∈ keys s.m_rxBuffer, ¬Inside (x + 1) k →
      ∀ k' ∈ keys s.m_rxBuffer, Inside (x + 1) k' → k < k') :
    ∃ s', s.updateWindow seqNumber = some s' ∧ OrderedMap.Sorted s'.m_rxBuffer ∧
      (∀ k, k ∈ keys s'.m_rxBuffer ↔ k ∈ keys s.m_rxBuffer ∧ Inside (x + 1) k) ∧
      s'.m_vrUx = s.m_vrUx ∧ s'.m_reorderingTimer = s.m_reorderingTimer ∧
      s'.m_vrUh.m_value = (x + 1) % 1024 ∧
      (Inside (x + 1) s.m_vrUr.m_value → s'.m_vrUr = s.m_vrUr) ∧
      (¬Inside (x + 1) s.m_vrUr.m_value → s'.m_vrUr.m_value = s'.windowStart.m_value ∧
        s'.m_vrUr.m_modulusBase = s'.windowStart.m_value) := by
  have hnew : (seqNumber.add 1).m_value = (x + 1) % 1024 := by rw [← hx]; rfl
  have hnewlt : (seqNumber.add 1).m_value < 1024 := hnew ▸ Nat.mod_lt _ (by decide)
  have hmod : ∀ k, Inside (seqNumber.add 1).m_value k ↔ Inside (x + 1) k := fun k ↦ by
    rw [hnew]
    exact inside_mod
  obtain ⟨t, ht, hframe, htsorted, htkeys⟩ := reassembleOutsideWindow_spec
    (s := { s.setBase with m_vrUh := seqNumber.add 1 }) hnewlt hsorted hkeys
    fun k hk hk' k' hk'' hin ↦ hbelow k hk (fun h ↦ hk' ((hmod k).mpr h)) k' hk'' ((hmod k').mp hin)
  have htvrUh : t.m_vrUh.m_value = (x + 1) % 1024 := hframe.vrUh.trans hnew
  have htvrUr : t.m_vrUr = s.m_vrUr := hframe.vrUr
  have hres : s.updateWindow seqNumber =
      some (if Inside (x + 1) s.m_vrUr.m_value then t.setBase
        else { t.setBase with m_vrUr := t.setBase.windowStart }) := by
    rw [updateWindow, isInsideReorderingWindow_eq hvrUh (hx ▸ hxlt), hx, decide_eq_false hout]
    dsimp only [Option.bind_eq_bind, Option.bind_some]
    rw [if_neg Bool.false_ne_true, ht, Option.bind_some, isInsideReorderingWindow_eq
      (htvrUh ▸ Nat.mod_lt _ (by decide)) (htvrUr.symm ▸ hvrUr), htvrUh, htvrUr,
      decide_eq_decide.mpr inside_mod]
    by_cases hin : Inside (x + 1) s.m_vrUr.m_value
    · rw [decide_eq_true hin, if_pos hin]
      rfl
    · rw [decide_eq_false hin, if_neg hin]
      rfl
  have hkept : ∀ k, k ∈ keys t.m_rxBuffer ↔ k ∈ keys s.m_rxBuffer ∧ Inside (x + 1) k :=
    fun k ↦ (htkeys k).trans (and_congr_right fun _ ↦ hmod k)
  rw [hres]
  by_cases hin : Inside (x + 1) s.m_vrUr.m_value
  · rw [if_pos hin]
    exact ⟨_, rfl, htsorted, hkept, hframe.vrUx, hframe.timer, htvrUh, fun _ ↦ htvrUr,
      fun h ↦ absurd hin h⟩
  · rw [if_neg hin]
    exact ⟨_, rfl, htsorted, hkept, hframe.vrUx, hframe.timer, htvrUh, fun h ↦ absurd h hin,
      fun _ ↦ ⟨rfl, rfl⟩⟩

/-- What is left after the PDUs from `U` to `N` is above `N`, if `N` is missing. -/
theorem lt_of_kept {N K : ℕ} (hN : N % 1024 ∉ keys s.m_rxBuffer) (hK : K % 1024 ∈ keys s.m_rxBuffer)
    (hle : U ≤ K) (hne : ∀ K', U ≤ K' → K' < N → K % 1024 ≠ K' % 1024) : N < K := by
  by_contra hNK
  rcases Nat.eq_or_lt_of_le (not_lt.mp hNK) with rfl | hlt
  · exact hN hK
  · exact hne K hle hlt rfl

theorem advance_spec (h : Stored s H U B M)
    (hstops : 0 ∈ keys s.m_rxBuffer → ∃ k < 1024, s.m_vrUr.m_value ≤ k ∧ k ∉ keys s.m_rxBuffer) :
    ∃ s' N, s.advance = some s' ∧ Tracks s' H N ∧ U ≤ N ∧ s'.m_vrUx = s.m_vrUx ∧
      s'.m_reorderingTimer = s.m_reorderingTimer := by
  have hUM := h.le_missing
  have hMH := h.missing_le
  have hMB := h.missing_lt
  have hadd := h.le_add
  have hBU := h.vrUr.le
  have hu := h.vrUr.value
  rw [advance]
  by_cases hmem : s.m_vrUr.m_value ∈ keys s.m_rxBuffer
  swap
  · rw [OrderedMap.contains_eq_false.mpr hmem]
    refine ⟨s, U, rfl, ⟨h.window, hUM.trans hMH, hadd, h.vrUh, hu, h.sorted, fun k hk ↦ ?_⟩, le_rfl,
      rfl, rfl⟩
    obtain ⟨K, hUK, hKH, rfl⟩ := h.between k hk
    exact ⟨K, lt_of_kept (hu ▸ hmem) hk hUK fun K' hle hlt ↦ absurd hlt (not_lt.mpr hle), hKH, rfl⟩
  have hkeys : ∀ k ∈ keys s.m_rxBuffer, k < 1024 := by
    intro k hk
    obtain ⟨K, -, -, rfl⟩ := h.between k hk
    exact Nat.mod_lt _ (by decide)
  have hult : s.m_vrUr.m_value < 1024 := hkeys _ hmem
  obtain ⟨m, hm, ⟨hum, hmle, hall⟩, hnot⟩ := firstMissing_spec hkeys (Nat.succ_le_of_lt hult)
  -- the numbers up to `m` stand for those from `U` on
  obtain ⟨N, hN⟩ : ∃ N, N = U + (m - s.m_vrUr.m_value) := ⟨_, rfl⟩
  have hin : ∀ K, U ≤ K → K < N → K % 1024 ∈ keys s.m_rxBuffer := by
    intro K hUK hKN
    rcases Nat.eq_or_lt_of_le hUK with rfl | hUK
    · exact hu ▸ hmem
    · exact hall _ (by omega) (by omega)
  have hNM : N ≤ M := by
    by_contra hlt
    exact h.missing (hin M hUM (not_le.mp hlt))
  have hNmod : N % 1024 = m % 1024 := by omega
  have hNnot : N % 1024 ∉ keys s.m_rxBuffer := by
    rcases Nat.lt_or_eq_of_le hmle with hlt | rfl
    · rw [hNmod, Nat.mod_eq_of_lt hlt]
      exact hnot
    · rw [hNmod]
      intro hzero
      obtain ⟨k, hk, huk, hknot⟩ := hstops hzero
      rcases Nat.eq_or_lt_of_le huk with rfl | huk
      · exact hknot hmem
      · exact hknot (hall k huk hk)
  have hhigh : SequenceNumber10.Denotes B N (s.m_vrUr.assign m) :=
    ⟨hNmod.symm, h.vrUr.base, by omega, by omega⟩
  obtain ⟨s', hs', hframe, -, hsorted, hmem'⟩ := reassembleSnLoop_spec
    (s := { s with m_vrUr := s.m_vrUr.assign m }) h.vrUr hhigh (by omega)
    (show N - U < 1025 by omega) h.sorted
  rw [OrderedMap.contains_iff.mpr hmem, if_pos rfl, hm]
  refine ⟨s', N, hs', ⟨h.window, by omega, by omega, hframe.vrUh.trans h.vrUh, ?_, hsorted,
    fun k hk ↦ ?_⟩, by omega, hframe.vrUx, hframe.timer⟩
  · rw [hframe.vrUr]
    exact hhigh.value
  · obtain ⟨hks, hne⟩ := (hmem' k).mp hk
    obtain ⟨K, hUK, hKH, rfl⟩ := h.between k hks
    exact ⟨K, lt_of_kept hNnot hks hUK hne, hKH, rfl⟩

/-- In the window up to `X`, numbers below it are found by their distance. -/
theorem inside_succ_iff (hle : X < n + 1024) (hlt : n ≤ X) :
    Inside (X % 1024 + 1) (n % 1024) ↔ X < n + 512 := by
  rw [Inside, distance, windowSize]
  omega

theorem waitedFor_of_not_moves (h : ¬s.Moves x) : s.waitedFor x = s.m_vrUr.m_value :=
  if_neg fun h' ↦ h h'.1

theorem kept_of_not_moves {k : ℕ} (h : ¬s.Moves x) : s.Kept x k ↔ k = x ∨ k ∈ keys s.m_rxBuffer :=
  and_iff_left fun h' ↦ absurd h' h

theorem kept_of_moves {k : ℕ} (h : s.Moves x) :
    s.Kept x k ↔ (k = x ∨ k ∈ keys s.m_rxBuffer) ∧ Inside (x + 1) k :=
  and_congr_right fun _ ↦ ⟨fun h' ↦ h' h, fun h' _ ↦ h'⟩

/-- **The window is moved** for a PDU above it. -/
theorem updateWindow_spec (h : Tracks s H U) (hvrUh : t.m_vrUh.m_value = H % 1024)
    (hvrUr : SequenceNumber10.Denotes (H - 512) U t.m_vrUr)
    (hsorted : OrderedMap.Sorted t.m_rxBuffer) (hx : seqNumber.m_value = X % 1024) (hUX : U ≤ X)
    (hXH : X < H + 512)
    (hkeys : ∀ k, k ∈ keys t.m_rxBuffer ↔ k = X % 1024 ∨ k ∈ keys s.m_rxBuffer)
    (hpurges : s.Purges (X % 1024)) :
    ∃ t' H' U' B M, t.updateWindow seqNumber = some t' ∧ Stored t' H' U' B M ∧ H ≤ H' ∧ H' ≤ H + 512 ∧
      t'.m_vrUx = t.m_vrUx ∧ t'.m_reorderingTimer = t.m_reorderingTimer ∧
      (∀ k, k ∈ keys t'.m_rxBuffer ↔ s.Kept (X % 1024) k) ∧
      t'.m_vrUr.m_value = s.waitedFor (X % 1024) := by
  have hw := h.window
  have hle := h.le
  have hadd := h.le_add
  have hHlt : H % 1024 < 1024 := Nat.mod_lt _ (by decide)
  have hXlt : X % 1024 < 1024 := Nat.mod_lt _ (by decide)
  have hmoves : s.Moves (X % 1024) ↔ H ≤ X := by
    rw [Moves, h.vrUh, inside_iff (by omega) hXH, not_lt]
  by_cases hXlow : X < H
  · have hnot : ¬s.Moves (X % 1024) := fun hm ↦ absurd (hmoves.mp hm) (not_le.mpr hXlow)
    have hin : Inside t.m_vrUh.m_value seqNumber.m_value := by
      rw [hvrUh, hx]
      exact (inside_iff (by omega) hXH).mpr hXlow
    refine ⟨_, H, U, H - 512, H, updateWindow_of_inside (hvrUh ▸ hHlt) (hx ▸ hXlt) hin,
      ⟨hw, hadd, hvrUh, hvrUr, hsorted, fun k hk ↦ ?_, fun hmem ↦ ?_, hle, le_rfl, by omega⟩, le_rfl,
      by omega, rfl, rfl, fun k ↦ ?_, ?_⟩
    · rcases (hkeys k).mp hk with rfl | hk
      · exact ⟨X, hUX, hXlow, rfl⟩
      · obtain ⟨K, hUK, hKH, rfl⟩ := h.between k hk
        exact ⟨K, hUK.le, hKH, rfl⟩
    · rcases (hkeys _).mp hmem with heq | hk
      · omega
      · exact h.notMem (Or.inr le_rfl) (by omega) hadd hk
    · rw [kept_of_not_moves hnot]
      exact hkeys k
    · rw [waitedFor_of_not_moves hnot, h.vrUr]
      exact hvrUr.value
  have hmove : s.Moves (X % 1024) := hmoves.mpr (not_lt.mp hXlow)
  have hXin : Inside (X % 1024 + 1) (X % 1024) := (inside_succ_iff (by omega) le_rfl).mpr (by omega)
  have hout : ¬Inside t.m_vrUh.m_value (X % 1024) := by
    rw [hvrUh, ← h.vrUh]
    exact hmove
  have htlt : ∀ k ∈ keys t.m_rxBuffer, k < 1024 := by
    intro k hk
    rcases (hkeys k).mp hk with rfl | hk
    · exact hXlt
    · exact h.keys_lt k hk
  have hbelow : ∀ k ∈ keys t.m_rxBuffer, ¬Inside (X % 1024 + 1) k →
      ∀ k' ∈ keys t.m_rxBuffer, Inside (X % 1024 + 1) k' → k < k' := by
    intro k hk hkout k' hk' hkin
    rcases (hkeys k).mp hk with rfl | hk
    · exact absurd hXin hkout
    · obtain ⟨hkx, hkrest⟩ := hpurges hmove k hk hkout
      rcases (hkeys k').mp hk' with rfl | hk'
      · exact hkx
      · exact hkrest k' hk' hkin
  obtain ⟨t', ht', hsorted', hmem', hvrUx', htimer', hvrUh', hstay, hfall⟩ := updateWindow_of_moves
    (hvrUh ▸ hHlt) hx hXlt (hvrUr.value ▸ Nat.mod_lt _ (by decide)) hout hsorted htlt hbelow
  have hkept : ∀ k, k ∈ keys t'.m_rxBuffer ↔ s.Kept (X % 1024) k := fun k ↦ by
    rw [hmem', hkeys, kept_of_moves hmove]
  have hvrUh'' : t'.m_vrUh.m_value = (X + 1) % 1024 := by rw [hvrUh', Nat.mod_add_mod]
  -- what has been kept is the new PDU, and those before that are inside the window
  have hbetween : ∀ k ∈ keys t'.m_rxBuffer, ∃ K, (U < K ∧ K < H ∨ K = X) ∧ X < K + 512 ∧
      k = K % 1024 := by
    intro k hk
    obtain ⟨hk, hkin⟩ := (hmem' k).mp hk
    rcases (hkeys k).mp hk with rfl | hk
    · exact ⟨X, Or.inr rfl, by omega, rfl⟩
    · obtain ⟨K, hUK, hKH, rfl⟩ := h.between k hk
      exact ⟨K, Or.inl ⟨hUK, hKH⟩, (inside_succ_iff (by omega) (by omega)).mp hkin, rfl⟩
  have hvrUrin : Inside (X % 1024 + 1) t.m_vrUr.m_value ↔ X < U + 512 := by
    rw [hvrUr.value]
    exact inside_succ_iff (by omega) hUX
  have hwaited : s.waitedFor (X % 1024) =
      if X < U + 512 then U % 1024 else (X + 1 - 512) % 1024 := by
    rw [hvrUr.value, ← h.vrUr] at hvrUrin
    rw [waitedFor]
    by_cases hin : X < U + 512
    · rw [if_pos hin, if_neg fun h' ↦ h'.2 (hvrUrin.mpr hin)]
      exact h.vrUr
    · rw [if_neg hin, if_pos ⟨hmove, fun h' ↦ hin (hvrUrin.mp h')⟩, windowSize]
      omega
  by_cases hUin : X < U + 512
  · have hvrUr' := hstay (hvrUrin.mpr hUin)
    refine ⟨t', X + 1, U, H - 512, if X = H then X + 1 else H, ht', ⟨by omega, by omega, hvrUh'',
      hvrUr' ▸ hvrUr, hsorted', fun k hk ↦ ?_, fun hk ↦ ?_, ?_, ?_, ?_⟩, by omega, by omega, hvrUx',
      htimer', hkept, ?_⟩
    · obtain ⟨K, hK, -, rfl⟩ := hbetween k hk
      exact ⟨K, by omega, by omega, rfl⟩
    · obtain ⟨K, hK, -, heq⟩ := hbetween _ hk
      split_ifs at heq <;> omega
    · split_ifs <;> omega
    · split_ifs <;> omega
    · split_ifs <;> omega
    · rw [hwaited, if_pos hUin, hvrUr']
      exact hvrUr.value
  · obtain ⟨hvalue, hbase⟩ := hfall fun hin ↦ hUin (hvrUrin.mp hin)
    rw [windowStart_value hvrUh'' (by omega)] at hvalue hbase
    refine ⟨t', X + 1, X + 1 - 512, X + 1 - 512, X + 1, ht', ⟨by omega, by omega, hvrUh'',
      ⟨hvalue, hbase, le_rfl, by omega⟩, hsorted', fun k hk ↦ ?_, fun hk ↦ ?_, by omega, le_rfl,
      by omega⟩, by omega, by omega, hvrUx', htimer', hkept, ?_⟩
    · obtain ⟨K, hK, hin, rfl⟩ := hbetween k hk
      exact ⟨K, by omega, by omega, rfl⟩
    · obtain ⟨K, hK, hin, heq⟩ := hbetween _ hk
      omega
    · rw [hwaited, if_neg hUin]
      exact hvalue

end Place

/-! ## Steps -/

section Step

variable {s : Receiver α} {H U X x : ℕ} {seqNumber : SequenceNumber10} {p : α} {e : Event α}

theorem discards_eq (hH : 512 ≤ H) (hb : Based s H U)
    (hX : SequenceNumber10.Denotes (H - 512) X seqNumber) :
    s.discards seqNumber =
      some (decide ((U < X ∧ X < H) ∧ X % 1024 ∈ keys s.m_rxBuffer ∨ X < U)) := by
  have hstart : SequenceNumber10.Denotes (H - 512) (H - 512) s.windowStart :=
    ⟨windowStart_value hb.vrUh.value hH, hb.vrUh.base, le_rfl, by omega⟩
  have hcontains : OrderedMap.contains seqNumber.m_value s.m_rxBuffer =
      decide (X % 1024 ∈ keys s.m_rxBuffer) := by rw [OrderedMap.contains, hX.value]
  rw [discards, SequenceNumber10.lt_eq hb.vrUr hX, SequenceNumber10.lt_eq hX hb.vrUh,
    SequenceNumber10.le_eq hstart hX, SequenceNumber10.lt_eq hX hb.vrUr, hcontains,
    decide_eq_true hX.le]
  by_cases hUX : U < X <;> by_cases hXH : X < H <;> by_cases hk : X % 1024 ∈ keys s.m_rxBuffer <;>
    simp [andThen, orElse, hUX, hXH, hk]

/-- The state in which `DoReceivePdu` has set the modulus bases. -/
def based (s : Receiver α) : Receiver α :=
  setBase { s with m_vrUr := s.m_vrUr.setModulusBase s.windowStart }

theorem based_based (h : Tracks s H U) : Based s.based H U :=
  ⟨(based_setBases h).vrUh, (based_setBases h).vrUr⟩

theorem tracks_based (h : Tracks s H U) : Tracks s.based H U :=
  ⟨h.window, h.le, h.le_add, h.vrUh, h.vrUr, h.sorted, h.between⟩

/-- The state in which `DoReceivePdu` has placed a PDU in the buffer. -/
def place (s : Receiver α) (seqNumber : SequenceNumber10) (p : α) : Receiver α :=
  { s.based with m_rxBuffer := OrderedMap.insert seqNumber.m_value p s.m_rxBuffer }

theorem doReceivePdu_of_discards
    (h : s.based.discards ((SequenceNumber10.ofValue x).setModulusBase s.based.windowStart) =
      some true) : s.doReceivePdu x p = some s.based := by
  rw [doReceivePdu]
  change (s.based.discards ((SequenceNumber10.ofValue x).setModulusBase s.based.windowStart)).bind
    _ = _
  rw [h]
  rfl

theorem doReceivePdu_of_stages {t₁ t₂ t₃ t₄ : Receiver α}
    (hseq : seqNumber = (SequenceNumber10.ofValue x).setModulusBase s.based.windowStart)
    (h : s.based.discards seqNumber = some false)
    (h₁ : (s.place seqNumber p).updateWindow seqNumber = some t₁) (h₂ : t₁.advance = some t₂)
    (h₃ : t₂.setBases.stopTimer = some t₃)
    (h₄ : (if t₃.m_reorderingTimer then some t₃ else t₃.startTimer) = some t₄) :
    s.doReceivePdu x p = some t₄ := by
  subst hseq
  rw [doReceivePdu]
  change (s.based.discards ((SequenceNumber10.ofValue x).setModulusBase s.based.windowStart)).bind
    _ = _
  rw [h, Option.bind_some, if_neg Bool.false_ne_true]
  change ((s.place ((SequenceNumber10.ofValue x).setModulusBase s.based.windowStart) p).updateWindow
    ((SequenceNumber10.ofValue x).setModulusBase s.based.windowStart)).bind _ = _
  rw [h₁, Option.bind_some, h₂, Option.bind_eq_bind, Option.bind_some, h₃, Option.bind_some, h₄]

/-- **A PDU is received.** -/
theorem doReceivePdu_spec (h : Tracks s H U) (ht : Timed s H U)
    (hal : s.Allowed (.receive x p)) :
    ∃ s' H' U', s.doReceivePdu x p = some s' ∧ Tracks s' H' U' ∧ Timed s' H' U' := by
  obtain ⟨hpurges, hstops⟩ := hal
  have hw := h.window
  have hadd := h.le_add
  have hb := based_based h
  obtain ⟨X, hXle, hXlt, hXx⟩ := exists_mod_eq (H - 512) (Nat.mod_lt x (by decide : 0 < 1024))
  obtain ⟨seqNumber, hseq⟩ : ∃ seqNumber, seqNumber =
    (SequenceNumber10.ofValue x).setModulusBase s.based.windowStart := ⟨_, rfl⟩
  have hX : SequenceNumber10.Denotes (H - 512) X seqNumber := by
    rw [hseq]
    exact ⟨hXx, windowStart_value h.vrUh hw, hXle, hXlt⟩
  have hdisc := discards_eq hw hb hX
  rw [hXx] at hpurges hstops
  by_cases hdrop : (U < X ∧ X < H) ∧ X % 1024 ∈ keys s.m_rxBuffer ∨ X < U
  · have hdrop' := hdisc.trans (congrArg some (decide_eq_true hdrop))
    rw [hseq] at hdrop'
    refine ⟨s.based, H, U, doReceivePdu_of_discards hdrop', tracks_based h, ⟨ht.stopped, fun hr ↦ ?_⟩⟩
    exact ⟨hb, (ht.running hr).2⟩
  have hkeep := hdisc.trans (congrArg some (decide_eq_false hdrop))
  have hUX : U ≤ X := by
    by_contra hlt
    exact hdrop (Or.inr (not_le.mp hlt))
  obtain ⟨t₁, H', U', B, M, h₁, hstored, hHH', hH'H, hvrUx₁, htimer₁, hkept, hwaited⟩ :=
    updateWindow_spec (t := s.place seqNumber p) h h.vrUh hb.vrUr (h.sorted.insert _ _) hX.value hUX
      (by omega) (fun k ↦ by
        rw [place, OrderedMap.mem_keys_insert, hX.value]) hpurges
  obtain ⟨t₂, N, h₂, htracks₂, -, hvrUx₂, htimer₂⟩ := advance_spec hstored fun hzero ↦ by
    obtain ⟨k, hk, hle, hnot⟩ := hstops ((hkept 0).mp hzero)
    exact ⟨k, hk, hwaited.trans_le hle, fun hmem ↦ hnot ((hkept k).mp hmem)⟩
  obtain ⟨t₃, t₄, h₃, h₄, htracks, htimed⟩ := timers_spec htracks₂ fun hr ↦ by
    obtain ⟨-, Y, hUY, hYH, hY⟩ := ht.running (htimer₁ ▸ htimer₂ ▸ hr)
    exact ⟨Y, by rw [hvrUx₂, hvrUx₁]; exact hY.value, by omega, by omega⟩
  exact ⟨t₄, H', N, doReceivePdu_of_stages hseq hkeep h₁ h₂ h₃ h₄, htracks, htimed⟩

/-- **The reordering timer expires.** -/
theorem expireReorderingTimer_spec (h : Tracks s H U) (ht : Timed s H U)
    (hr : s.m_reorderingTimer = true) :
    ∃ s' U', s.expireReorderingTimer = some s' ∧ Tracks s' H U' ∧ Timed s' H U' := by
  obtain ⟨hb, X, hUX, hXH, hX⟩ := ht.running hr
  have hadd := h.le_add
  have hvrUh : H % 1024 ∉ keys s.m_rxBuffer := h.notMem (Or.inr le_rfl) (by omega) hadd
  obtain ⟨N, newVrUr, hnew, hN, hXN, hNH, hnot⟩ := firstMissingSn_spec
    (s := { s with m_reorderingTimer := false }) hX hXH hb.vrUh.lt hvrUh
  obtain ⟨t, hres, hframe, htvrUh, hsorted, hmem⟩ := reassembleSnLoop_spec
    (s := { s with m_reorderingTimer := false, m_vrUr := newVrUr }) hb.vrUr hN (by omega)
    (show N - U < 1025 by omega) h.sorted
  have htvrUr : t.m_vrUr = newVrUr := hframe.vrUr
  have htracks : Tracks t H N := by
    refine ⟨h.window, hNH, by omega, hframe.vrUh.trans h.vrUh, htvrUr ▸ hN.value, hsorted,
      fun k hk ↦ ?_⟩
    obtain ⟨hks, hne⟩ := (hmem k).mp hk
    obtain ⟨K, hUK, hKH, rfl⟩ := h.between k hks
    exact ⟨K, lt_of_kept hnot hks hUK.le hne, hKH, rfl⟩
  have hbased : Based t H N := ⟨htvrUh ▸ hb.vrUh, htvrUr ▸ hN⟩
  obtain ⟨s', hs', htracks', htimed'⟩ := startTimer_spec htracks hbased hframe.timer
  refine ⟨s', N, ?_, htracks', htimed'⟩
  rw [expireReorderingTimer]
  dsimp only
  rw [hnew, Option.bind_eq_bind, Option.bind_some, reassembleSnInterval, hres, Option.bind_eq_bind,
    Option.bind_some, hs']

end Step

/-! ## Runs -/

section Runs

variable {s s' : Receiver α} {e : Event α}

/-- The state is that of some numbers. -/
def Tracked (s : Receiver α) : Prop := ∃ H U, Tracks s H U ∧ Timed s H U

theorem tracked_create : (create : Receiver α).Tracked :=
  ⟨1024, 1024, ⟨by decide, le_rfl, by decide, rfl, rfl, OrderedMap.sorted_nil, fun _ hk ↦
    absurd hk List.not_mem_nil⟩, ⟨fun _ ↦ rfl, Bool.noConfusion⟩⟩

theorem Tracked.receive (h : s.Tracked) {x : ℕ} {p : α} (hal : s.Allowed (.receive x p)) :
    ∃ s', s.doReceivePdu x p = some s' ∧ s'.Tracked := by
  obtain ⟨H, U, htracks, htimed⟩ := h
  obtain ⟨s', H', U', hs', h'⟩ := doReceivePdu_spec htracks htimed hal
  exact ⟨s', hs', H', U', h'⟩

theorem Tracked.expire (h : s.Tracked) (hr : s.m_reorderingTimer = true) :
    ∃ s', s.expireReorderingTimer = some s' ∧ s'.Tracked := by
  obtain ⟨H, U, htracks, htimed⟩ := h
  obtain ⟨s', U', hs', h'⟩ := expireReorderingTimer_spec htracks htimed hr
  exact ⟨s', hs', H, U', h'⟩

theorem Tracked.step (h : s.Tracked) (hal : s.Allowed e) (hs : (machine α).next s e = some s') :
    s'.Tracked := by
  cases e with
  | receive x p =>
    obtain ⟨t, ht, htracked⟩ := h.receive hal
    exact Option.some.inj (ht.symm.trans hs) ▸ htracked
  | expire =>
    change (if s.m_reorderingTimer then s.expireReorderingTimer else none) = some s' at hs
    by_cases hr : s.m_reorderingTimer = true
    · rw [if_pos hr] at hs
      obtain ⟨t, ht, htracked⟩ := h.expire hr
      exact Option.some.inj (ht.symm.trans hs) ▸ htracked
    · rw [if_neg hr] at hs
      exact absurd hs.symm (Option.some_ne_none s')

/-- **The state is as it should be** in every run of such events, and no assertion fails and no loop goes
on forever. -/
theorem consistent {es : List (Event α)} (hr : (machine α).Run Allowed es s) : s.Consistent ∧
    (∀ x p, s.Allowed (.receive x p) → (s.doReceivePdu x p).isSome = true) ∧
    (s.m_reorderingTimer = true → s.expireReorderingTimer.isSome = true) := by
  have h : s.Tracked := hr.invariant (I := Tracked) tracked_create fun _ _ _ hI hal hs ↦ hI.step hal hs
  refine ⟨?_, fun x p hal ↦ ?_, fun hrun ↦ ?_⟩
  · obtain ⟨H, U, htracks, htimed⟩ := h
    exact htracks.toConsistent htimed
  · obtain ⟨t, ht, -⟩ := h.receive hal
    rw [ht]
    rfl
  · obtain ⟨t, ht, -⟩ := h.expire hrun
    rw [ht]
    rfl

/-- A PDU is missing, and is given up when the timer expires. -/
theorem consistent_after_timeout : ∃ s : Receiver ℕ,
    (machine ℕ).Run Allowed [.receive 3 30, .receive 0 0, .expire, .receive 5 50] s ∧
      s.m_rxBuffer ≠ [] ∧ s.Consistent := by
  refine Machine.exists_run_and_allowed (p := fun s ↦ s.m_rxBuffer ≠ []) (by decide +kernel)
    (by decide +kernel) fun s hr hne ↦ ?_
  exact ⟨hne, (consistent hr).1⟩

/-- After 511 and 900 the number 100 moves the window to 613 to 100. 511 is outside, but not below 100,
and it stays in the buffer. -/
theorem not_consistent : ∃ s : Receiver ℕ,
    (machine ℕ).Run Machine.unguarded [.receive 511 0, .receive 900 1, .receive 100 2] s ∧
      ¬s.Consistent :=
  Machine.exists_run_of_exec (by decide +kernel)

/-- After 511, 1022 and 0 the timer expires, and VR(UR) is 1023. When that arrives, VR(UR) becomes 0, which
is in the buffer. -/
example : ∃ s : Receiver ℕ, (machine ℕ).Run Machine.unguarded
    [.receive 511 0, .receive 1022 1, .receive 0 2, .expire, .receive 1023 3] s ∧ ¬s.Consistent :=
  Machine.exists_run_of_exec (by decide +kernel)

end Runs

end Receiver

end LteRlcUm

end Lte

end Ns3
