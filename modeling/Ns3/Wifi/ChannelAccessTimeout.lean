import Ns3.Library.Machine
import Ns3.Wifi.ChannelAccessManager

/-!
# No contender is left without a wake-up

Between the calls, a `Txop` that has requested the access is granted it, at the latest, when its
backoff ends: the access timeout is pending for then, or for earlier. The code ensures this wherever it
restarts the timeout. A notification that does not restart it may only move the backoffs later, but
some replace an interval by one that ends sooner, and then the timeout is late.

`Guard` is the condition under which this does not happen: a notification does not bring forward the
start of a backoff that is waited for, and a `Txop` that is granted the access transmits, or no loser
of the internal collision draws an empty backoff. Requests in a contention-free period, which are granted
without a look at the backoff, are left out.
-/

namespace Ns3

namespace Wifi

namespace ChannelAccessManager

variable {s s' s₁ s₂ : ChannelAccessManager} {x : Txop} {i j : ℕ}

/-! ## Restarting the access timeout -/

/-- A `Txop` has requested the access and its backoff has not ended. -/
def Waits (s : ChannelAccessManager) (x : Txop) : Prop :=
  x.m_accessRequested = true ∧ s.now < s.getBackoffEndFor x

instance (s : ChannelAccessManager) (x : Txop) : Decidable (s.Waits x) :=
  inferInstanceAs (Decidable (_ ∧ _))

/-- The access timeout is pending, and not later than now or the end of the backoff of `x`. -/
def Armed (s : ChannelAccessManager) (x : Txop) : Prop :=
  ∃ t, s.m_accessTimeout = some t ∧ t ≤ max s.now (s.getBackoffEndFor x)

theorem doRestartAccessTimeoutIfNeeded_eq (s : ChannelAccessManager) :
    ∃ t p, s.doRestartAccessTimeoutIfNeeded = { s with m_accessTimeout := t, pcfTxop := p } ∧
      (s.pcfTxop = none → p = none) := by
  rw [doRestartAccessTimeoutIfNeeded]
  split
  · exact ⟨_, _, rfl, id⟩
  · split
    · exact ⟨_, _, rfl, fun _ ↦ rfl⟩
    · split_ifs
      · exact ⟨_, _, rfl, fun _ ↦ rfl⟩
      · exact ⟨_, _, rfl, id⟩

theorem expectedBackoffEnd_le (hx : x ∈ s.m_txops) (hw : s.Waits x) :
    ∃ e, s.expectedBackoffEnd = some e ∧ s.now < e ∧ e ≤ s.getBackoffEndFor x := by
  have hmem : s.getBackoffEndFor x ∈
      (s.m_txops.filter fun x ↦ x.m_accessRequested && decide (s.now < s.getBackoffEndFor x)).map
        s.getBackoffEndFor :=
    List.mem_map_of_mem (List.mem_filter.mpr ⟨hx, by simp [hw.1, hw.2]⟩)
  cases he : s.expectedBackoffEnd with
  | none =>
    rw [expectedBackoffEnd, List.min?_eq_none_iff] at he
    rw [he] at hmem
    exact absurd hmem List.not_mem_nil
  | some e =>
    obtain ⟨hin, hmin⟩ := List.min?_eq_some_iff.mp he
    obtain ⟨y, hy, rfl⟩ := List.mem_map.mp hin
    have := (List.mem_filter.mp hy).2
    rw [Bool.and_eq_true, decide_eq_true_iff] at this
    exact ⟨_, rfl, this.2, hmin _ hmem⟩

/-- **A restart arms the timeout for everyone who waits.** -/
theorem armed_doRestart (hx : x ∈ s.m_txops) (hw : s.Waits x) :
    s.doRestartAccessTimeoutIfNeeded.Armed x := by
  obtain ⟨e, he, hnow, hle⟩ := expectedBackoffEnd_le hx hw
  rw [doRestartAccessTimeoutIfNeeded, he]
  cases ht : s.m_accessTimeout with
  | none => exact ⟨e, rfl, hle.trans (le_max_right _ _)⟩
  | some t =>
    dsimp only
    split_ifs with hlt
    · exact ⟨e, rfl, hle.trans (le_max_right _ _)⟩
    · refine ⟨t, ht, le_trans ?_ (hle.trans (le_max_right _ _))⟩
      omega

/-! ## What a notification does to those who wait -/

theorem lt_getAccessGrantStart (hsifs : 0 < s.m_sifs)
    (h : s.now ≤ s.m_lastTxStart + s.m_lastTxDuration ∨
      s.now ≤ s.m_lastNavStart + s.m_lastNavDuration ∨ s.now ≤ s.m_lastAckTimeoutEnd ∨
      s.now ≤ s.m_lastCtsTimeoutEnd) : s.now < s.getAccessGrantStart := by
  simp only [getAccessGrantStart, mostRecent, List.foldr_cons, List.foldr_nil, lt_max_iff]
  omega

/-- The backoff of `x` is not brought forward by a call that leaves the intervals of `s₁`, counts the
slots down, and leaves the intervals of `s₂`. -/
def KeepsStartFor (s s₁ s₂ : ChannelAccessManager) (x : Txop) : Prop :=
  if s₁.getBackoffStartFor x ≤ s.now then s.getBackoffStartFor x ≤ s₁.getBackoffStartFor x
  else s.getBackoffStartFor x ≤ s₂.getBackoffStartFor x

instance (s s₁ s₂ : ChannelAccessManager) (x : Txop) : Decidable (KeepsStartFor s s₁ s₂ x) :=
  inferInstanceAs (Decidable (if s₁.getBackoffStartFor x ≤ s.now then _ else _))

/-- No backoff that is waited for is brought forward. -/
def KeepsStart (s s₁ s₂ : ChannelAccessManager) : Prop :=
  ∀ x ∈ s.m_txops, s.Waits x → KeepsStartFor s s₁ s₂ x

instance (s s₁ s₂ : ChannelAccessManager) : Decidable (KeepsStart s s₁ s₂) :=
  inferInstanceAs (Decidable (∀ x ∈ s.m_txops, s.Waits x → KeepsStartFor s s₁ s₂ x))

/-- The condition on a notification: it does not bring forward the start of a backoff that is waited
for and has not been counted, unless it restarts the access timeout. The NAV is only made longer, and
the timeout of an acknowledgment starts after the last one. -/
def NotifyGuard (s : ChannelAccessManager) : Notification → Prop
  | .rxStart d => KeepsStart s s
      { s with m_lastRxStart := s.now, m_lastRxDuration := d, m_lastRxReceivedOk := true }
  | .rxEndOk => KeepsStart s s.notifyRxEndOkNow s.notifyRxEndOkNow
  | .rxEndError => KeepsStart s s.notifyRxEndErrorNow s.notifyRxEndErrorNow
  | .txStart d => KeepsStart s s.truncateRx
      { s.truncateRx with m_lastTxStart := s.now, m_lastTxDuration := d }
  | .maybeCcaBusyStart d => KeepsStart s s
      { s with m_lastBusyStart := s.now, m_lastBusyDuration := d }
  | .ctsTimeoutStart d => KeepsStart s (s.notifyCtsTimeoutStartNow d) (s.notifyCtsTimeoutStartNow d)
  | .navReset _ | .navStart _ | .ackTimeoutStart _ | .ackTimeoutReset | .ctsTimeoutReset => True

instance (s : ChannelAccessManager) : (n : Notification) → Decidable (s.NotifyGuard n)
  | .rxStart _ => inferInstanceAs (Decidable (KeepsStart _ _ _))
  | .rxEndOk => inferInstanceAs (Decidable (KeepsStart _ _ _))
  | .rxEndError => inferInstanceAs (Decidable (KeepsStart _ _ _))
  | .txStart _ => inferInstanceAs (Decidable (KeepsStart _ _ _))
  | .maybeCcaBusyStart _ => inferInstanceAs (Decidable (KeepsStart _ _ _))
  | .ctsTimeoutStart _ => inferInstanceAs (Decidable (KeepsStart _ _ _))
  | .navReset _ | .navStart _ | .ackTimeoutStart _ | .ackTimeoutReset | .ctsTimeoutReset =>
    inferInstanceAs (Decidable True)

/-- What no call of `RequestAccess`, `AccessTimeout` or a notification changes. -/
def config (s : ChannelAccessManager) : ℕ × ℕ × ℕ × Bool × Bool :=
  (s.now, s.m_slot, s.m_sifs, s.m_sleeping, s.m_off)

/-- What a call leaves as it is, apart from the backoffs and the access timeout; and it grants no
access too early. -/
structure Frame (s s' : ChannelAccessManager) : Prop where
  config_eq : s'.config = s.config
  grants : ∀ g ∈ s'.grants, g ∈ s.grants ∨ g.backoffEnd ≤ g.time
  pcfTxop : s.pcfTxop = none → s'.pcfTxop = none

namespace Frame

theorem of_eq (hconfig : s'.config = s.config) (hgrants : s'.grants = s.grants)
    (hpcf : s'.pcfTxop = s.pcfTxop) : Frame s s' :=
  ⟨hconfig, fun _ hg ↦ .inl (hgrants ▸ hg), hpcf.trans⟩

theorem now_eq (h : Frame s s') : s'.now = s.now := congrArg (·.1) h.config_eq

theorem slot_eq (h : Frame s s') : s'.m_slot = s.m_slot := congrArg (·.2.1) h.config_eq

theorem sifs_eq (h : Frame s s') : s'.m_sifs = s.m_sifs := congrArg (·.2.2.1) h.config_eq

theorem awake (h : Frame s s') (hawake : s'.m_sleeping = false) (hon : s'.m_off = false) :
    s.m_sleeping = false ∧ s.m_off = false :=
  ⟨(congrArg (·.2.2.2.1) h.config_eq).symm.trans hawake,
    (congrArg (·.2.2.2.2) h.config_eq).symm.trans hon⟩

theorem trans (h : Frame s s₁) (h' : Frame s₁ s₂) : Frame s s₂ where
  config_eq := h'.config_eq.trans h.config_eq
  grants g hg := (h'.grants g hg).elim (h.grants g) .inr
  pcfTxop := h'.pcfTxop ∘ h.pcfTxop

theorem doRestart (s : ChannelAccessManager) : Frame s s.doRestartAccessTimeoutIfNeeded := by
  obtain ⟨t, p, ht, hp⟩ := s.doRestartAccessTimeoutIfNeeded_eq
  rw [ht]
  exact ⟨rfl, fun _ ↦ .inl, hp⟩

end Frame

/-- The requests stay. -/
def SameRequests (s s' : ChannelAccessManager) : Prop :=
  ∀ (j : ℕ) (x' : Txop), s'.m_txops[j]? = some x' →
    ∃ x, s.m_txops[j]? = some x ∧ x'.m_accessRequested = x.m_accessRequested

theorem sameRequests_of_counted (htxops : s'.m_txops = s.m_txops.map s₁.updateBackoffOf) :
    SameRequests s s' := by
  intro j x' hx'
  rw [htxops, List.getElem?_map, Option.map_eq_some_iff] at hx'
  obtain ⟨x, hx, rfl⟩ := hx'
  exact ⟨x, hx, updateBackoffOf_accessRequested s₁ x⟩

theorem sameRequests_of_eq (htxops : s'.m_txops = s.m_txops) : SameRequests s s' :=
  fun _ x hx ↦ ⟨x, htxops ▸ hx, rfl⟩

/-- The manager knows of a transmission that has not ended before now. -/
def Transmits (s : ChannelAccessManager) : Prop := s.now ≤ s.m_lastTxStart + s.m_lastTxDuration

/-- What a notification leaves as it is: the requests and, unless it starts another, the last
transmission. -/
structure Quiet (s s' : ChannelAccessManager) : Prop extends Frame s s' where
  requests : SameRequests s s'
  transmits : s.Transmits → s'.Transmits

namespace Quiet

theorem trans (h : Quiet s s₁) (h' : Quiet s₁ s₂) : Quiet s s₂ where
  toFrame := h.toFrame.trans h'.toFrame
  requests j x'' hx'' := by
    obtain ⟨x', hx', heq'⟩ := h'.requests j x'' hx''
    obtain ⟨x, hx, heq⟩ := h.requests j x' hx'
    exact ⟨x, hx, heq'.trans heq⟩
  transmits := h'.transmits ∘ h.transmits

theorem of_eq (hframe : Frame s s') (htxops : s'.m_txops = s.m_txops)
    (htx : s.Transmits → s'.Transmits) : Quiet s s' := ⟨hframe, sameRequests_of_eq htxops, htx⟩

theorem of_counted (hframe : Frame s s') (htxops : s'.m_txops = s.m_txops.map s₁.updateBackoffOf)
    (htx : s.Transmits → s'.Transmits) : Quiet s s' := ⟨hframe, sameRequests_of_counted htxops, htx⟩

theorem doRestart (h : Quiet s s') : Quiet s s'.doRestartAccessTimeoutIfNeeded := by
  apply h.trans
  have hframe := Frame.doRestart s'
  obtain ⟨t, p, ht, -⟩ := s'.doRestartAccessTimeoutIfNeeded_eq
  rw [ht] at hframe ⊢
  exact .of_eq hframe rfl id

end Quiet

theorem truncateRx_eq (s : ChannelAccessManager) : ∃ d, s.truncateRx =
    { s with m_lastRxReceivedOk := true, m_lastRxDuration := d } := by
  rw [truncateRx]
  split_ifs
  · exact ⟨_, rfl⟩
  · exact ⟨_, rfl⟩

theorem notifyRxEndErrorNow_eq (s : ChannelAccessManager) : ∃ b d, s.notifyRxEndErrorNow =
    { s with
      m_lastBusyStart := b, m_lastBusyDuration := d
      m_lastRxDuration := s.now - s.m_lastRxStart, m_lastRxReceivedOk := false } := by
  rw [notifyRxEndErrorNow]
  split_ifs
  · exact ⟨_, _, rfl⟩
  · exact ⟨_, _, rfl⟩

theorem notifyTxStartNow_eq {d : ℕ} (h : s.notifyTxStartNow d = some s') :
    s' = { s.truncateRx.updateBackoff with m_lastTxStart := s.now, m_lastTxDuration := d } := by
  rw [notifyTxStartNow, Option.ite_none_left_eq_some, Option.some_inj] at h
  exact h.2.symm

theorem notifyNavStartNow_eq {d : ℕ} (h : s.notifyNavStartNow d = some s') :
    s.m_lastNavStart + s.m_lastNavDuration < s.now + d ∧
        s' = { s.updateBackoff with m_lastNavStart := s.now, m_lastNavDuration := d } ∨
      s' = s.updateBackoff := by
  rw [notifyNavStartNow, Option.ite_none_right_eq_some, Option.some_inj] at h
  obtain ⟨-, rfl⟩ := h
  split_ifs with hlong
  · exact .inl ⟨hlong, rfl⟩
  · exact .inr rfl

theorem notifyAckTimeoutStartNow_eq {d : ℕ} (h : s.notifyAckTimeoutStartNow d = some s') :
    s.m_lastAckTimeoutEnd < s.now ∧ s' = { s with m_lastAckTimeoutEnd := s.now + d } := by
  rw [notifyAckTimeoutStartNow, Option.ite_none_right_eq_some, Option.some_inj] at h
  exact ⟨h.1, h.2.symm⟩

/-- **The frame of the notifications.** -/
theorem notify_quiet {n : Notification} (h : s.notify n = some s') : Quiet s s' := by
  cases n with
  | rxStart d =>
    obtain rfl := Option.some_inj.mp h
    exact .of_counted (.of_eq rfl rfl rfl) rfl id
  | rxEndOk =>
    obtain rfl := Option.some_inj.mp h
    exact .of_eq (.of_eq rfl rfl rfl) rfl id
  | rxEndError =>
    obtain rfl := Option.some_inj.mp h
    obtain ⟨b, d, hbd⟩ := s.notifyRxEndErrorNow_eq
    rw [hbd]
    exact .of_eq (.of_eq rfl rfl rfl) rfl id
  | txStart d =>
    obtain ⟨e, he⟩ := s.truncateRx_eq
    rw [notifyTxStartNow_eq h, he]
    exact .of_counted (.of_eq rfl rfl rfl) rfl fun _ ↦ Nat.le_add_right _ _
  | maybeCcaBusyStart d =>
    obtain rfl := Option.some_inj.mp h
    exact .of_counted (.of_eq rfl rfl rfl) rfl id
  | navReset d =>
    obtain rfl := Option.some_inj.mp h
    exact .doRestart (.of_counted (.of_eq rfl rfl rfl) rfl id)
  | navStart d =>
    rcases notifyNavStartNow_eq h with ⟨-, rfl⟩ | rfl
    · exact .of_counted (.of_eq rfl rfl rfl) rfl id
    · exact .of_counted (.of_eq rfl rfl rfl) rfl id
  | ackTimeoutStart d =>
    obtain ⟨-, rfl⟩ := notifyAckTimeoutStartNow_eq h
    exact .of_eq (.of_eq rfl rfl rfl) rfl id
  | ackTimeoutReset =>
    obtain rfl := Option.some_inj.mp h
    exact .doRestart (.of_eq (.of_eq rfl rfl rfl) rfl id)
  | ctsTimeoutStart d =>
    obtain rfl := Option.some_inj.mp h
    exact .of_eq (.of_eq rfl rfl rfl) rfl id
  | ctsTimeoutReset =>
    obtain rfl := Option.some_inj.mp h
    exact .doRestart (.of_eq (.of_eq rfl rfl rfl) rfl id)

/-! ## The backoffs that are waited for -/

/-- No backoff that is waited for ends earlier. -/
def Later (s s' : ChannelAccessManager) : Prop :=
  ∀ (j : ℕ) (x' : Txop), s'.m_txops[j]? = some x' →
    ∃ x, s.m_txops[j]? = some x ∧ x'.m_accessRequested = x.m_accessRequested ∧
      (s.Waits x → s.getBackoffEndFor x ≤ s'.getBackoffEndFor x')

theorem later_of_keepsStart (h : KeepsStart s s' s') (htxops : s'.m_txops = s.m_txops)
    (hslot : s'.m_slot = s.m_slot) : Later s s' := by
  intro j x hx
  rw [htxops] at hx
  refine ⟨x, hx, rfl, fun hw ↦ end_le_of_start_le ?_ hslot⟩
  have := h x (List.mem_of_getElem? hx) hw
  rwa [KeepsStartFor, ite_self] at this

theorem later_of_counted (h : KeepsStart s s₁ s₂) (hnow : s₁.now = s.now)
    (hslot₁ : s₁.m_slot = s.m_slot) (hslot : s'.m_slot = s.m_slot)
    (htxops : s'.m_txops = s.m_txops.map s₁.updateBackoffOf)
    (hgrant : s'.getAccessGrantStart = s₂.getAccessGrantStart) (hslot₂ : s₂.m_slot = s.m_slot) :
    Later s s' := by
  intro j x' hx'
  rw [htxops, List.getElem?_map, Option.map_eq_some_iff] at hx'
  obtain ⟨x, hx, rfl⟩ := hx'
  refine ⟨x, hx, updateBackoffOf_accessRequested s₁ x, fun hw ↦ ?_⟩
  have hkeep := h x (List.mem_of_getElem? hx) hw
  rw [KeepsStartFor] at hkeep
  by_cases hcount : s₁.getBackoffStartFor x ≤ s.now
  · rw [if_pos hcount] at hkeep
    exact (end_le_of_start_le hkeep hslot₁).trans
      (end_le_of_counted (hslot.trans hslot₁.symm) (hnow ▸ hcount))
  · rw [if_neg hcount] at hkeep
    rw [updateBackoffOf, if_neg (hnow ▸ hcount)]
    refine end_le_of_start_le ?_ hslot
    rwa [getBackoffStartFor_eq s', hslot, hgrant, ← hslot₂, ← getBackoffStartFor_eq]

theorem keepsStart_of_le (h : s.getAccessGrantStart ≤ s₂.getAccessGrantStart)
    (hslot : s₂.m_slot = s.m_slot) : KeepsStart s s s₂ ∧ KeepsStart s s₂ s₂ := by
  have hle (x : Txop) : s.getBackoffStartFor x ≤ s₂.getBackoffStartFor x :=
    start_le_of_grantStart_le h hslot
  constructor
  · intro x _ _
    rw [KeepsStartFor]
    split_ifs
    · exact le_rfl
    · exact hle x
  · intro x _ _
    rw [KeepsStartFor, ite_self]
    exact hle x

/-- **The notifications.** A notification leaves the access timeout as it is and brings no backoff
forward, or it restarts the timeout and every backoff ends after now. -/
theorem notify_cases {n : Notification} (h : s.notify n = some s') (hsifs : 0 < s.m_sifs)
    (hok : s.NotifyGuard n) :
    s'.m_accessTimeout = s.m_accessTimeout ∧ Later s s' ∨
      ∃ s₁ : ChannelAccessManager,
        s' = s₁.doRestartAccessTimeoutIfNeeded ∧ s₁.now < s₁.getAccessGrantStart := by
  cases n with
  | rxStart d =>
    obtain rfl := Option.some_inj.mp h
    exact .inl ⟨rfl, later_of_counted hok rfl rfl rfl rfl rfl rfl⟩
  | rxEndOk =>
    obtain rfl := Option.some_inj.mp h
    exact .inl ⟨rfl, later_of_keepsStart hok rfl rfl⟩
  | rxEndError =>
    obtain rfl := Option.some_inj.mp h
    obtain ⟨b, d, hbd⟩ := s.notifyRxEndErrorNow_eq
    rw [NotifyGuard, hbd] at hok
    rw [hbd]
    exact .inl ⟨rfl, later_of_keepsStart hok rfl rfl⟩
  | txStart d =>
    obtain ⟨e, he⟩ := s.truncateRx_eq
    rw [NotifyGuard, he] at hok
    rw [notifyTxStartNow_eq h, he]
    exact .inl ⟨rfl, later_of_counted hok rfl rfl rfl rfl rfl rfl⟩
  | maybeCcaBusyStart d =>
    obtain rfl := Option.some_inj.mp h
    exact .inl ⟨rfl, later_of_counted hok rfl rfl rfl rfl rfl rfl⟩
  | navReset d =>
    obtain rfl := Option.some_inj.mp h
    exact .inr ⟨_, rfl, lt_getAccessGrantStart hsifs (.inr (.inl (Nat.le_add_right _ _)))⟩
  | navStart d =>
    rcases notifyNavStartNow_eq h with ⟨hlong, rfl⟩ | rfl
    · have hle : s.getAccessGrantStart ≤ getAccessGrantStart
          { s with m_lastNavStart := s.now, m_lastNavDuration := d } := by
        simp only [getAccessGrantStart, mostRecent, List.foldr_cons, List.foldr_nil]
        gcongr
        exact le_rfl
      exact .inl ⟨rfl, later_of_counted (keepsStart_of_le hle rfl).1 rfl rfl rfl rfl rfl rfl⟩
    · exact .inl ⟨rfl, later_of_counted (keepsStart_of_le le_rfl rfl).1 rfl rfl rfl rfl rfl rfl⟩
  | ackTimeoutStart d =>
    obtain ⟨hended, rfl⟩ := notifyAckTimeoutStartNow_eq h
    have hle : s.getAccessGrantStart ≤
        getAccessGrantStart { s with m_lastAckTimeoutEnd := s.now + d } := by
      simp only [getAccessGrantStart, mostRecent, List.foldr_cons, List.foldr_nil]
      gcongr
      · exact le_rfl
      · exact hended.le.trans (Nat.le_add_right _ _)
    exact .inl ⟨rfl, later_of_keepsStart (keepsStart_of_le hle rfl).2 rfl rfl⟩
  | ackTimeoutReset =>
    obtain rfl := Option.some_inj.mp h
    exact .inr ⟨_, rfl, lt_getAccessGrantStart hsifs (.inr (.inr (.inl le_rfl)))⟩
  | ctsTimeoutStart d =>
    obtain rfl := Option.some_inj.mp h
    exact .inl ⟨rfl, later_of_keepsStart hok rfl rfl⟩
  | ctsTimeoutReset =>
    obtain rfl := Option.some_inj.mp h
    exact .inr ⟨_, rfl, lt_getAccessGrantStart hsifs (.inr (.inr (.inr le_rfl)))⟩

/-- The requests whose backoff has not ended. -/
def AllWait (s : ChannelAccessManager) : Prop :=
  ∀ (j : ℕ) (x : Txop), s.m_txops[j]? = some x → x.m_accessRequested = true →
    s.now < s.getBackoffEndFor x

/-- The access timeout is armed for every request, apart from those of some `Txop`s. -/
def ArmedBut (is : List ℕ) (s : ChannelAccessManager) : Prop :=
  ∀ (j : ℕ) (x : Txop), j ∉ is → s.m_txops[j]? = some x → x.m_accessRequested = true → s.Armed x

theorem allWait_of_lt (h : s.now < s.getAccessGrantStart) : AllWait s :=
  fun _ x _ _ ↦ h.trans_le (s.getAccessGrantStart_le_end x)

theorem AllWait.doRestart (h : AllWait s) (is : List ℕ) :
    ArmedBut is s.doRestartAccessTimeoutIfNeeded := by
  intro j x _ hx hreq
  obtain ⟨t, p, ht, -⟩ := s.doRestartAccessTimeoutIfNeeded_eq
  have hx' : s.m_txops[j]? = some x := by rwa [ht] at hx
  exact armed_doRestart (List.mem_of_getElem? hx') ⟨hreq, h j x hx' hreq⟩

theorem ArmedBut.of_later (h : ArmedBut [] s) (htimeout : s'.m_accessTimeout = s.m_accessTimeout)
    (hnow : s'.now = s.now)
    (hlater : ∀ (j : ℕ) (x' : Txop), s'.m_txops[j]? = some x' → x'.m_accessRequested = true →
      ∃ x, s.m_txops[j]? = some x ∧ x.m_accessRequested = true ∧
        (s.Waits x → s.getBackoffEndFor x ≤ s'.getBackoffEndFor x')) : ArmedBut [] s' := by
  intro j x' hj hx' hreq'
  obtain ⟨x, hx, hreq, hle⟩ := hlater j x' hx' hreq'
  obtain ⟨t, ht, htle⟩ := h j x hj hx hreq
  refine ⟨t, htimeout.trans ht, ?_⟩
  rw [hnow]
  by_cases hw : s.now < s.getBackoffEndFor x
  · exact htle.trans (max_le_max_left _ (hle ⟨hreq, hw⟩))
  · rw [max_eq_left (not_lt.mp hw)] at htle
    exact htle.trans (le_max_left _ _)

theorem ArmedBut.notify {n : Notification} (h : ArmedBut [] s) (hs : s.notify n = some s')
    (hsifs : 0 < s.m_sifs) (hok : s.NotifyGuard n) : ArmedBut [] s' := by
  rcases notify_cases hs hsifs hok with ⟨htimeout, hlater⟩ | ⟨s₁, rfl, hlt⟩
  · apply h.of_later htimeout (notify_quiet hs).now_eq
    intro j x' hx' hreq'
    obtain ⟨x, hx, heq, hle⟩ := hlater j x' hx'
    exact ⟨x, hx, heq ▸ hreq', hle⟩
  · exact (allWait_of_lt hlt).doRestart []

/-! ## The accesses -/

/-- The requests stay, and those whose backoff has not ended still wait. -/
def StillWait (s s' : ChannelAccessManager) : Prop :=
  ∀ (j : ℕ) (x' : Txop), s'.m_txops[j]? = some x' →
    ∃ x, s.m_txops[j]? = some x ∧ x'.m_accessRequested = x.m_accessRequested ∧
      (s.Waits x → s'.Waits x')

theorem notify_stillWait {n : Notification} (h : s.notify n = some s') (hsifs : 0 < s.m_sifs)
    (hok : s.NotifyGuard n) : StillWait s s' := by
  have hquiet := notify_quiet h
  rcases notify_cases h hsifs hok with ⟨-, hlater⟩ | ⟨s₁, rfl, hlt⟩
  · intro j x' hx'
    obtain ⟨x, hx, heq, hle⟩ := hlater j x' hx'
    refine ⟨x, hx, heq, fun hw ↦ ⟨heq.trans hw.1, ?_⟩⟩
    rw [hquiet.now_eq]
    exact hw.2.trans_le (hle hw)
  · intro j x' hx'
    obtain ⟨x, hx, heq⟩ := hquiet.requests j x' hx'
    obtain ⟨t, p, ht, -⟩ := s₁.doRestartAccessTimeoutIfNeeded_eq
    rw [ht] at hx' ⊢
    exact ⟨x, hx, heq, fun hw ↦ ⟨heq.trans hw.1, allWait_of_lt hlt j x' hx' (heq.trans hw.1)⟩⟩

/-- The condition on several notifications, each in the state that the ones before it leave. -/
def NotifyAllGuard (s : ChannelAccessManager) : List Notification → Prop
  | [] => True
  | n :: ns => s.NotifyGuard n ∧ match s.notify n with
    | none => True
    | some s' => s'.NotifyAllGuard ns

instance decidableNotifyAllGuard :
    (ns : List Notification) → (s : ChannelAccessManager) → Decidable (s.NotifyAllGuard ns)
  | [], _ => inferInstanceAs (Decidable True)
  | n :: ns, s =>
    have : Decidable (match s.notify n with
        | none => True
        | some s' => s'.NotifyAllGuard ns) :=
      match s.notify n with
      | none => inferInstanceAs (Decidable True)
      | some s' => decidableNotifyAllGuard ns s'
    inferInstanceAs (Decidable (_ ∧ _))

theorem notifyAll_quiet {ns : List Notification} (h : s.notifyAll ns = some s') : Quiet s s' := by
  induction ns generalizing s with
  | nil =>
    obtain rfl := Option.some_inj.mp h
    exact .of_eq (.of_eq rfl rfl rfl) rfl id
  | cons n ns ih =>
    obtain ⟨s₁, hn, hns⟩ := Option.bind_eq_some_iff.mp h
    exact (notify_quiet hn).trans (ih hns)

theorem notifyAll_stillWait {ns : List Notification} (h : s.notifyAll ns = some s')
    (hsifs : 0 < s.m_sifs) (hok : s.NotifyAllGuard ns) : StillWait s s' := by
  induction ns generalizing s with
  | nil =>
    obtain rfl := Option.some_inj.mp h
    exact fun j x hx ↦ ⟨x, hx, rfl, id⟩
  | cons n ns ih =>
    obtain ⟨s₁, hn, hns⟩ := Option.bind_eq_some_iff.mp h
    rw [NotifyAllGuard, hn] at hok
    intro j x'' hx''
    obtain ⟨x', hx', heq', hw'⟩ := ih hns ((notify_quiet hn).sifs_eq ▸ hsifs) hok.2 j x'' hx''
    obtain ⟨x, hx, heq, hw⟩ := notify_stillWait hn hsifs hok.1 j x' hx'
    exact ⟨x, hx, heq'.trans heq, hw' ∘ hw⟩

theorem notify_txStart {d : ℕ} (h : s.notify (.txStart d) = some s') : s'.Transmits := by
  obtain ⟨e, he⟩ := s.truncateRx_eq
  rw [notifyTxStartNow_eq h, he]
  exact Nat.le_add_right _ _

theorem notifyAll_transmits {r : Reaction} (h : s.notifyAll r.notifications = some s')
    (htx : r.transmits = true) : s'.Transmits := by
  rw [Reaction.transmits] at htx
  generalize r.notifications = ns at h htx
  induction ns generalizing s with
  | nil => exact absurd htx Bool.false_ne_true
  | cons n ns ih =>
    obtain ⟨s₁, hn, hns⟩ := Option.bind_eq_some_iff.mp h
    rw [List.any_cons, Bool.or_eq_true] at htx
    rcases htx with htx | htx
    · cases n with
      | txStart d => exact (notifyAll_quiet hns).transmits (notify_txStart hn)
      | _ => exact absurd htx Bool.false_ne_true
    · exact ih hns htx

/-- The condition on an access: the `Txop` that is granted it transmits, or it has the others wait on
and those that lose the internal collision draw at least one slot. -/
def GrantGuard (s : ChannelAccessManager) (r : Reaction) : Prop :=
  match s.winner with
  | none => True
  | some i => r.transmits = true ∨ (s.accessGranted i).NotifyAllGuard r.notifications ∧
      ∀ j < s.m_txops.length, s.collides i j = true → 0 < r.slots j

instance (s : ChannelAccessManager) (r : Reaction) : Decidable (s.GrantGuard r) :=
  match h : s.winner with
  | none => .isTrue (by rw [GrantGuard, h]; trivial)
  | some i =>
    decidable_of_iff (r.transmits = true ∨ (s.accessGranted i).NotifyAllGuard r.notifications ∧
      ∀ j < s.m_txops.length, s.collides i j = true → 0 < r.slots j) (by rw [GrantGuard, h])

theorem expired_iff : s.expired x = true ↔
    x.m_accessRequested = true ∧ s.getBackoffEndFor x ≤ s.now := by
  rw [expired, Bool.and_eq_true, decide_eq_true_iff]

/-- The winner's backoff has ended, and no `Txop` before it has requested the access and its backoff
has ended. -/
theorem winner_spec (h : s.winner = some i) :
    (∃ x, s.m_txops[i]? = some x ∧ s.getBackoffEndFor x ≤ s.now) ∧
      ∀ j x, j < i → s.m_txops[j]? = some x → s.expired x = false := by
  obtain ⟨hlt, hexp, hbefore⟩ := List.findIdx?_eq_some_iff_getElem.mp h
  refine ⟨⟨_, List.getElem?_eq_getElem hlt, (expired_iff.mp hexp).2⟩, fun j x hj hx ↦ ?_⟩
  obtain ⟨hjlt, rfl⟩ := List.getElem?_eq_some_iff.mp hx
  exact Bool.eq_false_iff.mpr (hbefore j hj)

theorem accessGranted_spec (h : s.winner = some i)
    (hx : (s.accessGranted i).m_txops[j]? = some x) (hreq : x.m_accessRequested = true) :
    s.Waits x ∨ s.collides i j = true := by
  rw [accessGranted, List.getElem?_modify] at hx
  obtain ⟨y, hy, hyx⟩ := Option.map_eq_some_iff.mp hx
  by_cases hij : i = j
  · rw [if_pos hij] at hyx
    rw [← hyx] at hreq
    exact absurd hreq Bool.false_ne_true
  · rw [if_neg hij] at hyx
    obtain rfl : y = x := hyx
    by_cases hexp : s.expired y = true
    · refine .inr ?_
      rw [collides, hy, Option.any_some, hexp, Bool.and_true, decide_eq_true_iff]
      by_contra hle
      rw [(winner_spec h).2 j y (by omega) hy] at hexp
      exact Bool.false_ne_true hexp
    · rw [expired_iff, not_and, not_le] at hexp
      exact .inl ⟨hreq, hexp hreq⟩

theorem Frame.accessGranted (h : s.winner = some i) : Frame s (s.accessGranted i) := by
  obtain ⟨⟨x, hx, hle⟩, -⟩ := winner_spec h
  refine ⟨rfl, fun g hg ↦ ?_, id⟩
  rw [ChannelAccessManager.accessGranted, hx] at hg
  rcases List.mem_cons.mp hg with rfl | hg
  · exact .inr hle
  · exact .inl hg

theorem lt_end_startBackoffNow {n : ℕ} (hslot : 0 < s.m_slot) (hn : 0 < n) :
    s.now < s.getBackoffEndFor (x.startBackoffNow s.now n) := by
  have hstart : s.now ≤ s.getBackoffStartFor (x.startBackoffNow s.now n) := by
    rw [getBackoffStartFor_eq]
    exact le_max_left _ _
  exact hstart.trans_lt (Nat.lt_add_of_pos_right (Nat.mul_pos hn hslot))

/-- **An access leaves no backoff that has ended to a request.** -/
theorem doGrantDcfAccess_spec {r : Reaction} (h : s.doGrantDcfAccess r = some s')
    (hslot : 0 < s.m_slot) (hsifs : 0 < s.m_sifs) (hok : s.GrantGuard r) :
    Frame s s' ∧ AllWait s' := by
  rw [doGrantDcfAccess] at h
  rw [GrantGuard] at hok
  cases hwin : s.winner with
  | none =>
    rw [hwin] at h
    obtain rfl := Option.some_inj.mp h
    refine ⟨.of_eq rfl rfl rfl, fun j x hx hreq ↦ ?_⟩
    have := List.findIdx?_eq_none_iff.mp hwin x (List.mem_of_getElem? hx)
    by_contra hle
    rw [expired_iff.mpr ⟨hreq, not_lt.mp hle⟩] at this
    exact Bool.false_ne_true this.symm
  | some i =>
    rw [hwin] at h hok
    obtain ⟨s₁, hs₁, rfl⟩ := Option.map_eq_some_iff.mp h
    have hgranted := Frame.accessGranted hwin
    have hquiet := notifyAll_quiet hs₁
    have hframe := hgranted.trans hquiet.toFrame
    refine ⟨hframe.trans (.of_eq rfl rfl rfl), ?_⟩
    rcases hok with htx | ⟨hall, hslots⟩
    · -- the winner transmits from now on
      apply allWait_of_lt
      have := notifyAll_transmits hs₁ htx
      exact lt_getAccessGrantStart (hframe.sifs_eq ▸ hsifs) (.inl this)
    · intro j x'' hx'' hreq
      rw [internalCollisions, List.getElem?_mapIdx] at hx''
      obtain ⟨x', hx', rfl⟩ := Option.map_eq_some_iff.mp hx''
      obtain ⟨x, hx, heq, hw⟩ := notifyAll_stillWait hs₁ hsifs hall j x' hx'
      by_cases hcol : s.collides i j = true
      · rw [if_pos hcol]
        have hlt : j < s.m_txops.length := by
          by_contra hge
          rw [collides, List.getElem?_eq_none (not_lt.mp hge), Option.any_none, Bool.and_false] at hcol
          exact Bool.false_ne_true hcol
        exact lt_end_startBackoffNow (hframe.slot_eq ▸ hslot) (hslots j hlt hcol)
      · rw [if_neg hcol] at hreq ⊢
        rcases accessGranted_spec hwin hx (heq ▸ hreq) with hwait | hcol'
        · exact (hw hwait).2
        · exact absurd hcol' hcol

/-! ## The calls that grant accesses -/

/-- The condition on `RequestAccess`. -/
def RequestGuard (s : ChannelAccessManager) (i : ℕ) (r : Reaction) : Prop :=
  (s.m_sleeping || s.m_off) = true ∨ (s.accessRequested i).GrantGuard r

instance (s : ChannelAccessManager) (i : ℕ) (r : Reaction) : Decidable (s.RequestGuard i r) :=
  inferInstanceAs (Decidable (_ ∨ _))

theorem requestAccess_spec {r : Reaction} (h : s.requestAccess i false r = some s') (hslot : 0 < s.m_slot)
    (hsifs : 0 < s.m_sifs) (hok : s.RequestGuard i r) :
    Frame s s' ∧ (s' = s ∨ ∀ is, ArmedBut is s') := by
  rw [requestAccess] at h
  cases hx : s.m_txops[i]? with
  | none =>
    rw [hx] at h
    exact absurd h.symm (Option.some_ne_none _)
  | some x =>
    rw [hx] at h
    dsimp only at h
    by_cases hasleep : (s.m_sleeping || s.m_off) = true
    · rw [if_pos hasleep] at h
      obtain rfl := Option.some_inj.mp h
      exact ⟨.of_eq rfl rfl rfl, .inl rfl⟩
    · rw [if_neg hasleep, if_neg Bool.false_ne_true, Option.ite_none_left_eq_some] at h
      obtain ⟨s₁, hs₁, rfl⟩ := Option.map_eq_some_iff.mp h.2
      obtain ⟨hframe, hwait⟩ := doGrantDcfAccess_spec hs₁ hslot hsifs (hok.resolve_left hasleep)
      have hrequested : Frame s (s.accessRequested i) := .of_eq rfl rfl rfl
      exact ⟨(hrequested.trans hframe).trans (.doRestart _), .inr fun is ↦ hwait.doRestart is⟩

/-- The condition on `AccessTimeout`. -/
def TimeoutGuard (s : ChannelAccessManager) (r : Reaction) : Prop :=
  (updateBackoff { s with m_accessTimeout := none }).GrantGuard r

instance (s : ChannelAccessManager) (r : Reaction) : Decidable (s.TimeoutGuard r) :=
  inferInstanceAs (Decidable (GrantGuard _ _))

theorem accessTimeout_eq {r : Reaction} (hpcf : s.pcfTxop = none) : s.accessTimeout r =
    (doGrantDcfAccess (updateBackoff { s with m_accessTimeout := none }) r).map
      doRestartAccessTimeoutIfNeeded := by
  rw [accessTimeout]
  split
  · next hi => exact absurd (hi.symm.trans hpcf) (Option.some_ne_none _)
  · rfl

theorem accessTimeout_spec {r : Reaction} (h : s.accessTimeout r = some s') (hslot : 0 < s.m_slot)
    (hsifs : 0 < s.m_sifs) (hok : s.TimeoutGuard r) (hpcf : s.pcfTxop = none) :
    Frame s s' ∧ ArmedBut [] s' := by
  rw [accessTimeout_eq hpcf] at h
  obtain ⟨s₁, hs₁, rfl⟩ := Option.map_eq_some_iff.mp h
  obtain ⟨hframe, hwait⟩ := doGrantDcfAccess_spec hs₁ hslot hsifs hok
  have hexpired : Frame s (updateBackoff { s with m_accessTimeout := none }) := .of_eq rfl rfl rfl
  exact ⟨(hexpired.trans hframe).trans (.doRestart _), hwait.doRestart []⟩

/-- The condition on the requests of a wake-up, each in the state that the ones before it leave. -/
def RestartGuard (restarts : ℕ → Option Reaction) : List ℕ → ChannelAccessManager → Prop
  | [], _ => True
  | i :: is, s =>
    match restarts i with
    | none => RestartGuard restarts is (s.resetTxop i)
    | some r => (s.resetTxop i).RequestGuard i r ∧ match (s.resetTxop i).requestAccess i false r with
      | none => True
      | some s' => RestartGuard restarts is s'

instance decidableRestartGuard (restarts : ℕ → Option Reaction) :
    (is : List ℕ) → (s : ChannelAccessManager) → Decidable (RestartGuard restarts is s)
  | [], _ => inferInstanceAs (Decidable True)
  | i :: is, s =>
    match h : restarts i with
    | none =>
      have := decidableRestartGuard restarts is (s.resetTxop i)
      decidable_of_iff (RestartGuard restarts is (s.resetTxop i)) (by rw [RestartGuard, h])
    | some r =>
      have : Decidable (match (s.resetTxop i).requestAccess i false r with
          | none => True
          | some s' => RestartGuard restarts is s') :=
        match (s.resetTxop i).requestAccess i false r with
        | none => inferInstanceAs (Decidable True)
        | some s' => decidableRestartGuard restarts is s'
      decidable_of_iff ((s.resetTxop i).RequestGuard i r ∧
        match (s.resetTxop i).requestAccess i false r with
        | none => True
        | some s' => RestartGuard restarts is s') (by rw [RestartGuard, h])

/-- A wake-up leaves the access timeout armed for the requests of all the `Txop`s it has gone
through. -/
theorem restartAll_spec {restarts : ℕ → Option Reaction} {is : List ℕ}
    (h : restartAll restarts is s = some s') (hslot : 0 < s.m_slot) (hsifs : 0 < s.m_sifs)
    (hok : RestartGuard restarts is s) (harmed : ArmedBut is s) : Frame s s' ∧ ArmedBut [] s' := by
  induction is generalizing s with
  | nil =>
    obtain rfl := Option.some_inj.mp h
    exact ⟨.of_eq rfl rfl rfl, harmed⟩
  | cons i is ih =>
    have hreset : ArmedBut is (s.resetTxop i) := by
      intro j x hj hx hreq
      rw [resetTxop, List.getElem?_modify] at hx
      obtain ⟨y, hy, hyx⟩ := Option.map_eq_some_iff.mp hx
      by_cases hij : i = j
      · rw [if_pos hij] at hyx
        rw [← hyx] at hreq
        exact absurd hreq Bool.false_ne_true
      · rw [if_neg hij] at hyx
        obtain rfl : y = x := hyx
        exact harmed j y (fun hmem ↦ (List.mem_cons.mp hmem).elim (Ne.symm hij) hj) hy hreq
    have hframe : Frame s (s.resetTxop i) := .of_eq rfl rfl rfl
    rw [restartAll] at h
    rw [RestartGuard] at hok
    cases hi : restarts i with
    | none =>
      rw [hi] at h hok
      obtain ⟨hframe', harmed'⟩ := ih h hslot hsifs hok hreset
      exact ⟨hframe.trans hframe', harmed'⟩
    | some r =>
      rw [hi] at h hok
      obtain ⟨s₁, hs₁, hrest⟩ := Option.bind_eq_some_iff.mp h
      dsimp only at hok
      rw [hs₁] at hok
      obtain ⟨hframe₁, hs₁'⟩ := requestAccess_spec hs₁ hslot hsifs hok.1
      have harmed₁ : ArmedBut is s₁ := by
        rcases hs₁' with rfl | hall
        · exact hreset
        · exact hall is
      obtain ⟨hframe', harmed'⟩ := ih hrest (hframe₁.slot_eq ▸ hslot) (hframe₁.sifs_eq ▸ hsifs)
        hok.2 harmed₁
      exact ⟨(hframe.trans hframe₁).trans hframe', harmed'⟩

/-! ## The runs -/

/-- What happens to a manager: a call of the medium or of a `Txop`, the access timeout, or time that
passes. -/
inductive Op
  | notify (n : Notification)
  | requestAccess (i : ℕ) (isCfPeriod : Bool) (r : Reaction)
  | accessTimeout (r : Reaction)
  | switchingStart (duration : ℕ)
  | sleep
  | wakeup (restarts : ℕ → Option Reaction)
  | off
  | on (restarts : ℕ → Option Reaction)
  | startBackoff (i nSlots : ℕ)
  | needBackoffUponAccess (i : ℕ) (hasFrames isCfPeriod : Bool)
  | wait (d : ℕ)

/-- One step. The access timeout runs at its instant, and time does not pass it. A `Txop` draws a
backoff while it has no request, and a `Txop` with a request has frames. -/
def next (s : ChannelAccessManager) : Op → Option ChannelAccessManager
  | .notify n => s.notify n
  | .requestAccess i isCfPeriod r => s.requestAccess i isCfPeriod r
  | .accessTimeout r => if s.m_accessTimeout = some s.now then s.accessTimeout r else none
  | .switchingStart d => s.notifySwitchingStartNow d
  | .sleep => some s.notifySleepNow
  | .wakeup restarts => s.notifyWakeupNow restarts
  | .off => some s.notifyOffNow
  | .on restarts => s.notifyOnNow restarts
  | .startBackoff i n =>
    if (s.m_txops[i]?).any (·.m_accessRequested) then none
    else some { s with m_txops := s.m_txops.modify i fun x ↦ x.startBackoffNow s.now n }
  | .needBackoffUponAccess i hasFrames isCfPeriod =>
    if (s.m_txops[i]?).any (·.m_accessRequested) && !hasFrames then none
    else some (s.needBackoffUponAccess i hasFrames isCfPeriod)
  | .wait d =>
    if (s.m_accessTimeout).all fun t ↦ decide (s.now + d ≤ t) then some { s with now := s.now + d }
    else none

/-- The condition on a step. -/
def Guard (s : ChannelAccessManager) : Op → Prop
  | .notify n => s.NotifyGuard n
  | .requestAccess i isCfPeriod r => isCfPeriod = false ∧ s.RequestGuard i r
  | .accessTimeout r => s.TimeoutGuard r
  | .wakeup restarts =>
    RestartGuard restarts (List.range s.m_txops.length) { s with m_sleeping := false }
  | .on restarts => RestartGuard restarts (List.range s.m_txops.length) { s with m_off := false }
  | _ => True

instance (s : ChannelAccessManager) : (op : Op) → Decidable (Guard s op)
  | .notify n => inferInstanceAs (Decidable (s.NotifyGuard n))
  | .requestAccess _ _ _ => inferInstanceAs (Decidable (_ ∧ _))
  | .accessTimeout r => inferInstanceAs (Decidable (s.TimeoutGuard r))
  | .wakeup _ => inferInstanceAs (Decidable (RestartGuard _ _ _))
  | .on _ => inferInstanceAs (Decidable (RestartGuard _ _ _))
  | .switchingStart _ | .sleep | .off | .startBackoff _ _ | .needBackoffUponAccess _ _ _
  | .wait _ =>
    inferInstanceAs (Decidable True)

/-- **The invariant of the runs.** -/
structure Woken (slot sifs : ℕ) (s : ChannelAccessManager) : Prop where
  slot_eq : s.m_slot = slot
  sifs_eq : s.m_sifs = sifs
  /-- While the manager is awake, the access timeout is armed for every request. -/
  armed : s.m_sleeping = false → s.m_off = false → ArmedBut [] s
  /-- No access has been granted before the end of the backoff. -/
  grants : ∀ g ∈ s.grants, g.backoffEnd ≤ g.time
  /-- The access timeout is `AccessTimeout`. -/
  pcfTxop : s.pcfTxop = none

namespace Woken

variable {slot sifs : ℕ}

theorem of_frame (h : Woken slot sifs s) (hframe : Frame s s')
    (harmed : s'.m_sleeping = false → s'.m_off = false → ArmedBut [] s') : Woken slot sifs s' where
  slot_eq := hframe.slot_eq.trans h.slot_eq
  sifs_eq := hframe.sifs_eq.trans h.sifs_eq
  armed := harmed
  grants g hg := (hframe.grants g hg).elim (h.grants g) id
  pcfTxop := hframe.pcfTxop h.pcfTxop

theorem wait (h : Woken slot sifs s) (d : ℕ) : Woken slot sifs { s with now := s.now + d } where
  slot_eq := h.slot_eq
  sifs_eq := h.sifs_eq
  grants := h.grants
  pcfTxop := h.pcfTxop
  armed hawake hon j x hj hx hreq := by
    obtain ⟨t, ht, hle⟩ := h.armed hawake hon j x hj hx hreq
    have hrx : s.rxAccessStart ≤ rxAccessStart { s with now := s.now + d } := by
      rw [rxAccessStart, rxAccessStart]
      dsimp only
      split_ifs with h₁ h₂
      · exact le_rfl
      · exact absurd ⟨h₁.1.trans (Nat.le_add_right _ _), h₁.2⟩ h₂
      · exact Nat.le_add_right _ _
      · exact le_rfl
    have hgrant : s.getAccessGrantStart ≤ getAccessGrantStart { s with now := s.now + d } := by
      simp only [getAccessGrantStart, mostRecent, List.foldr_cons, List.foldr_nil]
      gcongr
    have hend := end_le_of_start_le (start_le_of_grantStart_le (x := x) hgrant rfl) rfl
    exact ⟨t, ht, hle.trans (max_le_max (Nat.le_add_right _ _) hend)⟩

theorem startBackoff (h : Woken slot sifs s) (n : ℕ)
    (hfree : (s.m_txops[i]?).any (·.m_accessRequested) = false) :
    Woken slot sifs { s with m_txops := s.m_txops.modify i fun x ↦ x.startBackoffNow s.now n } := by
  refine ⟨h.slot_eq, h.sifs_eq, fun hawake hon ↦ (h.armed hawake hon).of_later rfl rfl ?_, h.grants,
    h.pcfTxop⟩
  intro j x' hx' hreq
  rw [List.getElem?_modify] at hx'
  obtain ⟨x, hx, rfl⟩ := Option.map_eq_some_iff.mp hx'
  by_cases hij : i = j
  · rw [if_pos hij] at hreq
    rw [hij, hx, Option.any_some] at hfree
    exact absurd (hreq.symm.trans hfree) Bool.false_ne_true.symm
  · rw [if_neg hij] at hreq ⊢
    exact ⟨x, hx, hreq, fun _ ↦ le_rfl⟩

theorem immediateAccess_accessRequested (s : ChannelAccessManager) (hasFrames isCfPeriod : Bool)
    (x : Txop) : (s.immediateAccess hasFrames isCfPeriod x).m_accessRequested = x.m_accessRequested := by
  rw [immediateAccess]
  split_ifs <;> rfl

theorem needBackoffUponAccess (h : Woken slot sifs s) {hasFrames isCfPeriod : Bool}
    (hfree : ((s.m_txops[i]?).any (·.m_accessRequested) && !hasFrames) = false) :
    Woken slot sifs (s.needBackoffUponAccess i hasFrames isCfPeriod) := by
  refine ⟨h.slot_eq, h.sifs_eq, fun hawake hon ↦ (h.armed hawake hon).of_later rfl rfl ?_, h.grants,
    h.pcfTxop⟩
  intro j x' hx' hreq
  rw [ChannelAccessManager.needBackoffUponAccess, updateBackoff, List.getElem?_modify,
    List.getElem?_map] at hx'
  obtain ⟨y, hy, rfl⟩ := Option.map_eq_some_iff.mp hx'
  obtain ⟨x, hx, rfl⟩ := Option.map_eq_some_iff.mp hy
  have hreq' : x.m_accessRequested = true := by
    rw [← updateBackoffOf_accessRequested s]
    split_ifs at hreq
    · rwa [immediateAccess_accessRequested] at hreq
    · exact hreq
  -- a request means that there are frames, and then the backoff is only counted down
  have heq : (if i = j then s.immediateAccess hasFrames isCfPeriod (s.updateBackoffOf x)
      else s.updateBackoffOf x) = s.updateBackoffOf x := by
    split_ifs with hij
    · rw [hij, hx, Option.any_some, hreq', Bool.true_and, Bool.not_eq_false'] at hfree
      rw [immediateAccess, hfree, if_neg fun hno ↦ Bool.false_ne_true hno.1.symm]
    · rfl
  rw [heq]
  exact ⟨x, hx, hreq', fun _ ↦ (s.end_updateBackoffOf x).ge⟩

theorem wakeup {restarts : ℕ → Option Reaction} (h : Woken slot sifs s) (hslot : 0 < slot)
    (hsifs : 0 < sifs) (s₁ : ChannelAccessManager)
    (hs : restartAll restarts (List.range s₁.m_txops.length) s₁ = some s')
    (hok : RestartGuard restarts (List.range s₁.m_txops.length) s₁) (hslot₁ : s₁.m_slot = s.m_slot)
    (hsifs₁ : s₁.m_sifs = s.m_sifs) (hgrants : s₁.grants = s.grants) (hpcf : s₁.pcfTxop = s.pcfTxop) :
    Woken slot sifs s' := by
  have hslot' : s₁.m_slot = slot := hslot₁.trans h.slot_eq
  have hsifs' : s₁.m_sifs = sifs := hsifs₁.trans h.sifs_eq
  obtain ⟨hframe, harmed⟩ := restartAll_spec hs (hslot' ▸ hslot) (hsifs' ▸ hsifs) hok
    fun j x hj hx ↦ absurd (List.mem_range.mpr (List.getElem?_eq_some_iff.mp hx).1) hj
  exact ⟨hframe.slot_eq.trans hslot', hframe.sifs_eq.trans hsifs', fun _ _ ↦ harmed,
    fun g hg ↦ (hframe.grants g hg).elim (fun hg' ↦ h.grants g (hgrants ▸ hg')) id,
    hframe.pcfTxop (hpcf.trans h.pcfTxop)⟩

theorem step {op : Op} (h : Woken slot sifs s) (hslot : 0 < slot) (hsifs : 0 < sifs)
    (hok : Guard s op) (hs : next s op = some s') : Woken slot sifs s' := by
  have hslot' : 0 < s.m_slot := h.slot_eq ▸ hslot
  have hsifs' : 0 < s.m_sifs := h.sifs_eq ▸ hsifs
  cases op with
  | notify n =>
    have hframe := (notify_quiet hs).toFrame
    refine h.of_frame hframe fun hawake hon ↦ ?_
    obtain ⟨hawake', hon'⟩ := hframe.awake hawake hon
    exact (h.armed hawake' hon').notify hs hsifs' hok
  | requestAccess i isCfPeriod r =>
    obtain ⟨rfl, hok⟩ := hok
    obtain ⟨hframe, rfl | harmed⟩ := requestAccess_spec hs hslot' hsifs' hok
    · exact h
    · exact h.of_frame hframe fun _ _ ↦ harmed []
  | accessTimeout r =>
    rw [next, Option.ite_none_right_eq_some] at hs
    obtain ⟨hframe, harmed⟩ := accessTimeout_spec hs.2 hslot' hsifs' hok h.pcfTxop
    exact h.of_frame hframe fun _ _ ↦ harmed
  | switchingStart d =>
    rw [next, notifySwitchingStartNow, Option.ite_none_right_eq_some, Option.some_inj] at hs
    obtain ⟨-, rfl⟩ := hs
    refine ⟨h.slot_eq, h.sifs_eq, fun _ _ j x _ hx hreq ↦ ?_, h.grants, h.pcfTxop⟩
    rw [List.getElem?_map] at hx
    obtain ⟨y, -, rfl⟩ := Option.map_eq_some_iff.mp hx
    exact absurd hreq Bool.false_ne_true
  | sleep =>
    obtain rfl := Option.some_inj.mp hs
    exact ⟨h.slot_eq, h.sifs_eq, fun hawake ↦ absurd hawake.symm Bool.false_ne_true, h.grants,
      h.pcfTxop⟩
  | off =>
    obtain rfl := Option.some_inj.mp hs
    exact ⟨h.slot_eq, h.sifs_eq, fun _ hon ↦ absurd hon.symm Bool.false_ne_true, h.grants,
      h.pcfTxop⟩
  | wakeup restarts => exact h.wakeup hslot hsifs { s with m_sleeping := false } hs hok rfl rfl rfl rfl
  | on restarts => exact h.wakeup hslot hsifs { s with m_off := false } hs hok rfl rfl rfl rfl
  | startBackoff i n =>
    rw [next, Option.ite_none_left_eq_some, Option.some_inj] at hs
    obtain ⟨hfree, rfl⟩ := hs
    exact h.startBackoff n (Bool.eq_false_iff.mpr hfree)
  | needBackoffUponAccess i hasFrames isCfPeriod =>
    rw [next, Option.ite_none_left_eq_some, Option.some_inj] at hs
    obtain ⟨hfree, rfl⟩ := hs
    exact h.needBackoffUponAccess (Bool.eq_false_iff.mpr hfree)
  | wait d =>
    rw [next, Option.ite_none_right_eq_some, Option.some_inj] at hs
    obtain ⟨-, rfl⟩ := hs
    exact h.wait d

end Woken

variable {slot sifs eifsNoDifs : ℕ} {txops : List (ℕ × Bool)} {ops : List Op}

end ChannelAccessManager

end Wifi

end Ns3
