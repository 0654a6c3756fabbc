import Ns3.Wifi.MacLow

/-!
# Fragments in the reorder buffer

`RxCompleteBufferedPacketsWithSmallerSequence` is meant to pass up the MSDUs behind a sequence control
of which all fragments have arrived. At a fragment that is not the last one it moves the guard on, but
not the iterator; the next turn finds that the guard is not that of the fragment and moves it back. The
loop stays at the fragment for ever.

So it ends only if every MPDU behind the sequence control is the last fragment of its MSDU. It passes up
each of them, be it the only fragment or not.
-/

namespace Ns3

namespace Wifi

variable {α : Type*}

/-! ## The order of the buffer -/

/-- The integer that the order of the buffer is that of. -/
abbrev WifiMacQueueItem.mapped (endSequence : ℕ) (m : WifiMacQueueItem α) : ℕ :=
  qosUtilsMapSeqControlToUniqueInteger m.getSequenceControl endSequence

/-- The buffer is in order. -/
def SortedBuffer (endSequence : ℕ) (l : List (WifiMacQueueItem α)) : Prop :=
  l.Pairwise fun a b ↦ a.mapped endSequence ≤ b.mapped endSequence

theorem SortedBuffer.insert {endSequence : ℕ} {l : List (WifiMacQueueItem α)}
    (h : SortedBuffer endSequence l) (m : WifiMacQueueItem α) :
    SortedBuffer endSequence
      (RecipientAgreement.insert endSequence (m.mapped endSequence) m l) ∧
      ∀ x ∈ RecipientAgreement.insert endSequence (m.mapped endSequence) m l, x = m ∨ x ∈ l := by
  induction l with
  | nil => exact ⟨List.pairwise_singleton _ _, fun x hx ↦ .inl (List.mem_singleton.mp hx)⟩
  | cons y l ih =>
    obtain ⟨hy, hl⟩ := List.pairwise_cons.mp h
    rw [RecipientAgreement.insert]
    by_cases hlt : y.mapped endSequence < m.mapped endSequence
    · rw [if_pos hlt]
      obtain ⟨hsorted, hmem⟩ := ih hl
      constructor
      · refine List.pairwise_cons.mpr ⟨fun x hx ↦ ?_, hsorted⟩
        rcases hmem x hx with rfl | hx
        · exact hlt.le
        · exact hy x hx
      · intro x hx
        rcases List.mem_cons.mp hx with rfl | hx
        · exact .inr List.mem_cons_self
        · exact (hmem x hx).imp_right (List.mem_cons_of_mem _)
    · rw [if_neg hlt]
      refine ⟨List.pairwise_cons.mpr ⟨fun x hx ↦ ?_, h⟩, fun x hx ↦ List.mem_cons.mp hx⟩
      rcases List.mem_cons.mp hx with rfl | hx
      · exact not_lt.mp hlt
      · exact (not_lt.mp hlt).trans (hy x hx)

/-- A buffer in the order of its agreement. -/
abbrev RecipientAgreement.Sorted (s : RecipientAgreement α) : Prop :=
  SortedBuffer ((s.m_startingSeq + 2047) % 4096) s.buffer

theorem storeMpduIfNeeded_sorted {s : RecipientAgreement α} (h : s.Sorted)
    (m : WifiMacQueueItem α) : (s.storeMpduIfNeeded m).Sorted :=
  (SortedBuffer.insert h m).1

theorem create_sorted (startingSeq bufferSize : ℕ) :
    (RecipientAgreement.create startingSeq bufferSize : RecipientAgreement α).Sorted :=
  List.Pairwise.nil

/-! ## Fragments -/

/-- The MPDU is from an MSDU whose fragments, up to the one without more fragments, are all in the
buffer. -/
def Complete (l : List (WifiMacQueueItem α)) (m : WifiMacQueueItem α) : Prop :=
  ∃ n, m.fragmentNumber ≤ n ∧
    (∃ f ∈ l, f.sequenceNumber = m.sequenceNumber ∧ f.fragmentNumber = n ∧ f.moreFragments = false) ∧
    ∀ k < n, ∃ f ∈ l, f.sequenceNumber = m.sequenceNumber ∧ f.fragmentNumber = k ∧
      f.moreFragments = true

/-- The routine ends, removes just the MPDUs behind `seq`, and passes up just those of them that are
from complete MSDUs. -/
def Drains (s : RecipientAgreement α) (seq : ℕ) : Prop :=
  let endSequence := (s.m_startingSeq + 2047) % 4096
  let mappedStart := qosUtilsMapSeqControlToUniqueInteger seq endSequence
  ∃ fuel up rest, RecipientAgreement.smallerSequenceLoop endSequence mappedStart fuel
      (s.buffer.head?.elim 0 (·.getSequenceControl)) s.buffer = some (up, rest) ∧
    rest = s.buffer.filter (fun m ↦ ¬m.mapped endSequence < mappedStart) ∧
    (∀ p ∈ up, p ∈ s.buffer ∧ p.mapped endSequence < mappedStart ∧ Complete s.buffer p) ∧
    ∀ m ∈ s.buffer, m.mapped endSequence < mappedStart → Complete s.buffer m →
      ∃ p ∈ up, p.getSequenceControl = m.getSequenceControl

section Loop

variable {endSequence mappedStart : ℕ} {l : List (WifiMacQueueItem α)} {x : WifiMacQueueItem α}

theorem SortedBuffer.dropWhile (h : SortedBuffer endSequence l) (p : WifiMacQueueItem α → Bool) :
    SortedBuffer endSequence (l.dropWhile p) :=
  h.sublist (List.dropWhile_sublist p)

theorem mem_dropWhile_of_ne {m : WifiMacQueueItem α} {guard : ℕ} (hm : m ∈ l)
    (hne : guard ≠ m.getSequenceControl) :
    m ∈ l.dropWhile fun y ↦ guard = y.getSequenceControl := by
  rw [← List.takeWhile_append_dropWhile (p := fun y ↦ guard = y.getSequenceControl) (l := l)] at hm
  rcases List.mem_append.mp hm with hm | hm
  · have hskip := List.mem_takeWhile_imp hm
    exact absurd (of_decide_eq_true hskip) hne
  · exact hm

/-- **At a fragment with more fragments the loop does not end.** -/
theorem smallerSequenceLoop_eq_none (fuel : ℕ) : ∀ {l : List (WifiMacQueueItem α)} {guard : ℕ},
    SortedBuffer endSequence l →
    (∀ a ∈ l, ∀ b ∈ l, a.getSequenceControl = b.getSequenceControl →
      a.moreFragments = b.moreFragments) →
    (∃ m ∈ l, m.mapped endSequence < mappedStart ∧ m.moreFragments = true) →
    RecipientAgreement.smallerSequenceLoop endSequence mappedStart fuel guard l = none := by
  induction fuel with
  | zero => exact fun _ _ _ ↦ rfl
  | succ fuel ih =>
    intro l guard hsorted hcopies hmore
    obtain ⟨m, hm, hlt, htrue⟩ := hmore
    cases l with
    | nil => exact absurd hm List.not_mem_nil
    | cons x i =>
      have hx : x.mapped endSequence < mappedStart := by
        rcases List.mem_cons.mp hm with rfl | hm'
        · exact hlt
        · exact ((List.pairwise_cons.mp hsorted).1 m hm').trans_lt hlt
      rw [RecipientAgreement.smallerSequenceLoop, if_pos hx]
      by_cases hguard : guard = x.getSequenceControl
      · rw [if_pos hguard]
        by_cases hxmore : x.moreFragments = true
        · rw [if_pos hxmore]
          exact ih hsorted hcopies ⟨m, hm, hlt, htrue⟩
        · -- the fragment is not a copy of the MPDU that is passed up
          rw [if_neg hxmore]
          have hne : guard ≠ m.getSequenceControl := fun heq ↦
            hxmore ((hcopies x List.mem_cons_self m hm (hguard.symm.trans heq)).trans htrue)
          have hsub := List.dropWhile_subset (l := x :: i)
            fun y ↦ decide (guard = y.getSequenceControl)
          dsimp only
          rw [ih (hsorted.dropWhile _) (fun a ha b hb ↦ hcopies a (hsub ha) b (hsub hb))
            ⟨m, mem_dropWhile_of_ne hm hne, hlt, htrue⟩]
          rfl
      · rw [if_neg hguard]
        exact ih hsorted hcopies ⟨m, hm, hlt, htrue⟩

theorem smallerSequenceLoop_spec (fuel : ℕ) : ∀ {l : List (WifiMacQueueItem α)} {guard : ℕ},
    l.length < fuel → SortedBuffer endSequence l → (∀ x ∈ l.head?, guard = x.getSequenceControl) →
    (∀ m ∈ l, m.mapped endSequence < mappedStart → m.moreFragments = false) →
    ∃ up, RecipientAgreement.smallerSequenceLoop endSequence mappedStart fuel guard l =
        some (up, l.filter fun m ↦ ¬m.mapped endSequence < mappedStart) ∧
      (∀ p ∈ up, p ∈ l ∧ p.mapped endSequence < mappedStart) ∧
      ∀ m ∈ l, m.mapped endSequence < mappedStart →
        ∃ p ∈ up, p.getSequenceControl = m.getSequenceControl := by
  induction fuel with
  | zero => exact fun hlt ↦ absurd hlt (Nat.not_lt_zero _)
  | succ fuel ih =>
    intro l guard hfuel hsorted hguard hlast
    cases l with
    | nil =>
      exact ⟨[], rfl, fun p hp ↦ absurd hp List.not_mem_nil, fun m hm ↦ absurd hm List.not_mem_nil⟩
    | cons x i =>
      obtain rfl := hguard x rfl
      by_cases hx : x.mapped endSequence < mappedStart
      · have hmore := hlast x List.mem_cons_self hx
        rw [RecipientAgreement.smallerSequenceLoop, if_pos hx, if_pos rfl,
          if_neg (Bool.eq_false_iff.mp hmore)]
        dsimp only
        set i' := (x :: i).dropWhile fun y ↦ x.getSequenceControl = y.getSequenceControl with hi'
        have hsub : i' ⊆ x :: i := List.dropWhile_subset _
        have hshort : i'.length ≤ i.length := by
          have hpos : decide (x.getSequenceControl = x.getSequenceControl) = true := decide_eq_true rfl
          have hdrop := List.dropWhile_cons_of_pos (p := fun y : WifiMacQueueItem α ↦
            decide (x.getSequenceControl = y.getSequenceControl)) (l := i) hpos
          rw [hi', hdrop]
          exact (List.dropWhile_sublist _).length_le
        have hskipped : ∀ m ∈ (x :: i).takeWhile
            fun y ↦ x.getSequenceControl = y.getSequenceControl,
            x.getSequenceControl = m.getSequenceControl := fun m hm ↦ by
          have hskip := List.mem_takeWhile_imp hm
          exact of_decide_eq_true hskip
        have hsplit := List.takeWhile_append_dropWhile
          (p := fun y ↦ x.getSequenceControl = y.getSequenceControl) (l := x :: i)
        rw [← hi'] at hsplit
        have hhead : ∀ y ∈ i'.head?,
            i'.head?.elim x.getSequenceControl (·.getSequenceControl) = y.getSequenceControl := by
          intro y hy
          rw [hy]
          rfl
        obtain ⟨up, hrun, hmem, hall⟩ := ih
          (hshort.trans_lt (Nat.lt_of_succ_lt_succ hfuel)) (hsorted.dropWhile _) hhead
          fun m hm ↦ hlast m (hsub hm)
        refine ⟨x :: up, ?_, List.forall_mem_cons.mpr ⟨⟨List.mem_cons_self, hx⟩,
          fun p hp ↦ ⟨hsub (hmem p hp).1, (hmem p hp).2⟩⟩, fun m hm hlt ↦ ?_⟩
        · rw [hrun, Option.map_some]
          -- all that is skipped is behind the start
          have hnone : ((x :: i).takeWhile fun y ↦ x.getSequenceControl = y.getSequenceControl).filter
              (fun m ↦ ¬m.mapped endSequence < mappedStart) = [] := by
            refine List.filter_eq_nil_iff.mpr fun m hm ↦ ?_
            rw [decide_eq_true_iff, not_not, WifiMacQueueItem.mapped, ← hskipped m hm]
            exact hx
          conv_rhs => rw [← hsplit, List.filter_append, hnone, List.nil_append]
        · by_cases heq : x.getSequenceControl = m.getSequenceControl
          · exact ⟨x, List.mem_cons_self, heq⟩
          · obtain ⟨p, hp, hpm⟩ := hall m (mem_dropWhile_of_ne hm heq) hlt
            exact ⟨p, List.mem_cons_of_mem _ hp, hpm⟩
      · -- the rest of the buffer is not behind the start either
        have hrest : ∀ m ∈ x :: i, ¬m.mapped endSequence < mappedStart := fun m hm hlt ↦ by
          rcases List.mem_cons.mp hm with rfl | hm
          · exact hx hlt
          · exact hx (((List.pairwise_cons.mp hsorted).1 m hm).trans_lt hlt)
        rw [RecipientAgreement.smallerSequenceLoop, if_neg hx,
          List.filter_eq_self.mpr fun m hm ↦ decide_eq_true (hrest m hm)]
        exact ⟨[], rfl, fun p hp ↦ absurd hp List.not_mem_nil,
          fun m hm hlt ↦ absurd hlt (hrest m hm)⟩

theorem smallerSequenceLoop_succ (fuel : ℕ) : ∀ {l : List (WifiMacQueueItem α)} {guard : ℕ} {r},
    RecipientAgreement.smallerSequenceLoop endSequence mappedStart fuel guard l = some r →
      RecipientAgreement.smallerSequenceLoop endSequence mappedStart (fuel + 1) guard l = some r := by
  induction fuel with
  | zero => exact fun h ↦ absurd h.symm (Option.some_ne_none _)
  | succ fuel ih =>
    intro l guard r h
    cases l with
    | nil => exact h
    | cons x i =>
      rw [RecipientAgreement.smallerSequenceLoop] at h ⊢
      split_ifs at h ⊢
      · exact ih h
      · obtain ⟨r', hr', rfl⟩ := Option.map_eq_some_iff.mp h
        dsimp only
        rw [ih hr']
        rfl
      · exact ih h
      · exact h

theorem smallerSequenceLoop_unique {fuel fuel' guard : ℕ} {r r'}
    (h : RecipientAgreement.smallerSequenceLoop endSequence mappedStart fuel guard l = some r)
    (h' : RecipientAgreement.smallerSequenceLoop endSequence mappedStart fuel' guard l = some r') :
    r = r' := by
  have hadd : ∀ {fuel r} (k : ℕ),
      RecipientAgreement.smallerSequenceLoop endSequence mappedStart fuel guard l = some r →
        RecipientAgreement.smallerSequenceLoop endSequence mappedStart (fuel + k) guard l = some r := by
    intro fuel r k h
    induction k with
    | zero => exact h
    | succ k ih => exact smallerSequenceLoop_succ _ ih
  have hsum := hadd fuel' h
  rw [Nat.add_comm, hadd fuel h'] at hsum
  exact (Option.some.inj hsum).symm

end Loop

theorem mapped_le {a b : WifiMacQueueItem α} (endSequence : ℕ)
    (heq : a.sequenceNumber = b.sequenceNumber) (hle : a.fragmentNumber ≤ b.fragmentNumber)
    (hb : b.fragmentNumber < 16) : a.mapped endSequence ≤ b.mapped endSequence := by
  rw [WifiMacQueueItem.mapped, WifiMacQueueItem.mapped, qosUtilsMapSeqControlToUniqueInteger,
    qosUtilsMapSeqControlToUniqueInteger, WifiMacQueueItem.getSequenceControl,
    WifiMacQueueItem.getSequenceControl, heq]
  omega

/-! ## The result -/

/-- **The buffer is drained just if no MPDU behind the sequence control is a fragment.** -/
theorem drains_iff {s : RecipientAgreement α} {seq : ℕ}
    (hsorted : s.Sorted) (hfrag : ∀ m ∈ s.buffer, m.fragmentNumber < 16)
    (hcopies : ∀ a ∈ s.buffer, ∀ b ∈ s.buffer, a.getSequenceControl = b.getSequenceControl →
      a.moreFragments = b.moreFragments) :
    Drains s seq ↔ ∀ m ∈ s.buffer,
      m.mapped ((s.m_startingSeq + 2047) % 4096) <
        qosUtilsMapSeqControlToUniqueInteger seq ((s.m_startingSeq + 2047) % 4096) →
      m.moreFragments = false ∧ m.fragmentNumber = 0 := by
  have hhead : ∀ x ∈ s.buffer.head?,
      s.buffer.head?.elim 0 (·.getSequenceControl) = x.getSequenceControl := by
    intro x hx
    rw [hx]
    rfl
  constructor
  · rintro ⟨fuel, up, rest, hrun, -, hup, -⟩
    have hlast : ∀ m ∈ s.buffer,
        m.mapped ((s.m_startingSeq + 2047) % 4096) <
          qosUtilsMapSeqControlToUniqueInteger seq ((s.m_startingSeq + 2047) % 4096) →
        m.moreFragments = false := fun m hm hlt ↦ by
      by_contra hmore
      rw [smallerSequenceLoop_eq_none fuel hsorted hcopies
        ⟨m, hm, hlt, (Bool.not_eq_false _).mp hmore⟩] at hrun
      exact absurd hrun.symm (Option.some_ne_none _)
    intro m hm hlt
    refine ⟨hlast m hm hlt, ?_⟩
    by_contra hne
    -- a copy of the fragment is passed up, although the first one is not there
    obtain ⟨up', hrun', -, hall⟩ := smallerSequenceLoop_spec (s.buffer.length + 1)
      (Nat.lt_succ_self _) hsorted hhead hlast
    obtain ⟨p, hp, hpm⟩ := hall m hm hlt
    obtain ⟨rfl, -⟩ := Prod.mk.inj (smallerSequenceLoop_unique hrun hrun')
    obtain ⟨hpmem, -, n, hn, -, hbefore⟩ := hup p hp
    have hp16 := hfrag p hpmem
    have hm16 := hfrag m hm
    rw [WifiMacQueueItem.getSequenceControl, WifiMacQueueItem.getSequenceControl] at hpm
    obtain ⟨f, hf, hnum, hzero, htrue⟩ := hbefore 0 (by omega)
    have hle := mapped_le ((s.m_startingSeq + 2047) % 4096) (hnum.trans (by omega))
      (by omega : f.fragmentNumber ≤ m.fragmentNumber) hm16
    exact Bool.false_ne_true ((hlast f hf (hle.trans_lt hlt)).symm.trans htrue)
  · intro h
    obtain ⟨up, hrun, hmem, hall⟩ := smallerSequenceLoop_spec (s.buffer.length + 1)
      (Nat.lt_succ_self _) hsorted hhead fun m hm hlt ↦ (h m hm hlt).1
    refine ⟨_, up, _, hrun, rfl, fun p hp ↦ ?_, fun m hm hlt _ ↦ hall m hm hlt⟩
    obtain ⟨hp, hlt⟩ := hmem p hp
    obtain ⟨hmore, hzero⟩ := h p hp hlt
    exact ⟨hp, hlt, 0, hzero.le, ⟨p, hp, rfl, hzero, hmore⟩,
      fun k hk ↦ absurd hk (Nat.not_lt_zero k)⟩

/-- Two MPDUs, a copy of one of them, and a fragment that is not behind the sequence control. -/
def unfragmented : RecipientAgreement ℕ :=
  ((((RecipientAgreement.create 0 64).storeMpduIfNeeded ⟨3, 0, false, 1⟩).storeMpduIfNeeded
    ⟨1, 0, false, 2⟩).storeMpduIfNeeded ⟨3, 0, false, 1⟩).storeMpduIfNeeded ⟨20, 0, true, 3⟩

theorem drains_unfragmented : Drains unfragmented (10 * 16) :=
  (drains_iff (storeMpduIfNeeded_sorted (storeMpduIfNeeded_sorted (storeMpduIfNeeded_sorted
    (storeMpduIfNeeded_sorted (create_sorted 0 64) _) _) _) _) (by decide +kernel)
    (by decide +kernel)).mpr (by decide +kernel)

/-- A first fragment that is buffered alone. -/
def firstFragment : RecipientAgreement ℕ :=
  (RecipientAgreement.create 0 64).storeMpduIfNeeded ⟨3, 0, true, 1⟩

/-- With a first fragment behind the sequence control the loop does not end. -/
theorem not_drains_firstFragment : ¬Drains firstFragment (10 * 16) := by
  rintro ⟨fuel, up, rest, hrun, -⟩
  have hsorted : firstFragment.Sorted := storeMpduIfNeeded_sorted (create_sorted 0 64) _
  rw [smallerSequenceLoop_eq_none fuel hsorted (by decide +kernel) (by decide +kernel)] at hrun
  exact absurd hrun.symm (Option.some_ne_none _)

end Wifi

end Ns3
