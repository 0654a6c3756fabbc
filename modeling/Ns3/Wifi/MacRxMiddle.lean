import Ns3.Network.Mac48Address

/-!
# Defragmentation on the receiving side

`MacRxMiddle` keeps a status for every originator: the last sequence control, and the fragments of an
MSDU that is not complete. A frame that does not continue them is dropped while there are fragments,
and nothing ever gives them up. So a fragment that is lost costs not only its own MSDU, but all later
ones of the originator; and where the lost ones are the first, the others are forwarded as an MSDU.
-/

namespace Ns3

namespace Wifi

namespace MacRxMiddle

/-- `WifiMacHeader`: what is read of it. -/
structure WifiMacHeader where
  addr1 : Mac48Address
  addr2 : Mac48Address
  qosData : Bool
  qosTid : ℕ
  sequenceNumber : ℕ
  fragmentNumber : ℕ
  moreFragments : Bool
  retry : Bool
  deriving DecidableEq

/-- A frame. -/
structure Mpdu where
  header : WifiMacHeader
  packet : List UInt8
  deriving DecidableEq

/-- `WifiMacHeader::GetSequenceControl`. -/
def WifiMacHeader.getSequenceControl (hdr : WifiMacHeader) : ℕ :=
  hdr.sequenceNumber * 16 + hdr.fragmentNumber

/-- `OriginatorRxStatus`. -/
structure OriginatorRxStatus where
  m_defragmenting : Bool
  m_lastSequenceControl : ℕ
  m_fragments : List (List UInt8)
  deriving DecidableEq

namespace OriginatorRxStatus

/-- A new status. -/
def create : OriginatorRxStatus := ⟨false, 0xffff, []⟩

variable (s : OriginatorRxStatus)

/-- `AccumulateFirstFragment`, given that there is no other one. -/
def accumulateFirstFragment (packet : List UInt8) : OriginatorRxStatus :=
  { s with m_defragmenting := true, m_fragments := s.m_fragments ++ [packet] }

def accumulateLastFragment (packet : List UInt8) : OriginatorRxStatus × List UInt8 :=
  ({ s with m_defragmenting := false, m_fragments := [] }, (s.m_fragments ++ [packet]).flatten)

def accumulateFragment (packet : List UInt8) : OriginatorRxStatus :=
  { s with m_fragments := s.m_fragments ++ [packet] }

def isNextFragment (sequenceControl : ℕ) : Bool :=
  decide (sequenceControl / 16 = s.m_lastSequenceControl / 16) &&
    decide (sequenceControl % 16 = s.m_lastSequenceControl % 16 + 1)

def setSequenceControl (sequenceControl : ℕ) : OriginatorRxStatus :=
  { s with m_lastSequenceControl := sequenceControl }

def isDuplicate (hdr : WifiMacHeader) : Bool :=
  hdr.retry && decide (s.m_lastSequenceControl = hdr.getSequenceControl)

def handleFragments (packet : List UInt8) (hdr : WifiMacHeader) :
    OriginatorRxStatus × Option (List UInt8) :=
  if s.m_defragmenting then
    if hdr.moreFragments then
      if s.isNextFragment hdr.getSequenceControl then
        ((s.accumulateFragment packet).setSequenceControl hdr.getSequenceControl, none)
      else (s, none)
    else
      if s.isNextFragment hdr.getSequenceControl then
        let p := s.accumulateLastFragment packet
        (p.1.setSequenceControl hdr.getSequenceControl, some p.2)
      else (s, none)
  else
    if hdr.moreFragments then
      ((s.accumulateFirstFragment packet).setSequenceControl hdr.getSequenceControl, none)
    else (s, some packet)

/-- `Receive`, given the status of the originator: the new status, and what is forwarded. -/
def receive (mpdu : Mpdu) : OriginatorRxStatus × Option Mpdu :=
  if s.isDuplicate mpdu.header then (s, none)
  else
    match s.handleFragments mpdu.packet mpdu.header with
    | (s, none) => (s, none)
    | (s, some aggregate) =>
      (if mpdu.header.addr1.isGroup then s else s.setSequenceControl mpdu.header.getSequenceControl,
        some { mpdu with packet := aggregate })

/-- A list of frames of one originator. -/
def receiveAll : OriginatorRxStatus → List Mpdu → OriginatorRxStatus × List Mpdu
  | s, [] => (s, [])
  | s, mpdu :: l =>
    let r := s.receive mpdu
    let t := receiveAll r.1 l
    (t.1, r.2.toList ++ t.2)

end OriginatorRxStatus

/-- The key of an originator, of `m_qosOriginatorStatus` or of `m_originatorStatus`. -/
abbrev Originator := Mac48Address × Option ℕ

/-- The key that `Lookup` uses. -/
def lookup (hdr : WifiMacHeader) : Originator :=
  if hdr.qosData && !hdr.addr2.isGroup then (hdr.addr2, some hdr.qosTid) else (hdr.addr2, none)

/-- `Receive` for a list of frames of all originators: what is forwarded. A status that is not in a map
yet is a new one. -/
def receiveFrames : (Originator → OriginatorRxStatus) → List Mpdu → List Mpdu
  | _, [] => []
  | status, mpdu :: l =>
    let r := (status (lookup mpdu.header)).receive mpdu
    r.2.toList ++ receiveFrames (Function.update status (lookup mpdu.header) r.1) l

/-! ## What is sent -/

/-- A fragment, with the Retry bits of the copies that have been received. -/
structure Fragment where
  packet : List UInt8
  copies : List Bool
  deriving DecidableEq

/-- A fragment has been received. -/
def Fragment.Received (f : Fragment) : Prop := f.copies ≠ []

instance : DecidablePred Fragment.Received := fun _ ↦ inferInstanceAs (Decidable (¬_))

/-- The copies of fragments that have been received, from number `i` on. -/
def frames (hdr : WifiMacHeader) : ℕ → List Fragment → List Mpdu
  | _, [] => []
  | i, f :: l =>
    (f.copies.map fun retry ↦ ⟨{ hdr with
      fragmentNumber := i, moreFragments := !l.isEmpty, retry := retry }, f.packet⟩) ++
        frames hdr (i + 1) l

/-- An MSDU, with its fragments. -/
structure Msdu where
  header : WifiMacHeader
  fragments : List Fragment
  deriving DecidableEq

/-- An MSDU has one to sixteen fragments. Of each, all copies are repetitions but the first, which may
be, too, if the transmission before it has been lost. -/
structure Msdu.Valid (m : Msdu) : Prop where
  ne_nil : m.fragments ≠ []
  length_le : m.fragments.length ≤ 16
  retry : ∀ f ∈ m.fragments, ∀ b ∈ f.copies.tail, b = true
  sequenceNumber_lt : m.header.sequenceNumber < 4096

/-- All fragments have been received. -/
def Msdu.Complete (m : Msdu) : Prop := ∀ f ∈ m.fragments, f.Received

instance : DecidablePred Msdu.Complete := fun m ↦
  inferInstanceAs (Decidable (∀ f ∈ m.fragments, f.Received))

/-- The sequence number of an MSDU, and its bytes. -/
def Msdu.content (m : Msdu) : ℕ × List UInt8 :=
  (m.header.sequenceNumber, (m.fragments.map (·.packet)).flatten)

/-- The sequence number of what is forwarded, and its bytes. -/
def Mpdu.content (mpdu : Mpdu) : ℕ × List UInt8 := (mpdu.header.sequenceNumber, mpdu.packet)

/-! ## What goes wrong -/

/-- A fragment has been received, and a later one has not. -/
def Open : List Fragment → Prop
  | [] => False
  | f :: l => (f.Received ∧ ∃ g ∈ l, ¬g.Received) ∨ Open l

instance decidableOpen : DecidablePred Open
  | [] => inferInstanceAs (Decidable False)
  | f :: l =>
    have := decidableOpen l
    inferInstanceAs (Decidable ((f.Received ∧ ∃ g ∈ l, ¬g.Received) ∨ Open l))

/-- The first fragments are missing, and all from some other one on have been received. -/
def Msdu.Headless (m : Msdu) : Prop :=
  (∃ f ∈ m.fragments, f.Received) ∧ ¬Open m.fragments ∧ ¬m.Complete

instance : DecidablePred Msdu.Headless := fun m ↦
  inferInstanceAs (Decidable ((∃ f ∈ m.fragments, f.Received) ∧ ¬Open m.fragments ∧ ¬m.Complete))

/-- An MSDU for a group that is not fragmented. -/
def Msdu.ToGroup (m : Msdu) : Prop := m.header.addr1.isGroup = true ∧ m.fragments.length = 1

instance : DecidablePred Msdu.ToGroup := fun m ↦
  inferInstanceAs (Decidable (m.header.addr1.isGroup = true ∧ m.fragments.length = 1))

/-- An MSDU that leaves no trace in the last sequence control. -/
def Msdu.Silent (m : Msdu) : Prop := (∀ f ∈ m.fragments, ¬f.Received) ∨ m.ToGroup

instance : DecidablePred Msdu.Silent := fun m ↦
  inferInstanceAs (Decidable ((∀ f ∈ m.fragments, ¬f.Received) ∨ m.ToGroup))

/-- Nothing has been received of an MSDU but repetitions of its last fragment, with the sequence
control of a new status. -/
def Msdu.LastRepeated (m : Msdu) : Prop :=
  m.header.sequenceNumber = 4095 ∧ m.fragments.length = 16 ∧
    (∀ f ∈ m.fragments.dropLast, ¬f.Received) ∧
    ∀ f ∈ m.fragments.getLast?, f.copies.head? = some true

instance : DecidablePred Msdu.LastRepeated := fun m ↦
  inferInstanceAs (Decidable (m.header.sequenceNumber = 4095 ∧ m.fragments.length = 16 ∧
    (∀ f ∈ m.fragments.dropLast, ¬f.Received) ∧
    ∀ f ∈ m.fragments.getLast?, f.copies.head? = some true))

/-- What an MSDU must be, after those before it. After an open one, it is not complete. As long as none
of those is open, it has its first fragments, or it is taken for a duplicate of what a new status begins
with, and it is not repeated if it is for a group. -/
def Kept (before : List Msdu) (m : Msdu) : Prop :=
  ((∃ b ∈ before, Open b.fragments) → ¬m.Complete) ∧
    ((∀ b ∈ before, ¬Open b.fragments) →
      (m.Headless → (∀ b ∈ before, b.Silent) ∧ m.LastRepeated) ∧
        (m.ToGroup → ∀ f ∈ m.fragments, f.copies.length ≤ 1))

instance (before : List Msdu) (m : Msdu) : Decidable (Kept before m) := by
  unfold Kept
  infer_instance

/-- Every MSDU is kept. -/
def AllKept : List Msdu → List Msdu → Prop
  | _, [] => True
  | before, m :: l => Kept before m ∧ AllKept (before ++ [m]) l

instance decidableAllKept : (before l : List Msdu) → Decidable (AllKept before l)
  | _, [] => inferInstanceAs (Decidable True)
  | before, m :: l =>
    have := decidableAllKept (before ++ [m]) l
    inferInstanceAs (Decidable (Kept before m ∧ AllKept (before ++ [m]) l))

/-! ## One frame -/

section Frame

variable {s : OriginatorRxStatus} {mpdu : Mpdu}

open OriginatorRxStatus

theorem receive_duplicate (hretry : mpdu.header.retry = true)
    (hlast : s.m_lastSequenceControl = mpdu.header.getSequenceControl) :
    s.receive mpdu = (s, none) := by
  rw [receive, isDuplicate, hretry, hlast, decide_eq_true rfl]
  rfl

theorem receive_of_handleFragments {s' : OriginatorRxStatus}
    (hlast : s.m_lastSequenceControl ≠ mpdu.header.getSequenceControl)
    (h : s.handleFragments mpdu.packet mpdu.header = (s', none)) : s.receive mpdu = (s', none) := by
  rw [receive, isDuplicate, decide_eq_false hlast, Bool.and_false, if_neg Bool.false_ne_true, h]

theorem receive_of_not_next (hde : s.m_defragmenting = true)
    (hnext : s.isNextFragment mpdu.header.getSequenceControl = false) :
    s.receive mpdu = (s, none) := by
  have hne : ¬s.isNextFragment mpdu.header.getSequenceControl = true := by
    rw [hnext]
    exact Bool.false_ne_true
  have hhandle : s.handleFragments mpdu.packet mpdu.header = (s, none) := by
    rw [handleFragments, if_pos hde, if_neg hne, if_neg hne, ite_self]
  rw [receive, hhandle]
  dsimp only
  rw [ite_self]

theorem receive_first (hlast : s.m_lastSequenceControl ≠ mpdu.header.getSequenceControl)
    (hde : s.m_defragmenting = false) (hmore : mpdu.header.moreFragments = true) :
    s.receive mpdu =
      (⟨true, mpdu.header.getSequenceControl, s.m_fragments ++ [mpdu.packet]⟩, none) := by
  refine receive_of_handleFragments hlast ?_
  rw [handleFragments, if_neg (by rw [hde]; exact Bool.false_ne_true), if_pos hmore]
  rfl

theorem receive_unfragmented (hdup : s.isDuplicate mpdu.header = false)
    (hde : s.m_defragmenting = false) (hmore : mpdu.header.moreFragments = false) :
    s.receive mpdu = (if mpdu.header.addr1.isGroup then s
      else s.setSequenceControl mpdu.header.getSequenceControl, some mpdu) := by
  rw [receive, hdup, if_neg Bool.false_ne_true, handleFragments,
    if_neg (by rw [hde]; exact Bool.false_ne_true), if_neg (by rw [hmore]; exact Bool.false_ne_true)]

theorem receive_next (hlast : s.m_lastSequenceControl ≠ mpdu.header.getSequenceControl)
    (hde : s.m_defragmenting = true)
    (hnext : s.isNextFragment mpdu.header.getSequenceControl = true)
    (hmore : mpdu.header.moreFragments = true) :
    s.receive mpdu =
      (⟨true, mpdu.header.getSequenceControl, s.m_fragments ++ [mpdu.packet]⟩, none) := by
  refine receive_of_handleFragments hlast ?_
  rw [handleFragments, if_pos hde, if_pos hmore, if_pos hnext, accumulateFragment, hde]
  rfl

theorem receive_last (hlast : s.m_lastSequenceControl ≠ mpdu.header.getSequenceControl)
    (hde : s.m_defragmenting = true)
    (hnext : s.isNextFragment mpdu.header.getSequenceControl = true)
    (hmore : mpdu.header.moreFragments = false) :
    s.receive mpdu = (⟨false, mpdu.header.getSequenceControl, []⟩,
      some { mpdu with packet := (s.m_fragments ++ [mpdu.packet]).flatten }) := by
  rw [receive, isDuplicate, decide_eq_false hlast, Bool.and_false, if_neg Bool.false_ne_true,
    handleFragments, if_pos hde, if_neg (by rw [hmore]; exact Bool.false_ne_true), if_pos hnext]
  dsimp only [accumulateLastFragment, setSequenceControl]
  rw [ite_self]

/-! ## The copies of a frame -/

variable {hdr : WifiMacHeader} {f : Fragment} {l : List Fragment} {i : ℕ}

/-- The frame of a copy. -/
def copy (hdr : WifiMacHeader) (i : ℕ) (more : Bool) (f : Fragment) (retry : Bool) : Mpdu :=
  ⟨{ hdr with fragmentNumber := i, moreFragments := more, retry := retry }, f.packet⟩

theorem frames_cons : frames hdr i (f :: l) =
    f.copies.map (copy hdr i (!l.isEmpty) f) ++ frames hdr (i + 1) l := rfl

theorem receiveAll_append (l₁ : List Mpdu) : ∀ (s : OriginatorRxStatus) (l₂ : List Mpdu),
    s.receiveAll (l₁ ++ l₂) = (((s.receiveAll l₁).1.receiveAll l₂).1,
      (s.receiveAll l₁).2 ++ ((s.receiveAll l₁).1.receiveAll l₂).2) := by
  induction l₁ with
  | nil => exact fun s l₂ ↦ rfl
  | cons p l₁ ih =>
    intro s l₂
    rw [List.cons_append, receiveAll, ih, receiveAll]
    dsimp only
    rw [List.append_assoc]

theorem receiveAll_of_dropped {l : List Mpdu} (h : ∀ p ∈ l, s.receive p = (s, none)) :
    s.receiveAll l = (s, []) := by
  induction l with
  | nil => rfl
  | cons p l ih =>
    rw [List.forall_mem_cons] at h
    rw [receiveAll, h.1]
    dsimp only
    rw [ih h.2]
    rfl

theorem receiveAll_copies {s' : OriginatorRxStatus} {more : Bool} {b : Bool} {copies : List Bool}
    {out : Option Mpdu} (hfirst : s.receive (copy hdr i more f b) = (s', out))
    (hlast : s'.m_lastSequenceControl = hdr.sequenceNumber * 16 + i) (hretry : ∀ c ∈ copies, c = true) :
    s.receiveAll ((b :: copies).map (copy hdr i more f)) = (s', out.toList) := by
  have hrest : s'.receiveAll (copies.map (copy hdr i more f)) = (s', []) := by
    apply receiveAll_of_dropped
    intro p hp
    obtain ⟨c, hc, rfl⟩ := List.mem_map.mp hp
    exact receive_duplicate (hretry c hc) hlast
  rw [List.map_cons, receiveAll, hfirst]
  dsimp only
  rw [hrest, List.append_nil]

/-! ## The fragments of an MSDU -/

theorem isNextFragment_eq_true (hi : i + 1 < 16)
    (hlast : s.m_lastSequenceControl = hdr.sequenceNumber * 16 + i) :
    s.isNextFragment (hdr.sequenceNumber * 16 + (i + 1)) = true := by
  rw [isNextFragment, Bool.and_eq_true, decide_eq_true_iff, decide_eq_true_iff]
  omega

theorem receiveAll_frames_of_gap (hde : s.m_defragmenting = true) : ∀ {l : List Fragment} {i : ℕ},
    (s.m_lastSequenceControl / 16 = hdr.sequenceNumber → s.m_lastSequenceControl % 16 + 1 < i) →
    i + l.length ≤ 16 → s.receiveAll (frames hdr i l) = (s, []) := by
  intro l
  induction l with
  | nil => exact fun _ _ ↦ rfl
  | cons f l ih =>
    intro i hgap hlen
    rw [List.length_cons] at hlen
    have hcopies : s.receiveAll (f.copies.map (copy hdr i (!l.isEmpty) f)) = (s, []) := by
      apply receiveAll_of_dropped
      intro p hp
      obtain ⟨c, -, rfl⟩ := List.mem_map.mp hp
      refine receive_of_not_next hde ?_
      change s.isNextFragment (hdr.sequenceNumber * 16 + i) = false
      rw [isNextFragment, Bool.and_eq_false_iff, decide_eq_false_iff_not, decide_eq_false_iff_not]
      omega
    rw [frames_cons, receiveAll_append, hcopies]
    dsimp only
    rw [ih (fun h ↦ (hgap h).trans (Nat.lt_succ_self i)) (by omega)]
    rfl

/-- **Fragments that follow the accumulated ones** complete the MSDU, if none of them is missing. Else
the status stays as it is from the first missing one on. -/
theorem receiveAll_frames_of_accumulated : ∀ {l : List Fragment} {s : OriginatorRxStatus} {i : ℕ},
    l ≠ [] → s.m_defragmenting = true → s.m_lastSequenceControl = hdr.sequenceNumber * 16 + i →
    i + 1 + l.length ≤ 16 → (∀ g ∈ l, ∀ b ∈ g.copies.tail, b = true) →
    ((∀ g ∈ l, g.Received) → ∃ s' p, s.receiveAll (frames hdr (i + 1) l) = (s', [p]) ∧
      s'.m_defragmenting = false ∧ s'.m_fragments = [] ∧
      s'.m_lastSequenceControl / 16 = hdr.sequenceNumber ∧
      p.content = (hdr.sequenceNumber, (s.m_fragments ++ l.map (·.packet)).flatten)) ∧
    ((∃ g ∈ l, ¬g.Received) → ∃ s', s.receiveAll (frames hdr (i + 1) l) = (s', []) ∧
      s'.m_defragmenting = true ∧ s'.m_lastSequenceControl / 16 = hdr.sequenceNumber) := by
  intro l
  induction l with
  | nil => exact fun h ↦ absurd rfl h
  | cons f l ih =>
    intro s i _ hde hlast hlen hretry
    rw [List.length_cons] at hlen
    obtain ⟨hf, hl⟩ := List.forall_mem_cons.mp hretry
    have hnext := isNextFragment_eq_true (by omega) hlast
    have hne : s.m_lastSequenceControl ≠ hdr.sequenceNumber * 16 + (i + 1) := by omega
    rw [frames_cons]
    cases hcopies : f.copies with
    | nil =>
      -- a gap
      refine ⟨fun h ↦ absurd hcopies (h f List.mem_cons_self), fun _ ↦ ⟨s, ?_, hde, by omega⟩⟩
      exact receiveAll_frames_of_gap hde (fun _ ↦ by omega) (by omega)
    | cons b copies =>
      rw [hcopies, List.tail_cons] at hf
      have hreceived : f.Received := fun h ↦ absurd (hcopies.symm.trans h) (List.cons_ne_nil b copies)
      cases l with
      | nil =>
        have hrest : ∀ t : OriginatorRxStatus, t.receiveAll (frames hdr (i + 1 + 1) []) = (t, []) :=
          fun _ ↦ rfl
        refine ⟨fun _ ↦ ?_, fun ⟨g, hg, hng⟩ ↦
          absurd hreceived (List.mem_singleton.mp hg ▸ hng)⟩
        have hfirst : s.receive (copy hdr (i + 1) false f b) = (_, some _) :=
          receive_last hne hde hnext rfl
        rw [receiveAll_append, List.isEmpty_nil, Bool.not_true, receiveAll_copies hfirst rfl hf]
        dsimp only
        rw [hrest]
        refine ⟨_, _, rfl, rfl, rfl, ?_, rfl⟩
        change (hdr.sequenceNumber * 16 + (i + 1)) / 16 = _
        omega
      | cons g l =>
        obtain ⟨hall, hmissing⟩ := ih (s := ⟨true, hdr.sequenceNumber * 16 + (i + 1),
          s.m_fragments ++ [f.packet]⟩) (i := i + 1) (List.cons_ne_nil g l) rfl rfl (by omega) hl
        have hfirst : s.receive (copy hdr (i + 1) true f b) = (_, none) :=
          receive_next hne hde hnext rfl
        rw [receiveAll_append, List.isEmpty_cons, Bool.not_false, receiveAll_copies hfirst rfl hf]
        dsimp only [Option.toList_none, List.nil_append]
        constructor
        · intro h
          obtain ⟨s', p, hrun, h1, h2, h3, h4⟩ := hall (List.forall_mem_cons.mp h).2
          refine ⟨s', p, congrArg (fun r ↦ (r.1, r.2)) hrun, h1, h2, h3, ?_⟩
          rw [h4, List.append_assoc]
          rfl
        · rintro ⟨k, hk, hnk⟩
          rcases List.mem_cons.mp hk with rfl | hk
          · exact absurd hreceived hnk
          · exact hmissing ⟨k, hk, hnk⟩

theorem missing_or_split (l : List Fragment) : (∀ g ∈ l, ¬g.Received) ∨
    ∃ p f t, l = p ++ f :: t ∧ (∀ g ∈ p, ¬g.Received) ∧ f.Received := by
  induction l with
  | nil => exact .inl fun g hg ↦ absurd hg List.not_mem_nil
  | cons f l ih =>
    by_cases hf : f.Received
    · exact .inr ⟨[], f, l, rfl, fun g hg ↦ absurd hg List.not_mem_nil, hf⟩
    · rcases ih with hall | ⟨p, g, t, rfl, hp, hg⟩
      · exact .inl (List.forall_mem_cons.mpr ⟨hf, hall⟩)
      · exact .inr ⟨f :: p, g, t, rfl, List.forall_mem_cons.mpr ⟨hf, hp⟩, hg⟩

theorem frames_missing (p : List Fragment) : ∀ {i : ℕ} {l : List Fragment},
    (∀ g ∈ p, ¬g.Received) → frames hdr i (p ++ l) = frames hdr (i + p.length) l := by
  induction p with
  | nil => exact fun _ ↦ rfl
  | cons f p ih =>
    intro i l h
    obtain ⟨hf, hp⟩ := List.forall_mem_cons.mp h
    rw [List.cons_append, frames_cons, not_not.mp hf, ih hp, List.length_cons, Nat.add_assoc,
      Nat.add_comm 1]
    rfl

theorem open_append {p : List Fragment} (hp : ∀ g ∈ p, ¬g.Received) :
    Open (p ++ l) ↔ Open l := by
  induction p with
  | nil => rfl
  | cons f p ih =>
    obtain ⟨hf, hp⟩ := List.forall_mem_cons.mp hp
    rw [List.cons_append, Open, ih hp]
    exact or_iff_right fun h ↦ hf h.1

/-- If the first fragment has been received, the MSDU is open just if a later one is missing. -/
theorem open_cons (hf : f.Received) : Open (f :: l) ↔ ∃ g ∈ l, ¬g.Received := by
  constructor
  · rintro (⟨-, h⟩ | h)
    · exact h
    · induction l with
      | nil => exact absurd h not_false
      | cons g l ih =>
        rcases h with ⟨-, k, hk, hnk⟩ | h
        · exact ⟨k, List.mem_cons_of_mem _ hk, hnk⟩
        · obtain ⟨k, hk, hnk⟩ := ih h
          exact ⟨k, List.mem_cons_of_mem _ hk, hnk⟩
  · exact fun h ↦ .inl ⟨hf, h⟩

theorem header_of_receive {p' : Mpdu} (h : (s.receive mpdu).2 = some p') :
    p'.header = mpdu.header := by
  rw [receive] at h
  split at h
  · exact absurd h (Option.some_ne_none p').symm
  · split at h
    · exact absurd h (Option.some_ne_none p').symm
    · obtain rfl := Option.some.inj h
      rfl

theorem exists_header_of_mem_receiveAll {l : List Mpdu} : ∀ {s : OriginatorRxStatus} {p' : Mpdu},
    p' ∈ (s.receiveAll l).2 → ∃ p ∈ l, p'.header = p.header := by
  induction l with
  | nil => exact fun h ↦ absurd h List.not_mem_nil
  | cons p l ih =>
    intro s p' h
    rw [receiveAll] at h
    rcases List.mem_append.mp h with h | h
    · exact ⟨p, List.mem_cons_self, header_of_receive (Option.mem_toList.mp h)⟩
    · obtain ⟨q, hq, heq⟩ := ih h
      exact ⟨q, List.mem_cons_of_mem _ hq, heq⟩

theorem sequenceNumber_of_mem_frames {l : List Fragment} : ∀ {i : ℕ} {p : Mpdu},
    p ∈ frames hdr i l → p.header.sequenceNumber = hdr.sequenceNumber := by
  induction l with
  | nil => exact fun h ↦ absurd h List.not_mem_nil
  | cons f l ih =>
    intro i p h
    rw [frames_cons] at h
    rcases List.mem_append.mp h with h | h
    · obtain ⟨c, -, rfl⟩ := List.mem_map.mp h
      rfl
    · exact ih h

end Frame

/-! ## One MSDU -/

section Step

variable {before : List Msdu} {m : Msdu} {s : OriginatorRxStatus}

open OriginatorRxStatus

/-- What is expected to be forwarded of an MSDU. -/
def Msdu.expected (m : Msdu) : List (ℕ × List UInt8) := if m.Complete then [m.content] else []

/-- The first fragment of an MSDU that has been received, and those around it. -/
structure Split (m : Msdu) (p : List Fragment) (f : Fragment) (t : List Fragment) : Prop where
  fragments : m.fragments = p ++ f :: t
  missing : ∀ g ∈ p, ¬g.Received
  received : f.Received

namespace Split

variable {p t : List Fragment} {f : Fragment}

theorem mem (h : Split m p f t) : f ∈ m.fragments := by
  rw [h.fragments]
  exact List.mem_append_right _ List.mem_cons_self

theorem open_iff (h : Split m p f t) : Open m.fragments ↔ ∃ g ∈ t, ¬g.Received := by
  rw [h.fragments, open_append h.missing, open_cons h.received]

theorem complete_iff (h : Split m p f t) : m.Complete ↔ p = [] ∧ ∀ g ∈ t, g.Received := by
  rw [Msdu.Complete, h.fragments, List.forall_mem_append, List.forall_mem_cons]
  constructor
  · rintro ⟨hp, -, ht⟩
    refine ⟨List.eq_nil_iff_forall_not_mem.mpr fun g hg ↦ h.missing g hg (hp g hg), ht⟩
  · rintro ⟨rfl, ht⟩
    exact ⟨fun g hg ↦ absurd hg List.not_mem_nil, h.received, ht⟩

theorem headless_iff (h : Split m p f t) : m.Headless ↔ p ≠ [] ∧ ∀ g ∈ t, g.Received := by
  have hall : ¬(∃ g ∈ t, ¬g.Received) ↔ ∀ g ∈ t, g.Received := by
    push Not
    rfl
  rw [Msdu.Headless, h.open_iff, hall, h.complete_iff]
  constructor
  · rintro ⟨-, ht, hc⟩
    exact ⟨fun hp ↦ hc ⟨hp, ht⟩, ht⟩
  · rintro ⟨hp, ht⟩
    exact ⟨⟨f, h.mem, h.received⟩, ht, fun hc ↦ hp hc.1⟩

theorem toGroup_of_silent (h : Split m p f t) (hs : m.Silent) : m.ToGroup :=
  hs.resolve_left fun hall ↦ hall f h.mem h.received

theorem frames_eq (h : Split m p f t) :
    frames m.header 0 m.fragments = frames m.header p.length (f :: t) := by
  rw [h.fragments, frames_missing p h.missing, Nat.zero_add]

end Split

/-- The status of an originator after some MSDUs that have been kept. -/
inductive After (before : List Msdu) (s : OriginatorRxStatus) : Prop
  /-- An MSDU has been left open, and nothing is accepted any more. -/
  | stuck (hopen : ∃ b ∈ before, Open b.fragments) (hde : s.m_defragmenting = true)
      (hlast : ∃ b ∈ before, s.m_lastSequenceControl / 16 = b.header.sequenceNumber)
  /-- Nothing has been recorded yet. -/
  | new (hopen : ∀ b ∈ before, ¬Open b.fragments) (hsilent : ∀ b ∈ before, b.Silent)
      (hs : s = .create)
  /-- Nothing is open. -/
  | idle (hopen : ∀ b ∈ before, ¬Open b.fragments) (hde : s.m_defragmenting = false)
      (hfragments : s.m_fragments = []) (hsilent : ∃ b ∈ before, ¬b.Silent)
      (hlast : ∃ b ∈ before, s.m_lastSequenceControl / 16 = b.header.sequenceNumber)

theorem exists_mem_concat {P : Msdu → Prop} (h : ∃ b ∈ before, P b) : ∃ b ∈ before ++ [m], P b := by
  obtain ⟨b, hb, hP⟩ := h
  exact ⟨b, List.mem_append_left _ hb, hP⟩

theorem forall_mem_concat {P : Msdu → Prop} (h : ∀ b ∈ before, P b) (hm : P m) :
    ∀ b ∈ before ++ [m], P b :=
  List.forall_mem_append.mpr ⟨h, fun _ hb ↦ List.mem_singleton.mp hb ▸ hm⟩

theorem mem_concat : m ∈ before ++ [m] := List.mem_append_right _ (List.mem_singleton.mpr rfl)

theorem After.silent (h : After before s) (hnot : ¬Open m.fragments) (hm : m.Silent) :
    After (before ++ [m]) s := by
  cases h with
  | stuck hopen hde hlast => exact .stuck (exists_mem_concat hopen) hde (exists_mem_concat hlast)
  | new hopen hsilent hs =>
    exact .new (forall_mem_concat hopen hnot) (forall_mem_concat hsilent hm) hs
  | idle hopen hde hfragments hsilent hlast =>
    exact .idle (forall_mem_concat hopen hnot) hde hfragments (exists_mem_concat hsilent)
      (exists_mem_concat hlast)

theorem step_stuck (hopen : ∃ b ∈ before, Open b.fragments) (hde : s.m_defragmenting = true)
    (hlast : ∃ b ∈ before, s.m_lastSequenceControl / 16 = b.header.sequenceNumber) (hm : m.Valid)
    (hseq : ∀ b ∈ before, b.header.sequenceNumber ≠ m.header.sequenceNumber) :
    ((s.receiveAll (frames m.header 0 m.fragments)).2.map Mpdu.content = m.expected ↔
      Kept before m) ∧
    After (before ++ [m]) (s.receiveAll (frames m.header 0 m.fragments)).1 := by
  obtain ⟨b, hb, hlastb⟩ := hlast
  rw [receiveAll_frames_of_gap hde (fun h ↦ absurd (hlastb.symm.trans h) (hseq b hb))
    (by rw [Nat.zero_add]; exact hm.length_le)]
  refine ⟨?_, .stuck (exists_mem_concat hopen) hde ⟨b, List.mem_append_left _ hb, hlastb⟩⟩
  have hkept : Kept before m ↔ ¬m.Complete := by
    refine ⟨fun h ↦ h.1 hopen, fun h ↦ ⟨fun _ ↦ h, fun hnone ↦ ?_⟩⟩
    obtain ⟨c, hc, hopenc⟩ := hopen
    exact absurd hopenc (hnone c hc)
  rw [hkept, Msdu.expected]
  split_ifs with hc
  · exact ⟨fun h ↦ absurd h.symm (List.cons_ne_nil _ _), fun h ↦ absurd hc h⟩
  · exact ⟨fun _ ↦ hc, fun _ ↦ rfl⟩

/-- A status in which no fragments are accumulated, for the next sequence number. -/
structure Ready (before : List Msdu) (s : OriginatorRxStatus) (seq : ℕ) : Prop where
  hopen : ∀ b ∈ before, ¬Open b.fragments
  hde : s.m_defragmenting = false
  hfragments : s.m_fragments = []
  hlast : ¬(∀ b ∈ before, b.Silent) ∧ s.m_lastSequenceControl / 16 ≠ seq ∨
    (∀ b ∈ before, b.Silent) ∧ s.m_lastSequenceControl = 65535

theorem After.ready {seq : ℕ} (h : After before s) (hopen : ∀ b ∈ before, ¬Open b.fragments)
    (hseq : ∀ b ∈ before, b.header.sequenceNumber ≠ seq) : Ready before s seq := by
  cases h with
  | stuck h =>
    obtain ⟨b, hb, hb'⟩ := h
    exact absurd hb' (hopen b hb)
  | new _ hsilent hs =>
    subst hs
    exact ⟨hopen, rfl, rfl, .inr ⟨hsilent, rfl⟩⟩
  | idle _ hde hfragments hsilent hlast =>
    obtain ⟨b, hb, hb'⟩ := hsilent
    obtain ⟨c, hc, hc'⟩ := hlast
    exact ⟨hopen, hde, hfragments, .inl ⟨fun h ↦ hb' (h b hb), fun h ↦ hseq c hc (hc'.symm.trans h)⟩⟩

theorem Ready.kept_iff (h : Ready before s m.header.sequenceNumber) : Kept before m ↔
    (m.Headless → (∀ b ∈ before, b.Silent) ∧ m.LastRepeated) ∧
      (m.ToGroup → ∀ f ∈ m.fragments, f.copies.length ≤ 1) := by
  refine ⟨fun hk ↦ hk.2 h.hopen, fun hk ↦ ⟨fun ⟨b, hb, hb'⟩ ↦ absurd hb' (h.hopen b hb), fun _ ↦ hk⟩⟩

theorem Ready.concat {s' : OriginatorRxStatus} {seq : ℕ} (h : Ready before s seq)
    (hnot : ¬Open m.fragments) (hsilent : ¬m.Silent) (hde : s'.m_defragmenting = false)
    (hfragments : s'.m_fragments = [])
    (hlast : s'.m_lastSequenceControl / 16 = m.header.sequenceNumber) : After (before ++ [m]) s' :=
  .idle (forall_mem_concat h.hopen hnot) hde hfragments ⟨m, mem_concat, hsilent⟩
    ⟨m, mem_concat, hlast⟩

/-- What is forwarded of an MSDU is as expected just if it is kept, and then the status is right. -/
def Step (before : List Msdu) (s : OriginatorRxStatus) (m : Msdu) : Prop :=
  ((s.receiveAll (frames m.header 0 m.fragments)).2.map Mpdu.content = m.expected ↔
      Kept before m) ∧
    (Kept before m → After (before ++ [m]) (s.receiveAll (frames m.header 0 m.fragments)).1)

theorem step_missing (hafter : After before s) (h : Ready before s m.header.sequenceNumber)
    (hm : m.Valid) (hnone : ∀ f ∈ m.fragments, ¬f.Received) : Step before s m := by
  have hframes : frames m.header 0 m.fragments = [] := by
    rw [← List.append_nil m.fragments, frames_missing _ hnone]
    rfl
  have hopen : ¬Open m.fragments := by
    rw [← List.append_nil m.fragments, open_append hnone]
    exact not_false
  have hcomplete : ¬m.Complete := by
    intro hc
    obtain ⟨f, hf⟩ := List.exists_mem_of_ne_nil _ hm.ne_nil
    exact hnone f hf (hc f hf)
  have hkept : Kept before m := by
    refine h.kept_iff.mpr ⟨fun ⟨⟨f, hf, hrec⟩, _⟩ ↦ absurd hrec (hnone f hf), fun _ f hf ↦ ?_⟩
    rw [not_not.mp (hnone f hf)]
    exact Nat.zero_le 1
  rw [Step, hframes, Msdu.expected, if_neg hcomplete]
  exact ⟨⟨fun _ ↦ hkept, fun _ ↦ rfl⟩, fun _ ↦ hafter.silent hopen (.inl hnone)⟩

variable {p t : List Fragment} {f : Fragment}

theorem Split.copies (hsplit : Split m p f t) (hm : m.Valid) :
    ∃ b rest, f.copies = b :: rest ∧ ∀ c ∈ rest, c = true := by
  obtain ⟨b, rest, hcopies⟩ := List.exists_cons_of_ne_nil hsplit.received
  refine ⟨b, rest, hcopies, ?_⟩
  have hretry := hm.retry f hsplit.mem
  rwa [hcopies] at hretry

theorem step_fragmented (h : Ready before s m.header.sequenceNumber) (hm : m.Valid)
    (hsplit : Split m p f t) (ht : t ≠ []) : Step before s m := by
  obtain ⟨b, rest, hcopies, hretry⟩ := hsplit.copies hm
  have hlen := hm.length_le
  rw [hsplit.fragments, List.length_append, List.length_cons] at hlen
  have hpos := List.length_pos_of_ne_nil ht
  have hne : s.m_lastSequenceControl ≠ m.header.sequenceNumber * 16 + p.length := by
    rcases h.hlast with ⟨-, hlast⟩ | ⟨-, hlast⟩
    · omega
    · omega
  have hgroup : ¬m.ToGroup := by
    rintro ⟨-, hone⟩
    rw [hsplit.fragments, List.length_append, List.length_cons] at hone
    omega
  have hsilent : ¬m.Silent := fun hs ↦ hgroup (hsplit.toGroup_of_silent hs)
  have hempty : t.isEmpty = false := by rwa [List.isEmpty_eq_false_iff]
  have hfirst : s.receive (copy m.header p.length true f b) =
      (⟨true, m.header.sequenceNumber * 16 + p.length, [f.packet]⟩, none) := by
    have hrec : s.receive (copy m.header p.length true f b) =
      (⟨true, m.header.sequenceNumber * 16 + p.length, s.m_fragments ++ [f.packet]⟩, none) :=
      receive_first hne h.hde rfl
    rwa [h.hfragments, List.nil_append] at hrec
  have hrun : s.receiveAll (frames m.header 0 m.fragments) =
      (⟨true, m.header.sequenceNumber * 16 + p.length, [f.packet]⟩ : OriginatorRxStatus).receiveAll
        (frames m.header (p.length + 1) t) := by
    rw [hsplit.frames_eq, frames_cons, hcopies, receiveAll_append, hempty, Bool.not_false,
      receiveAll_copies hfirst rfl hretry]
    rfl
  obtain ⟨hall, hmissing⟩ := @receiveAll_frames_of_accumulated m.header t
    ⟨true, m.header.sequenceNumber * 16 + p.length, [f.packet]⟩ p.length ht rfl rfl (by omega)
    fun g hg ↦ hm.retry g (by
      rw [hsplit.fragments]
      exact List.mem_append_right _ (List.mem_cons_of_mem _ hg))
  rw [Step, hrun, h.kept_iff, hsplit.headless_iff, Msdu.expected]
  by_cases hrec : ∀ g ∈ t, g.Received
  · obtain ⟨s', q, hres, hde', hfr', hlast', hcontent⟩ := hall hrec
    have hnot : ¬Open m.fragments := by
      rw [hsplit.open_iff]
      rintro ⟨g, hg, hng⟩
      exact hng (hrec g hg)
    rw [hres]
    refine ⟨?_, fun _ ↦ h.concat hnot hsilent hde' hfr' hlast'⟩
    by_cases hp : p = []
    · refine ⟨fun _ ↦ ⟨fun hh ↦ absurd hp hh.1, fun hg ↦ absurd hg hgroup⟩, fun _ ↦ ?_⟩
      rw [if_pos (hsplit.complete_iff.mpr ⟨hp, hrec⟩), List.map_singleton, hcontent, Msdu.content, hsplit.fragments, hp]
      rfl
    · rw [if_neg fun hh ↦ hp (hsplit.complete_iff.mp hh).1]
      refine ⟨fun hh ↦ absurd hh (List.cons_ne_nil _ _), fun hh ↦ ?_⟩
      -- a fragment before the last one has been received
      obtain ⟨-, -, -, hdrop, -⟩ := hh.1 ⟨hp, hrec⟩
      refine absurd hsplit.received (hdrop f ?_)
      rw [hsplit.fragments, List.dropLast_append_of_ne_nil (List.cons_ne_nil f t)]
      apply List.mem_append_right
      rw [List.dropLast_cons_of_ne_nil ht]
      exact List.mem_cons_self
  · have hex : ∃ g ∈ t, ¬g.Received := by
      push Not at hrec
      exact hrec
    obtain ⟨s', hres, hde', hlast'⟩ := hmissing hex
    rw [hres, if_neg fun hh ↦ hrec (hsplit.complete_iff.mp hh).2]
    refine ⟨⟨fun _ ↦ ⟨fun hh ↦ absurd hh.2 hrec, fun hg ↦ absurd hg hgroup⟩, fun _ ↦ rfl⟩, fun _ ↦ ?_⟩
    exact .stuck ⟨m, mem_concat, hsplit.open_iff.mpr hex⟩ hde' ⟨m, mem_concat, hlast'⟩

theorem step_last (h : Ready before s m.header.sequenceNumber) (hm : m.Valid)
    (hsplit : Split m p f []) (hp : p ≠ []) : Step before s m := by
  obtain ⟨b, rest, hcopies, hretry⟩ := hsplit.copies hm
  have hlen := hm.length_le
  have hlength : m.fragments.length = p.length + 1 := by
    rw [hsplit.fragments, List.length_append]
    rfl
  have hpos := List.length_pos_of_ne_nil hp
  have hseq := hm.sequenceNumber_lt
  have hgroup : ¬m.ToGroup := fun hg ↦ by
    have hone := hg.2
    omega
  have hsilent : ¬m.Silent := fun hs ↦ hgroup (hsplit.toGroup_of_silent hs)
  have hheadless : m.Headless := hsplit.headless_iff.mpr ⟨hp, fun g hg ↦ absurd hg List.not_mem_nil⟩
  have hcomplete : ¬m.Complete := fun hc ↦ hp (hsplit.complete_iff.mp hc).1
  have hdropLast : m.fragments.dropLast = p := by rw [hsplit.fragments, List.dropLast_concat]
  have hgetLast : m.fragments.getLast? = some f := by rw [hsplit.fragments, List.getLast?_concat]
  have hframes : frames m.header 0 m.fragments =
      (b :: rest).map (copy m.header p.length false f) := by
    rw [hsplit.frames_eq, frames_cons, hcopies]
    exact List.append_nil _
  have hkept : Kept before m ↔ (∀ b ∈ before, b.Silent) ∧ m.LastRepeated := by
    rw [h.kept_iff]
    exact ⟨fun hk ↦ hk.1 hheadless, fun hk ↦ ⟨fun _ ↦ hk, fun hg ↦ absurd hg hgroup⟩⟩
  rw [Step, hframes, hkept, Msdu.expected, if_neg hcomplete]
  by_cases hdup : s.isDuplicate (copy m.header p.length false f b).header = true
  · rw [isDuplicate, Bool.and_eq_true, decide_eq_true_iff] at hdup
    obtain ⟨hb, hlast⟩ := hdup
    change b = true at hb
    change s.m_lastSequenceControl = m.header.sequenceNumber * 16 + p.length at hlast
    obtain ⟨hbefore, hmagic⟩ := h.hlast.resolve_left fun hh ↦ hh.2 (by omega)
    have hrun : s.receiveAll ((b :: rest).map (copy m.header p.length false f)) = (s, []) := by
      apply receiveAll_of_dropped
      intro q hq
      obtain ⟨c, hc, rfl⟩ := List.mem_map.mp hq
      exact receive_duplicate ((List.mem_cons.mp hc).elim (fun hc ↦ hc ▸ hb) (hretry c)) hlast
    have hrepeated : m.LastRepeated := by
      refine ⟨by omega, by omega, by rw [hdropLast]; exact hsplit.missing, ?_⟩
      intro g hg
      rw [hgetLast, Option.mem_some_iff] at hg
      rw [← hg, hcopies, hb]
      rfl
    rw [hrun]
    refine ⟨⟨fun _ ↦ ⟨hbefore, hrepeated⟩, fun _ ↦ rfl⟩, fun _ ↦ ?_⟩
    refine h.concat hheadless.2.1 hsilent h.hde h.hfragments ?_
    change s.m_lastSequenceControl / 16 = _
    omega
  · have hnot : ¬((∀ b ∈ before, b.Silent) ∧ m.LastRepeated) := by
      rintro ⟨hbefore, hnumber, hsixteen, -, hhead⟩
      have hmagic := (h.hlast.resolve_left fun hh ↦ hh.1 hbefore).2
      have hb := hhead f hgetLast
      rw [hcopies, List.head?_cons, Option.some_inj] at hb
      refine hdup ?_
      rw [isDuplicate, Bool.and_eq_true, decide_eq_true_iff]
      refine ⟨hb, ?_⟩
      change s.m_lastSequenceControl = m.header.sequenceNumber * 16 + p.length
      omega
    refine ⟨⟨fun hh ↦ ?_, fun hh ↦ absurd hh hnot⟩, fun hh ↦ absurd hh hnot⟩
    -- the first copy is forwarded
    have hfirst := receive_unfragmented (Bool.not_eq_true _ ▸ hdup) h.hde rfl
    rw [List.map_cons, receiveAll, hfirst] at hh
    exact absurd hh (List.cons_ne_nil _ _)

theorem receiveAll_of_forwarded {l : List Mpdu} (h : ∀ q ∈ l, s.receive q = (s, some q)) :
    s.receiveAll l = (s, l) := by
  induction l with
  | nil => rfl
  | cons q l ih =>
    rw [List.forall_mem_cons] at h
    rw [receiveAll, h.1]
    dsimp only
    rw [ih h.2]
    rfl

theorem step_unfragmented (hafter : After before s) (h : Ready before s m.header.sequenceNumber)
    (hm : m.Valid) (hsplit : Split m [] f []) : Step before s m := by
  obtain ⟨b, rest, hcopies, hretry⟩ := hsplit.copies hm
  have hfragments : m.fragments = [f] := hsplit.fragments
  have hnot : ¬Open m.fragments := by
    rw [hsplit.open_iff]
    rintro ⟨g, hg, -⟩
    exact absurd hg List.not_mem_nil
  have hne : s.m_lastSequenceControl ≠ m.header.sequenceNumber * 16 := by
    rcases h.hlast with ⟨-, hlast⟩ | ⟨-, hlast⟩
    · omega
    · omega
  have hcomplete : m.Complete := hsplit.complete_iff.mpr ⟨rfl, fun g hg ↦ absurd hg List.not_mem_nil⟩
  have hheadless : ¬m.Headless := fun hh ↦ hh.2.2 hcomplete
  have hcontent : ∀ c, (copy m.header 0 false f c).content = m.content := fun c ↦ by
    rw [Msdu.content, hfragments, List.map_singleton, List.flatten_singleton]
    rfl
  have hframes : frames m.header 0 m.fragments = (b :: rest).map (copy m.header 0 false f) := by
    rw [hsplit.frames_eq, frames_cons, hcopies]
    exact List.append_nil _
  have hreceive : ∀ c, s.receive (copy m.header 0 false f c) = (if m.header.addr1.isGroup then s
      else s.setSequenceControl (m.header.sequenceNumber * 16), some (copy m.header 0 false f c)) :=
    fun c ↦ receive_unfragmented (by
      rw [isDuplicate, Bool.and_eq_false_iff, decide_eq_false_iff_not]
      exact .inr hne) h.hde rfl
  have hkept : Kept before m ↔ (m.ToGroup → f.copies.length ≤ 1) := by
    rw [h.kept_iff, hfragments]
    constructor
    · exact fun hk hg ↦ hk.2 hg f (List.mem_singleton.mpr rfl)
    · exact fun hk ↦ ⟨fun hh ↦ absurd hh hheadless, fun hg g hf ↦
        List.mem_singleton.mp hf ▸ hk hg⟩
  rw [Step, hframes, hkept, Msdu.expected, if_pos hcomplete]
  by_cases hgroup : m.header.addr1.isGroup = true
  · have htoGroup : m.ToGroup := ⟨hgroup, by rw [hfragments]; rfl⟩
    have hrun : s.receiveAll ((b :: rest).map (copy m.header 0 false f)) =
        (s, (b :: rest).map (copy m.header 0 false f)) := by
      apply receiveAll_of_forwarded
      intro q hq
      obtain ⟨c, -, rfl⟩ := List.mem_map.mp hq
      rw [hreceive, if_pos hgroup]
    rw [hrun]
    refine ⟨⟨fun hh _ ↦ ?_, fun hh ↦ ?_⟩, fun _ ↦ hafter.silent hnot (.inr htoGroup)⟩
    · have hlength := congrArg List.length hh
      rw [List.length_map, List.length_map] at hlength
      rw [hcopies, hlength]
      exact le_rfl
    · have hle := hh htoGroup
      rw [hcopies, List.length_cons, Nat.succ_le_succ_iff, Nat.le_zero,
        List.length_eq_zero_iff] at hle
      rw [hle]
      exact congrArg (fun x ↦ [x]) (hcontent b)
  · have htoGroup : ¬m.ToGroup := fun hg ↦ hgroup hg.1
    have hfirst := hreceive b
    rw [if_neg hgroup] at hfirst
    rw [receiveAll_copies hfirst rfl hretry]
    refine ⟨⟨fun _ hg ↦ absurd hg htoGroup, fun _ ↦ congrArg (fun x ↦ [x]) (hcontent b)⟩, fun _ ↦ ?_⟩
    refine h.concat hnot (fun hs ↦ htoGroup (hsplit.toGroup_of_silent hs)) h.hde h.hfragments ?_
    exact Nat.mul_div_cancel _ (by decide)

/-- **One MSDU** is forwarded as expected just if it is kept. -/
theorem step (hafter : After before s) (hm : m.Valid)
    (hseq : ∀ b ∈ before, b.header.sequenceNumber ≠ m.header.sequenceNumber) : Step before s m := by
  by_cases hopen : ∃ b ∈ before, Open b.fragments
  · cases hafter with
    | stuck _ hde hlast =>
      obtain ⟨hiff, hnext⟩ := step_stuck hopen hde hlast hm hseq
      exact ⟨hiff, fun _ ↦ hnext⟩
    | new h =>
      obtain ⟨b, hb, hb'⟩ := hopen
      exact absurd hb' (h b hb)
    | idle h =>
      obtain ⟨b, hb, hb'⟩ := hopen
      exact absurd hb' (h b hb)
  · have hready : Ready before s m.header.sequenceNumber :=
      hafter.ready (fun b hb hb' ↦ hopen ⟨b, hb, hb'⟩) hseq
    rcases missing_or_split m.fragments with hnone | ⟨p, f, t, hsplit, hp, hf⟩
    · exact step_missing hafter hready hm hnone
    · by_cases ht : t = []
      · subst ht
        by_cases hnil : p = []
        · subst hnil
          exact step_unfragmented hafter hready hm ⟨hsplit, hp, hf⟩
        · exact step_last hready hm ⟨hsplit, hp, hf⟩ hnil
      · exact step_fragmented hready hm ⟨hsplit, hp, hf⟩ ht

/-! ## A run -/

theorem append_eq_append_iff_of_fst {β : Type*} {a b c d : List (ℕ × β)} {n : ℕ}
    (ha : ∀ x ∈ a, x.1 = n) (hb : ∀ x ∈ b, x.1 = n) (hc : ∀ x ∈ c, x.1 ≠ n)
    (hd : ∀ x ∈ d, x.1 ≠ n) : a ++ c = b ++ d ↔ a = b ∧ c = d := by
  constructor
  · intro h
    have hfilter : ∀ {u v : List (ℕ × β)}, (∀ x ∈ u, x.1 = n) → (∀ x ∈ v, x.1 ≠ n) →
        (u ++ v).filter (fun x ↦ decide (x.1 = n)) = u := by
      intro u v hu hv
      rw [List.filter_append, List.filter_eq_self.mpr fun x hx ↦ decide_eq_true (hu x hx),
        List.filter_eq_nil_iff.mpr fun x hx ↦ by rw [decide_eq_true_iff]; exact hv x hx,
        List.append_nil]
    have hab : a = b := by rw [← hfilter ha hc, h, hfilter hb hd]
    subst hab
    exact ⟨rfl, List.append_cancel_left h⟩
  · rintro ⟨rfl, rfl⟩
    rfl

theorem fst_of_mem_expected {x : ℕ × List UInt8} (hx : x ∈ m.expected) :
    x.1 = m.header.sequenceNumber := by
  rw [Msdu.expected] at hx
  split_ifs at hx
  · rw [List.mem_singleton.mp hx]
    rfl
  · exact absurd hx List.not_mem_nil

theorem flatMap_expected (ms : List Msdu) :
    ms.flatMap Msdu.expected = (ms.filter fun m ↦ decide m.Complete).map Msdu.content := by
  induction ms with
  | nil => rfl
  | cons m ms ih =>
    rw [List.flatMap_cons, ih, Msdu.expected, List.filter_cons]
    by_cases hm : m.Complete
    · rw [if_pos hm, if_pos (decide_eq_true hm)]
      rfl
    · rw [if_neg hm, if_neg (by rw [decide_eq_true_iff]; exact hm)]
      rfl

/-- **A run over MSDUs** forwards what is expected just if every one is kept. -/
theorem run_iff (ms : List Msdu) : ∀ {before : List Msdu} {s : OriginatorRxStatus}, After before s →
    (∀ m ∈ ms, m.Valid) → ms.Pairwise (fun m m' ↦ m.header.sequenceNumber ≠ m'.header.sequenceNumber) →
    (∀ b ∈ before, ∀ m ∈ ms, b.header.sequenceNumber ≠ m.header.sequenceNumber) →
    ((s.receiveAll (ms.flatMap fun m ↦ frames m.header 0 m.fragments)).2.map Mpdu.content =
      ms.flatMap Msdu.expected ↔ AllKept before ms) := by
  induction ms with
  | nil => exact fun _ _ _ _ ↦ ⟨fun _ ↦ trivial, fun _ ↦ rfl⟩
  | cons m ms ih =>
    intro before s hafter hvalid hpair hbefore
    obtain ⟨hm, hms⟩ := List.forall_mem_cons.mp hvalid
    obtain ⟨hne, hpair⟩ := List.pairwise_cons.mp hpair
    obtain ⟨hiff, hnext⟩ := step hafter hm fun b hb ↦ hbefore b hb m List.mem_cons_self
    rw [List.flatMap_cons, List.flatMap_cons, receiveAll_append, List.map_append, AllKept,
      append_eq_append_iff_of_fst (n := m.header.sequenceNumber), hiff]
    · refine and_congr_right fun hkept ↦ ih (hnext hkept) hms hpair ?_
      intro b hb k hk
      rcases List.mem_append.mp hb with hb | hb
      · exact hbefore b hb k (List.mem_cons_of_mem _ hk)
      · rw [List.mem_singleton.mp hb]
        exact hne k hk
    · intro x hx
      obtain ⟨q, hq, rfl⟩ := List.mem_map.mp hx
      obtain ⟨q', hq', hheader⟩ := exists_header_of_mem_receiveAll hq
      exact (congrArg _ hheader).trans (sequenceNumber_of_mem_frames hq')
    · exact fun x hx ↦ fst_of_mem_expected hx
    · intro x hx
      obtain ⟨q, hq, rfl⟩ := List.mem_map.mp hx
      obtain ⟨q', hq', hheader⟩ := exists_header_of_mem_receiveAll hq
      obtain ⟨k, hk, hq'⟩ := List.mem_flatMap.mp hq'
      have hnumber : q.content.1 = k.header.sequenceNumber :=
        (congrArg _ hheader).trans (sequenceNumber_of_mem_frames hq')
      rw [hnumber]
      exact (hne k hk).symm
    · intro x hx
      obtain ⟨k, hk, hx⟩ := List.mem_flatMap.mp hx
      rw [fst_of_mem_expected hx]
      exact (hne k hk).symm

theorem filter_receiveFrames (o : Originator) (l : List Mpdu) :
    ∀ status : Originator → OriginatorRxStatus,
      (receiveFrames status l).filter (fun p ↦ decide (lookup p.header = o)) =
        ((status o).receiveAll (l.filter fun p ↦ decide (lookup p.header = o))).2 := by
  induction l with
  | nil => exact fun _ ↦ rfl
  | cons p l ih =>
    intro status
    have hheader : ∀ q ∈ ((status (lookup p.header)).receive p).2.toList, q.header = p.header :=
      fun q hq ↦ header_of_receive (Option.mem_toList.mp hq)
    rw [receiveFrames, List.filter_append, ih, List.filter_cons]
    by_cases hp : lookup p.header = o
    · rw [if_pos (decide_eq_true hp), receiveAll, hp, Function.update_self,
        List.filter_eq_self.mpr fun q hq ↦ ?_]
      rw [hp] at hheader
      rw [hheader q hq, hp]
      exact decide_eq_true rfl
    · rw [if_neg (by rw [decide_eq_true_iff]; exact hp), Function.update_of_ne (Ne.symm hp),
        List.filter_eq_nil_iff.mpr fun q hq ↦ ?_, List.nil_append]
      rw [hheader q hq, decide_eq_true_iff]
      exact hp

end Step

/-- **`MacRxMiddle` forwards exactly the MSDUs of an originator all of whose frames have been received**,
just if every one is kept: an open MSDU blocks those after it, and the end of an MSDU is forwarded if
its first fragments are lost. -/
theorem forwards_iff (o : Originator) (l : List Mpdu) (ms : List Msdu) (hvalid : ∀ m ∈ ms, m.Valid)
    (hpair : ms.Pairwise fun m m' ↦ m.header.sequenceNumber ≠ m'.header.sequenceNumber)
    (hframes : l.filter (fun p ↦ decide (lookup p.header = o)) =
      ms.flatMap fun m ↦ frames m.header 0 m.fragments) :
    ((receiveFrames (fun _ ↦ .create) l).filter fun p ↦ decide (lookup p.header = o)).map
        Mpdu.content = (ms.filter fun m ↦ decide m.Complete).map Msdu.content ↔ AllKept [] ms := by
  rw [filter_receiveFrames, hframes, ← flatMap_expected]
  refine run_iff ms (.new ?_ ?_ rfl) hvalid hpair fun b hb ↦ absurd hb List.not_mem_nil
  · exact fun b hb ↦ absurd hb List.not_mem_nil
  · exact fun b hb ↦ absurd hb List.not_mem_nil

/-- The header of the frames of a station. -/
def station (sequenceNumber : ℕ) : WifiMacHeader :=
  ⟨List.Vector.replicate 6 0, List.Vector.replicate 6 2, false, 0, sequenceNumber, 0, false, false⟩

/-- Two fragments, of which the second is received twice, and an MSDU that is not fragmented. -/
theorem forwards_two : ((receiveFrames (fun _ ↦ .create)
      [⟨{ station 7 with moreFragments := true }, [1]⟩, ⟨{ station 7 with fragmentNumber := 1 }, [2]⟩,
        ⟨{ station 7 with fragmentNumber := 1, retry := true }, [2]⟩, ⟨station 8, [3]⟩]).filter
      fun p ↦ decide (lookup p.header = (List.Vector.replicate 6 2, none))).map Mpdu.content =
    (([⟨station 7, [⟨[1], [false]⟩, ⟨[2], [false, true]⟩]⟩, ⟨station 8, [⟨[3], [false]⟩]⟩] :
      List Msdu).filter fun m ↦ decide m.Complete).map Msdu.content := by
  refine (forwards_iff _ _ _ ?_ ?_ ?_).mpr ?_
  · intro m hm
    rw [List.mem_cons, List.mem_singleton] at hm
    rcases hm with rfl | rfl
    · exact ⟨by decide, by decide, by decide, by decide⟩
    · exact ⟨by decide, by decide, by decide, by decide⟩
  · decide
  · decide
  · decide

/-- The second fragment of an MSDU is lost: the MSDU after it is not forwarded. -/
theorem not_forwards_after_lost : ∃ (l : List Mpdu) (ms : List Msdu), (∀ m ∈ ms, m.Valid) ∧
    (ms.Pairwise fun m m' ↦ m.header.sequenceNumber ≠ m'.header.sequenceNumber) ∧
    l.filter (fun p ↦ decide (lookup p.header = (List.Vector.replicate 6 2, none))) =
      (ms.flatMap fun m ↦ frames m.header 0 m.fragments) ∧
    ((receiveFrames (fun _ ↦ .create) l).filter
      fun p ↦ decide (lookup p.header = (List.Vector.replicate 6 2, none))).map Mpdu.content ≠
        (ms.filter fun m ↦ decide m.Complete).map Msdu.content := by
  refine ⟨[⟨{ station 7 with moreFragments := true }, [1]⟩, ⟨station 8, [3]⟩],
    [⟨station 7, [⟨[1], [false]⟩, ⟨[2], []⟩]⟩, ⟨station 8, [⟨[3], [false]⟩]⟩], ?_, ?_, ?_, ?_⟩
  · intro m hm
    rw [List.mem_cons, List.mem_singleton] at hm
    rcases hm with rfl | rfl
    · exact ⟨by decide, by decide, by decide, by decide⟩
    · exact ⟨by decide, by decide, by decide, by decide⟩
  · decide
  · decide
  · decide

end MacRxMiddle

end Wifi

end Ns3
