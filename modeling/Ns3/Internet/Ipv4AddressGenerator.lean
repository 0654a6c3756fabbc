import Ns3.Library.Machine
import Ns3.Library.PrefixMask
import Ns3.Network.Ipv4Address

/-!
# Detection of address collisions

The addresses that have been allocated are kept as a list of blocks. A new address makes a block grow by one
at one of its ends, or it is a block of its own; blocks that come to touch each other are not joined.

The scan for a new address is exact, also where it adds one to or takes one from the end of a block, since
zero is never allocated (`addLoop_spec`). That for a network looks at the ends of the blocks only, and finds
nothing where a block goes over the whole network (`isNetworkAllocated_iff`).
-/

namespace Ns3

namespace Ipv4AddressGeneratorImpl

/-- An `Entry`: a block of addresses. -/
structure Entry where
  addrLow : Ipv4Address
  addrHigh : Ipv4Address
  deriving DecidableEq, Repr

/-- The address is in the block. -/
def Entry.Has (e : Entry) (addr : Ipv4Address) : Prop := addr ≥ e.addrLow ∧ addr ≤ e.addrHigh

instance (e : Entry) (addr : Ipv4Address) : Decidable (e.Has addr) := inferInstanceAs (Decidable (_ ∧ _))

/-- The scan of `AddAllocated`: whether the address is new, and the blocks. -/
def addLoop (addr : Ipv4Address) : List Entry → Bool × List Entry
  | [] => (true, [⟨addr, addr⟩])
  | i :: entries =>
    if i.Has addr then (false, i :: entries)
    else if addr < i.addrLow - 1 then (true, ⟨addr, addr⟩ :: i :: entries)
    else if addr = i.addrHigh + 1 then
      if ∃ j ∈ entries.head?, addr = j.addrLow then (false, i :: entries)
      else (true, { i with addrHigh := addr } :: entries)
    else if addr = i.addrLow - 1 then (true, { i with addrLow := addr } :: entries)
    else
      let r := addLoop addr entries
      (r.1, i :: r.2)

end Ipv4AddressGeneratorImpl

open Ipv4AddressGeneratorImpl in
/-- The part of an `Ipv4AddressGeneratorImpl` that detects collisions. -/
structure Ipv4AddressGeneratorImpl where
  m_entries : List Entry
  m_test : Bool
  deriving DecidableEq, Repr

namespace Ipv4AddressGeneratorImpl

/-- The constructor, and `TestMode`. -/
def testMode : Ipv4AddressGeneratorImpl := ⟨[], true⟩

/-- `AddAllocated`; `none` for a fatal error. -/
def addAllocated (g : Ipv4AddressGeneratorImpl) (addr : Ipv4Address) :
    Option (Bool × Ipv4AddressGeneratorImpl) :=
  if addr = 0 then none
  else
    let r := addLoop addr g.m_entries
    if r.1 || g.m_test then some (r.1, { g with m_entries := r.2 }) else none

def isAddressAllocated (g : Ipv4AddressGeneratorImpl) (addr : Ipv4Address) : Option Bool :=
  if addr = 0 then none else some !(g.m_entries.any fun i ↦ i.Has addr)

def isNetworkAllocated (g : Ipv4AddressGeneratorImpl) (address : Ipv4Address) (mask : Ipv4Mask) :
    Option Bool :=
  if address ≠ address &&& mask then none
  else some !(g.m_entries.any fun i ↦ address = i.addrLow &&& mask ∨ address = i.addrHigh &&& mask)

/-! ## Blocks -/

/-- Blocks of addresses other than zero, in order, and none of them over another. -/
structure Blocks (entries : List Entry) : Prop where
  pos : ∀ e ∈ entries, 0 < e.addrLow
  le : ∀ e ∈ entries, e.addrLow ≤ e.addrHigh
  sorted : entries.Pairwise fun e e' ↦ e.addrHigh < e'.addrLow

/-- The address is in one of the blocks. -/
def Covered (entries : List Entry) (addr : Ipv4Address) : Prop := ∃ e ∈ entries, e.Has addr

section Scan

variable {entries : List Entry} {e : Entry} {addr a : Ipv4Address}

theorem covered_cons : Covered (e :: entries) a ↔ e.Has a ∨ Covered entries a := by
  simp [Covered]

theorem Blocks.covered_addrLow (h : Blocks entries) (he : e ∈ entries) : Covered entries e.addrLow :=
  ⟨e, he, BitVec.le_refl _, h.le e he⟩

theorem Blocks.tail (h : Blocks (e :: entries)) : Blocks entries where
  pos e' he := h.pos e' (List.mem_cons_of_mem e he)
  le e' he := h.le e' (List.mem_cons_of_mem e he)
  sorted := (List.pairwise_cons.mp h.sorted).2

theorem Blocks.lt_of_covered (h : Blocks (e :: entries)) (ha : Covered entries a) : e.addrHigh < a := by
  obtain ⟨e', he', hlow, -⟩ := ha
  have hlt := (List.pairwise_cons.mp h.sorted).1 e' he'
  bv_omega

theorem Blocks.cons (h : Blocks entries) (hpos : 0 < e.addrLow) (hle : e.addrLow ≤ e.addrHigh)
    (hlt : ∀ a, Covered entries a → e.addrHigh < a) : Blocks (e :: entries) where
  pos := List.forall_mem_cons.mpr ⟨hpos, h.pos⟩
  le := List.forall_mem_cons.mpr ⟨hle, h.le⟩
  sorted := List.pairwise_cons.mpr ⟨fun _ he' ↦ hlt _ (h.covered_addrLow he'), h.sorted⟩

theorem Blocks.unique {e' : Entry} (h : Blocks entries) (he : e ∈ entries) (he' : e' ∈ entries)
    (ha : e.Has a) (ha' : e'.Has a) : e = e' := by
  by_contra hne
  have hsymm : Std.Symm fun e e' : Entry ↦ e.addrHigh < e'.addrLow ∨ e'.addrHigh < e.addrLow :=
    ⟨fun _ _ ↦ Or.symm⟩
  have hsorted : entries.Pairwise fun e e' ↦ e.addrHigh < e'.addrLow ∨ e'.addrHigh < e.addrLow :=
    h.sorted.imp Or.inl
  have hapart := hsorted.forall he he' hne
  rw [Entry.Has] at ha ha'
  bv_omega

theorem Blocks.lookAhead (h : Blocks entries) (hle : ∀ a, Covered entries a → addr ≤ a)
    (hnext : ¬ ∃ j ∈ entries.head?, addr = j.addrLow) (ha : Covered entries a) : addr < a := by
  cases entries with
  | nil =>
    obtain ⟨e, he, -⟩ := ha
    exact absurd he List.not_mem_nil
  | cons j entries =>
    have hne : addr ≠ j.addrLow := fun heq ↦ hnext ⟨j, rfl, heq⟩
    have hj := hle _ (h.covered_addrLow List.mem_cons_self)
    have hjj := h.le j List.mem_cons_self
    rcases covered_cons.mp ha with ⟨hlow, -⟩ | ha
    · bv_omega
    · have hlt := h.lt_of_covered ha
      bv_omega

/-- What the scan for an address does. -/
structure Adds (entries : List Entry) (addr : Ipv4Address) (r : Bool × List Entry) : Prop where
  blocks : Blocks r.2
  collision : r.1 = false ↔ Covered entries addr
  covered : ∀ a, Covered r.2 a ↔ Covered entries a ∨ a = addr

theorem Adds.of_covered (h : Blocks entries) (haddr : Covered entries addr) :
    Adds entries addr (false, entries) where
  blocks := h
  collision := iff_of_true rfl haddr
  covered a := by
    constructor
    · exact Or.inl
    · rintro (ha | rfl)
      · exact ha
      · exact haddr

theorem Adds.of_lt (h : Blocks entries) (hpos : 0 < addr) (hlt : ∀ a, Covered entries a → addr < a) :
    Adds entries addr (true, ⟨addr, addr⟩ :: entries) where
  blocks := h.cons hpos (BitVec.le_refl _) hlt
  collision := iff_of_false Bool.noConfusion fun ha ↦ BitVec.lt_irrefl _ (hlt addr ha)
  covered a := by
    have hself : (⟨addr, addr⟩ : Entry).Has a ↔ a = addr := by
      rw [Entry.Has]
      bv_omega
    rw [covered_cons, hself, or_comm]

theorem Adds.of_grow {e' : Entry} (h : Blocks (e' :: entries)) (hnew : ¬ Covered (e :: entries) addr)
    (hhas : ∀ a, e'.Has a ↔ e.Has a ∨ a = addr) : Adds (e :: entries) addr (true, e' :: entries) where
  blocks := h
  collision := iff_of_false Bool.noConfusion hnew
  covered a := by rw [covered_cons, covered_cons, hhas, or_right_comm]

theorem Adds.of_behind {r : Bool × List Entry} (h : Blocks (e :: entries)) (hlt : e.addrHigh < addr)
    (hr : Adds entries addr r) : Adds (e :: entries) addr (r.1, e :: r.2) where
  blocks := by
    refine hr.blocks.cons (h.pos e List.mem_cons_self) (h.le e List.mem_cons_self) fun a ha ↦ ?_
    rcases (hr.covered a).mp ha with ha | rfl
    · exact h.lt_of_covered ha
    · exact hlt
  collision := by
    have hhas : ¬ e.Has addr := by
      rw [Entry.Has]
      bv_omega
    rw [hr.collision, covered_cons, or_iff_right hhas]
  covered a := by rw [covered_cons, covered_cons, hr.covered, or_assoc]

/-- **The scan** finds out whether an address is in a block, and adds exactly this address. -/
theorem addLoop_spec (h : Blocks entries) (haddr : addr ≠ 0) :
    Adds entries addr (addLoop addr entries) := by
  have hpos : 0 < addr := by bv_omega
  induction entries with
  | nil => exact .of_lt h hpos fun a ⟨e, he, _⟩ ↦ absurd he List.not_mem_nil
  | cons i entries ih =>
    have hlow := h.pos i List.mem_cons_self
    have hle := h.le i List.mem_cons_self
    have hbehind : ∀ a, Covered entries a → i.addrHigh < a := fun a ↦ h.lt_of_covered
    rw [addLoop]
    by_cases hhas : i.Has addr
    · rw [if_pos hhas]
      exact .of_covered h (covered_cons.mpr (Or.inl hhas))
    rw [if_neg hhas]
    by_cases hfirst : addr < i.addrLow - 1
    · rw [if_pos hfirst]
      refine .of_lt h hpos fun a ha ↦ ?_
      rcases covered_cons.mp ha with ⟨halow, -⟩ | ha
      · bv_omega
      · have := hbehind a ha
        bv_omega
    rw [if_neg hfirst]
    by_cases hup : addr = i.addrHigh + 1
    · rw [if_pos hup]
      by_cases hnext : ∃ j ∈ entries.head?, addr = j.addrLow
      · rw [if_pos hnext]
        obtain ⟨j, hj, rfl⟩ := hnext
        refine .of_covered h (covered_cons.mpr (Or.inr ?_))
        exact h.tail.covered_addrLow (List.mem_of_mem_head? hj)
      · have hlt : ∀ a, Covered entries a → addr < a := fun a ha ↦
          h.tail.lookAhead (fun b hb ↦ by have := hbehind b hb; bv_omega) hnext ha
        rw [if_neg hnext]
        refine .of_grow (h.tail.cons hlow (by dsimp only; bv_omega) hlt) (fun ha ↦ ?_) fun a ↦ ?_
        · rcases covered_cons.mp ha with ha | ha
          · exact hhas ha
          · exact BitVec.lt_irrefl _ (hlt addr ha)
        · rw [Entry.Has, Entry.Has]
          bv_omega
    rw [if_neg hup]
    by_cases hdown : addr = i.addrLow - 1
    · rw [if_pos hdown]
      refine .of_grow (h.tail.cons hpos (by dsimp only; bv_omega) hbehind) (fun ha ↦ ?_) fun a ↦ ?_
      · rcases covered_cons.mp ha with ha | ha
        · exact hhas ha
        · have := hbehind addr ha
          bv_omega
      · rw [Entry.Has, Entry.Has]
        bv_omega
    · rw [if_neg hdown]
      refine .of_behind h ?_ (ih h.tail)
      rw [Entry.Has] at hhas
      bv_omega

end Scan

/-! ## Networks -/

section Networks

variable {g : Ipv4AddressGeneratorImpl} {n m : Ipv4Address}

/-- The mask has ones, and then zeros. -/
def Contiguous (m : Ipv4Mask) : Prop := ∃ k ≤ 32, m = PrefixMask.mask 32 k

/-- A block begins before the network and ends behind it. -/
def Spanned (entries : List Entry) (n : Ipv4Address) (m : Ipv4Mask) : Prop :=
  ∃ e ∈ entries, e.addrLow < n ∧ PrefixMask.last n m < e.addrHigh

/-- **The scan for a network** is exact unless a block goes over the whole network. -/
theorem isNetworkAllocated_iff (h : Blocks g.m_entries) (hm : Contiguous m) (hn : n &&& m = n) :
    ∃ r, g.isNetworkAllocated n m = some r ∧
      ((r = false ↔ ∃ a, Covered g.m_entries a ∧ a &&& m = n) ↔ ¬ Spanned g.m_entries n m) := by
  obtain ⟨k, hk, rfl⟩ := hm
  have hin : ∀ a : Ipv4Address, n = a &&& PrefixMask.mask 32 k ↔
      n ≤ a ∧ a ≤ PrefixMask.last n (PrefixMask.mask 32 k) := fun a ↦
    eq_comm.trans (PrefixMask.and_mask_eq_iff hk hn)
  refine ⟨_, if_neg fun hne ↦ hne hn.symm, ?_⟩
  generalize hlast : PrefixMask.last n (PrefixMask.mask 32 k) = last at hin
  have hle : n ≤ last := ((hin n).mp hn.symm).2
  -- the scan looks at the ends, and an address of the network is where a block and the network meet
  have hscan : (!(g.m_entries.any fun i ↦ decide (n = i.addrLow &&& PrefixMask.mask 32 k ∨
      n = i.addrHigh &&& PrefixMask.mask 32 k))) = false ↔
      ∃ e ∈ g.m_entries, (n ≤ e.addrLow ∧ e.addrLow ≤ last) ∨ (n ≤ e.addrHigh ∧ e.addrHigh ≤ last) := by
    simp only [Bool.not_eq_false', List.any_eq_true, decide_eq_true_eq, hin]
  have hmeet : (∃ a, Covered g.m_entries a ∧ a &&& PrefixMask.mask 32 k = n) ↔
      ∃ e ∈ g.m_entries, e.addrLow ≤ last ∧ n ≤ e.addrHigh := by
    constructor
    · rintro ⟨a, ⟨e, he, hlow, hhigh⟩, ha⟩
      obtain ⟨hna, hal⟩ := (hin a).mp ha.symm
      exact ⟨e, he, by bv_omega, by bv_omega⟩
    · rintro ⟨e, he, hlow, hhigh⟩
      have hblock := h.le e he
      by_cases hfirst : n ≤ e.addrLow
      · exact ⟨e.addrLow, h.covered_addrLow he, ((hin _).mpr ⟨hfirst, hlow⟩).symm⟩
      · exact ⟨n, ⟨e, he, by bv_omega, hhigh⟩, hn⟩
  rw [hscan, hmeet, Spanned, hlast]
  constructor
  · rintro hexact ⟨e, he, hlow, hhigh⟩
    obtain ⟨e', he', hend⟩ := hexact.mpr ⟨e, he, by bv_omega, by bv_omega⟩
    have hblock := h.le e' he'
    have hsame : e = e' := by
      rcases hend with hend | hend
      · exact h.unique he he' (a := e'.addrLow) ⟨by bv_omega, by bv_omega⟩ ⟨by bv_omega, by bv_omega⟩
      · exact h.unique he he' (a := e'.addrHigh) ⟨by bv_omega, by bv_omega⟩ ⟨by bv_omega, by bv_omega⟩
    subst hsame
    bv_omega
  · intro hspan
    constructor
    · rintro ⟨e, he, hend⟩
      have hblock := h.le e he
      exact ⟨e, he, by bv_omega, by bv_omega⟩
    · rintro ⟨e, he, hlow, hhigh⟩
      refine ⟨e, he, ?_⟩
      by_contra hend
      exact hspan ⟨e, he, by bv_omega, by bv_omega⟩

end Networks

/-! ## Runs -/

/-- A generator, and the addresses that were added. -/
structure History where
  generator : Ipv4AddressGeneratorImpl
  added : List Ipv4Address
  deriving DecidableEq, Repr

/-- An address is added. -/
def step (s : History) (addr : Ipv4Address) : Option History :=
  (s.generator.addAllocated addr).map fun r ↦ ⟨r.2, addr :: s.added⟩

/-- The sequences of calls of `AddAllocated`. -/
def machine : Machine History Ipv4Address := ⟨⟨testMode, []⟩, step⟩

/-- The blocks are in order, and they hold what was added. -/
structure Tracks (s : History) : Prop where
  test : s.generator.m_test = true
  blocks : Blocks s.generator.m_entries
  covered : ∀ a, Covered s.generator.m_entries a ↔ a ∈ s.added

theorem addAllocated_eq {g : Ipv4AddressGeneratorImpl} {addr : Ipv4Address} (htest : g.m_test = true)
    (haddr : addr ≠ 0) : g.addAllocated addr =
      some ((addLoop addr g.m_entries).1, { g with m_entries := (addLoop addr g.m_entries).2 }) := by
  rw [addAllocated, if_neg haddr]
  dsimp only
  rw [htest, Bool.or_true, if_pos rfl]

theorem step_tracks {s s' : History} {addr : Ipv4Address} (h : Tracks s) (hs : step s addr = some s') :
    Tracks s' := by
  by_cases haddr : addr = 0
  · rw [step, addAllocated, if_pos haddr] at hs
    cases hs
  · obtain ⟨hblocks, -, hcovered⟩ := addLoop_spec h.blocks haddr
    rw [step, addAllocated_eq h.test haddr, Option.map_some, Option.some_inj] at hs
    subst hs
    refine ⟨h.test, hblocks, fun a ↦ ?_⟩
    rw [hcovered, h.covered, List.mem_cons, or_comm]

/-- **Collision detection** is exact after every sequence of calls, but for networks that a block goes over. -/
theorem exact_of_run {as : List Ipv4Address} {s : History} (hr : machine.Run Machine.unguarded as s) :
    Blocks s.generator.m_entries ∧ (∀ a, Covered s.generator.m_entries a ↔ a ∈ s.added) ∧
      (∀ a, a ≠ 0 → ∃ g, s.generator.addAllocated a = some (decide (a ∉ s.added), g)) ∧
      (∀ a, a ≠ 0 → s.generator.isAddressAllocated a = some (decide (a ∉ s.added))) ∧
      ∀ n m, Contiguous m → n &&& m = n → ∃ r, s.generator.isNetworkAllocated n m = some r ∧
        ((r = false ↔ ∃ a ∈ s.added, a &&& m = n) ↔ ¬ Spanned s.generator.m_entries n m) := by
  have hinit : Tracks machine.init :=
    ⟨rfl, ⟨by simp [machine, testMode], by simp [machine, testMode], .nil⟩,
      by simp [machine, testMode, Covered]⟩
  have htracks : Tracks s := hr.invariant hinit fun _ _ _ h _ hs ↦ step_tracks h hs
  refine ⟨htracks.blocks, htracks.covered, fun a ha ↦ ?_, fun a ha ↦ ?_, fun n m hm hn ↦ ?_⟩
  · obtain ⟨-, hcollision, -⟩ := addLoop_spec htracks.blocks ha
    rw [htracks.covered] at hcollision
    refine ⟨_, (addAllocated_eq htracks.test ha).trans (congrArg some (Prod.ext ?_ rfl))⟩
    cases hnew : (addLoop a s.generator.m_entries).1 with
    | false =>
      have hold : ¬ a ∉ s.added := not_not_intro (hcollision.mp hnew)
      exact (decide_eq_false hold).symm
    | true =>
      have hfresh : a ∉ s.added := fun h ↦ Bool.noConfusion (hnew.symm.trans (hcollision.mpr h))
      exact (decide_eq_true hfresh).symm
  · have hany : (s.generator.m_entries.any fun i ↦ i.Has a) = decide (a ∈ s.added) := by
      rw [Bool.eq_iff_iff, List.any_eq_true, decide_eq_true_iff, ← htracks.covered a]
      simp only [Covered, decide_eq_true_eq]
    rw [isAddressAllocated, if_neg ha, hany, decide_not]
  · obtain ⟨r, hr, hiff⟩ := isNetworkAllocated_iff htracks.blocks hm hn
    simp only [htracks.covered] at hiff
    exact ⟨r, hr, hiff⟩

/-- Two blocks that grow towards each other, with a collision. -/
theorem exact_of_run_five : ∃ s : History,
    s.generator.m_entries = [⟨4, 6⟩, ⟨7, 7⟩] ∧
    Blocks s.generator.m_entries ∧ (∀ a, Covered s.generator.m_entries a ↔ a ∈ s.added) ∧
      (∀ a, a ≠ 0 → ∃ g, s.generator.addAllocated a = some (decide (a ∉ s.added), g)) ∧
      (∀ a, a ≠ 0 → s.generator.isAddressAllocated a = some (decide (a ∉ s.added))) ∧
      ∀ n m, Contiguous m → n &&& m = n → ∃ r, s.generator.isNetworkAllocated n m = some r ∧
        ((r = false ↔ ∃ a ∈ s.added, a &&& m = n) ↔ ¬ Spanned s.generator.m_entries n m) := by
  have hrun : ∃ s, machine.Run Machine.unguarded [5, 7, 5, 4, 6] s ∧
      s.generator.m_entries = [⟨4, 6⟩, ⟨7, 7⟩] :=
    Machine.exists_run_of_exec (p := fun s : History ↦ s.generator.m_entries = [⟨4, 6⟩, ⟨7, 7⟩])
      (by decide +kernel)
  obtain ⟨s, hr, hs⟩ := hrun
  exact ⟨s, hs, exact_of_run hr⟩

/-- The network of 0.0.0.2 and 0.0.0.3 is not found in the block from 0.0.0.1 to 0.0.0.4. -/
theorem not_exact : ∃ s, machine.Run Machine.unguarded [1, 2, 3, 4] s ∧
    Contiguous 0xfffffffe ∧ (2 : Ipv4Address) &&& 0xfffffffe = 2 ∧
    2 ∈ s.added ∧ s.generator.isNetworkAllocated 2 0xfffffffe = some true := by
  refine Machine.exists_run_and
    (p := fun s : History ↦ 2 ∈ s.added ∧ s.generator.isNetworkAllocated 2 0xfffffffe = some true)
    (by decide +kernel) fun s hr hs ↦ ?_
  exact ⟨⟨1, by decide, by decide⟩, by decide, hs⟩

end Ipv4AddressGeneratorImpl

end Ns3
