import Ns3.Internet.Ipv4Reassembly

/-!
# What is left of a datagram on a timeout

When a datagram times out, `GetPartialPacket` joins the fragments that follow each other from its start.
The loop is the one of `GetPacket`, but it takes a part of a fragment without a check that the fragment
reaches beyond what has been joined. The part that it asks for is outside of a fragment that ends
earlier. Where there is no such fragment, the result is the longest start of the datagram that the
fragments cover (`joinsStart_iff`).
-/

namespace Ns3.Ipv4L3Protocol

/-- The arguments of `CreateFragment` in the loop of `GetPartialPacket`, with the fragments that it is
called for. -/
def Fragments.partialCalls : List UInt8 → ℕ → List (Piece UInt8) → List (Piece UInt8 × ℕ × ℕ)
  | _, _, [] => []
  | p, lastEndOffset, it :: rest =>
    if it.offset < lastEndOffset then
      let newStart := lastEndOffset - it.offset
      let newSize := sub32 it.data.length newStart
      let p := p ++ (it.data.drop newStart).take newSize
      (it, newStart, newSize) :: partialCalls p (p.length % 2 ^ 16) rest
    else if lastEndOffset = it.offset then
      let p := p ++ it.data
      partialCalls p (p.length % 2 ^ 16) rest
    else partialCalls p (p.length % 2 ^ 16) rest

/-- The calls of `CreateFragment` in `GetPartialPacket`. -/
def Fragments.getPartialPacketCalls (f : Fragments) : List (Piece UInt8 × ℕ × ℕ) :=
  match f.m_fragments with
  | [] => []
  | it :: _ => if 0 < it.offset then [] else partialCalls [] 0 f.m_fragments

/-- The part that a call asks for is in the fragment. -/
def InFragment (call : Piece UInt8 × ℕ × ℕ) : Prop := call.2.1 + call.2.2 ≤ call.1.data.length

instance : DecidablePred InFragment := fun _ ↦ inferInstanceAs (Decidable (_ ≤ _))

/-- `GetPartialPacket` asks for no part outside of a fragment, and its result is the longest start of
the payload that the fragments cover. -/
def JoinsStart (f : Fragments) (payload : List UInt8) : Prop :=
  (∀ call ∈ f.getPartialPacketCalls, InFragment call) ∧
    ∃ n, (∀ i < n, ∃ q ∈ f.m_fragments, q.At i) ∧ (¬ ∃ q ∈ f.m_fragments, q.At n) ∧
      f.getPartialPacket = some (payload.take n)

/-! ## The loop -/

section Loop

variable {payload : List UInt8} {l : List (Piece UInt8)} {q : Piece UInt8} {n : ℕ}

theorem part_eq (hle : n ≤ q.data.length) (hlt : q.data.length < 2 ^ 32) :
    sub32 q.data.length n = q.data.length - n ∧
      (q.data.drop n).take (sub32 q.data.length n) = q.data.drop n := by
  have hsub := sub32_eq hle hlt
  rw [hsub]
  exact ⟨rfl, List.take_of_length_le (List.length_drop).le⟩

theorem not_inFragment (hlt : q.data.length < n) (hn : n < 2 ^ 32) :
    ¬ InFragment (q, n, sub32 q.data.length n) := by
  rw [InFragment, sub32, Nat.mod_eq_of_lt hn]
  dsimp only
  omega

/-- **A turn of the loop** with a fragment that reaches beyond what is there, or starts behind it. -/
theorem turn_eq (hq : q.Of payload) (hn : n ≤ payload.length) (hinside : q.offset < n → n ≤ q.stop)
    (hsize : q.offset ≤ n → q.data.length < 2 ^ 32) :
    (if q.offset < n then payload.take n ++ (q.data.drop (n - q.offset)).take
        (sub32 q.data.length (n - q.offset))
      else if n = q.offset then payload.take n ++ q.data else payload.take n) =
    payload.take (if q.offset ≤ n then max n q.stop else n) := by
  rcases lt_trichotomy q.offset n with hlt | heq | hgt
  · have hstop := hinside hlt
    rw [Piece.stop] at hstop
    rw [if_pos hlt, if_pos hlt.le, (part_eq (by omega) (hsize hlt.le)).2]
    exact hq.append hn hlt.le
  · have happ := hq.append hn heq.le
    rw [← heq, Nat.sub_self, List.drop_zero] at happ
    rw [if_neg heq.not_lt, if_pos heq.symm, if_pos heq.le, ← heq]
    exact happ
  · rw [if_neg (not_lt.mpr hgt.le), if_neg hgt.ne, if_neg (not_le.mpr hgt)]

/-- The calls of the loop are within their fragments just if no fragment ends inside of what is
joined; then the loop joins the covered start. -/
theorem appendPartial_spec (hl : ∀ q ∈ l, q.Of payload) (hn : n ≤ payload.length)
    (hlt : Piece.covered n l < 2 ^ 16) :
    ((∀ call ∈ Fragments.partialCalls (payload.take n) n l, InFragment call) ↔
      Piece.NoneInside n l) ∧
    (Piece.NoneInside n l →
      Fragments.appendPartial (payload.take n) n l = payload.take (Piece.covered n l)) := by
  induction l generalizing n with
  | nil => exact ⟨iff_of_true (fun call hcall ↦ absurd hcall List.not_mem_nil) trivial, fun _ ↦ rfl⟩
  | cons q l ih =>
    rw [List.forall_mem_cons] at hl
    have hsmall := (Piece.le_covered n (q :: l)).trans_lt hlt
    have hsize : q.offset ≤ n → q.data.length < 2 ^ 32 := by
      intro hle
      rw [Piece.covered, if_pos hle] at hlt
      have := ((le_max_right n q.stop).trans (Piece.le_covered _ l)).trans_lt hlt
      rw [Piece.stop] at this
      omega
    have hnext : (if q.offset ≤ n then max n q.stop else n) ≤ payload.length := by
      split_ifs
      · exact max_le hn hl.1.1
      · exact hn
    have hcovered : Piece.covered n (q :: l) =
        Piece.covered (if q.offset ≤ n then max n q.stop else n) l := by
      rw [Piece.covered]
      split_ifs <;> rfl
    have hrest : (if q.offset ≤ n then max n q.stop else n) < 2 ^ 16 :=
      (Piece.le_covered _ l).trans_lt (hcovered ▸ hlt)
    obtain ⟨hcalls, happend⟩ := ih hl.2 hnext (hcovered ▸ hlt)
    by_cases hinside : q.offset < n → n ≤ q.stop
    · have hturn := turn_eq hl.1 hn hinside hsize
      have hlen : (payload.take (if q.offset ≤ n then max n q.stop else n)).length % 2 ^ 16 =
          if q.offset ≤ n then max n q.stop else n := by
        rw [List.length_take, min_eq_left hnext, Nat.mod_eq_of_lt hrest]
      constructor
      · rw [Piece.NoneInside, and_iff_right hinside, ← hcalls, Fragments.partialCalls]
        dsimp only
        by_cases hstart : q.offset < n
        · rw [if_pos hstart] at hturn
          have hstop := hinside hstart
          rw [Piece.stop] at hstop
          have hcall : InFragment (q, n - q.offset, sub32 q.data.length (n - q.offset)) := by
            rw [InFragment]
            dsimp only
            rw [(part_eq (by omega) (hsize hstart.le)).1]
            omega
          rw [if_pos hstart, hturn, hlen, List.forall_mem_cons, and_iff_right hcall]
        · rw [if_neg hstart] at hturn ⊢
          by_cases heq : n = q.offset
          · rw [if_pos heq] at hturn ⊢
            rw [hturn, hlen]
          · rw [if_neg heq] at hturn ⊢
            conv_lhs => rw [hturn, hlen]
      · intro hnone
        rw [Fragments.appendPartial]
        dsimp only
        rw [hturn, hlen, happend hnone.2, hcovered]
    · -- the fragment ends inside of what is joined
      rw [Classical.not_imp, not_le, Piece.stop] at hinside
      obtain ⟨hstart, hstop⟩ := hinside
      have hnot : ¬ Piece.NoneInside n (q :: l) := fun hnone ↦ (hnone.1 hstart).not_gt hstop
      refine ⟨iff_of_false (fun h ↦ ?_) hnot, fun hnone ↦ absurd hnone hnot⟩
      rw [Fragments.partialCalls, if_pos hstart] at h
      exact not_inFragment (by omega) (by omega) (h _ List.mem_cons_self)

theorem partialCalls_of_lt (hl : ∀ q ∈ l, 0 < q.offset) : Fragments.partialCalls [] 0 l = [] ∧
    Fragments.appendPartial [] 0 l = [] := by
  induction l with
  | nil => exact ⟨rfl, rfl⟩
  | cons q l ih =>
    rw [List.forall_mem_cons] at hl
    rw [Fragments.partialCalls, Fragments.appendPartial, if_neg (Nat.not_lt_zero _),
      if_neg hl.1.ne, if_neg (Nat.not_lt_zero _), if_neg hl.1.ne]
    exact ih hl.2

end Loop

theorem joinsStart_iff_pairwise {f : Fragments} {payload : List UInt8} (hne : f.m_fragments ≠ [])
    (hsorted : Piece.Sorted f.m_fragments) (hof : ∀ q ∈ f.m_fragments, q.Of payload)
    (hlt : Piece.covered 0 f.m_fragments < 2 ^ 16) :
    JoinsStart f payload ↔ f.m_fragments.Pairwise fun p q ↦
      p.stop ≤ Piece.covered 0 f.m_fragments → p.stop ≤ q.stop := by
  obtain ⟨hcalls, happend⟩ := appendPartial_spec hof (Nat.zero_le _) hlt
  rw [List.take_zero] at hcalls happend
  have hinside := Piece.noneInside_iff hsorted (n := 0)
  rw [and_iff_right (fun p _ hp ↦ absurd hp (Nat.not_lt_zero _))] at hinside
  obtain ⟨it, rest, hcons⟩ := List.exists_cons_of_ne_nil hne
  -- the test of the first offset spares a loop that does nothing
  have hearly : f.getPartialPacketCalls = Fragments.partialCalls [] 0 f.m_fragments ∧
      f.getPartialPacket = some (Fragments.appendPartial [] 0 f.m_fragments) := by
    rw [Fragments.getPartialPacketCalls, Fragments.getPartialPacket, hcons]
    dsimp only
    split_ifs with hstart
    · have hbehind : ∀ q ∈ it :: rest, 0 < q.offset := by
        rw [hcons] at hsorted
        refine List.forall_mem_cons.mpr ⟨hstart, fun q hq ↦ ?_⟩
        exact hstart.trans_le ((List.pairwise_cons.mp hsorted).1 q hq)
      rw [(partialCalls_of_lt hbehind).1, (partialCalls_of_lt hbehind).2]
      exact ⟨rfl, rfl⟩
    · exact ⟨rfl, rfl⟩
  rw [JoinsStart, hearly.1, hearly.2, ← hinside, hcalls]
  constructor
  · exact And.left
  · intro hnone
    refine ⟨hnone, Piece.covered 0 f.m_fragments, ?_, ?_, congrArg some (happend hnone)⟩
    · exact fun i hi ↦ Piece.exists_at_of_lt_covered (Nat.zero_le i) hi
    · rintro ⟨q, hq, hat⟩
      exact Piece.not_at_covered hsorted hq hat

/-- **Partial reassembly is safe and complete** just if, of the fragments that continue the start of the
datagram, none ends before one that is in front of it. -/
theorem joinsStart_iff {payload : List UInt8} {arrivals : List Arrival} (m_timeoutIter : ℕ)
    (hne : arrivals ≠ []) (hof : ∀ a ∈ arrivals, (piece a).Of payload)
    (hlt : Piece.covered 0 (collect ⟨false, [], m_timeoutIter⟩ arrivals).m_fragments < 2 ^ 16) :
    JoinsStart (collect ⟨false, [], m_timeoutIter⟩ arrivals) payload ↔
      (collect ⟨false, [], m_timeoutIter⟩ arrivals).m_fragments.Pairwise fun p q ↦
        p.stop ≤ Piece.covered 0 (collect ⟨false, [], m_timeoutIter⟩ arrivals).m_fragments →
          p.stop ≤ q.stop := by
  obtain ⟨-, hsorted, hperm, -⟩ := collect_spec m_timeoutIter arrivals
  refine joinsStart_iff_pairwise ?_ hsorted ?_ hlt
  · intro hnil
    rw [hnil] at hperm
    exact hne (List.map_eq_nil_iff.mp hperm.nil_eq.symm)
  · intro q hq
    obtain ⟨a, ha, rfl⟩ := List.mem_map.mp (hperm.mem_iff.mp hq)
    exact hof a ha

/-- Two fragments of a datagram that overlap, and one behind a hole. -/
theorem joinsStart_iff_hole : JoinsStart (collect ⟨false, [], 0⟩ [
      (List.replicate 8 0, ⟨1, 2, 1, 17, 8, 32, true⟩),
      (List.replicate 16 0, ⟨1, 2, 1, 17, 16, 8, true⟩),
      (List.replicate 16 0, ⟨1, 2, 1, 17, 16, 0, true⟩)]) (List.replicate 40 0) :=
  (joinsStart_iff 0 (List.cons_ne_nil _ _) (by decide) (by decide)).mpr (by decide)

/-- **A fragment that another one contains**: a part of it is asked for that begins 8 bytes behind its
end. -/
theorem not_joinsStart_contained : ¬ JoinsStart (collect ⟨false, [], 0⟩ [
      (List.replicate 24 0, ⟨1, 2, 1, 17, 24, 0, true⟩),
      (List.replicate 8 0, ⟨1, 2, 1, 17, 8, 8, true⟩)]) (List.replicate 40 0) := by
  rintro ⟨hcalls, -⟩
  have hcall := hcalls (⟨8, List.replicate 8 0⟩, 16, 2 ^ 32 - 8) (by decide)
  exact absurd hcall (by decide)

end Ns3.Ipv4L3Protocol
