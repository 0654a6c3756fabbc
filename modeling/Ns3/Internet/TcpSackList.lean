import Ns3.Internet.TcpRxBuffer

/-!
# The blocks that a TCP receiver reports

`UpdateSackList` puts the positions of a segment that has come out of order in front of the list,
merges them with the blocks that they touch, and keeps the first four. `ClearSackList` takes away what
has come into order.

A new block is only compared with the ends of those that are there. If the segment swallows a block of
the map (`Add` drops one that lies inside) of which some byte has been reported, then the old report
stays, and overlaps the new one. In all other runs the reports are right (`sackReported`): they are
ranges that are held, with gaps between them and before the first of them.
-/

namespace Ns3

namespace TcpRxBuffer

/-! ## Ranges of positions -/

/-- The ranges do not even touch. -/
def Apart (r r' : ℕ × ℕ) : Prop := r.2 < r'.1 ∨ r'.2 < r.1

instance : DecidableRel Apart := fun _ _ ↦ inferInstanceAs (Decidable (_ ∨ _))

theorem Apart.symm {r r' : ℕ × ℕ} (h : Apart r r') : Apart r' r := Or.symm h

/-- How a range is reported. -/
def sackBlock (isn : SequenceNumber32) (r : ℕ × ℕ) : SackBlock := (isn.add r.1, isn.add r.2)

/-- The range is nonempty, and its positions compare with `base`. -/
def Spans (base : ℕ) (r : ℕ × ℕ) : Prop :=
  base ≤ r.1 ∧ r.1 < r.2 ∧ r.2 ≤ base + SequenceNumber.halfMaxValue 32

section Lists

variable (isn : SequenceNumber32) {base u v n : ℕ} {ranges seen rest : List (ℕ × ℕ)}

/-- What the loop of `UpdateSackList` makes of the range `(u, v)` and the others. -/
structure Merged (u v : ℕ) (ranges : List (ℕ × ℕ)) (u' v' : ℕ) (others : List (ℕ × ℕ)) : Prop where
  head_le : u' ≤ u
  le_tail : v ≤ v'
  sublist : others.Sublist ranges
  apart : ∀ r ∈ others, Apart r (u', v')
  cover : ∀ x, u' ≤ x → x < v' → (u ≤ x ∧ x < v) ∨ ∃ r ∈ ranges, r.1 ≤ x ∧ x < r.2

/-- The loop has merged the range `r`, and goes on with `(u₁, v₁)` and the other ranges. -/
theorem Merged.of_merge {u₁ v₁ u' v' : ℕ} {r : ℕ × ℕ} {others : List (ℕ × ℕ)}
    (h : Merged u₁ v₁ (seen ++ rest) u' v' others) (hu : u₁ ≤ u) (hv : v ≤ v₁)
    (hcover : ∀ x, u₁ ≤ x → x < v₁ → (u ≤ x ∧ x < v) ∨ (r.1 ≤ x ∧ x < r.2)) :
    Merged u v (seen ++ r :: rest) u' v' others where
  head_le := h.head_le.trans hu
  le_tail := hv.trans h.le_tail
  sublist := h.sublist.trans (List.Sublist.append_left (List.sublist_cons_self r rest) seen)
  apart := h.apart
  cover x hx hxv := by
    rcases h.cover x hx hxv with hin | ⟨r', hr', hx'⟩
    · refine (hcover x hin.1 hin.2).imp_right fun hr ↦ ⟨r, ?_, hr⟩
      exact List.mem_append_right _ List.mem_cons_self
    · refine .inr ⟨r', ?_, hx'⟩
      rcases List.mem_append.mp hr' with hr' | hr'
      · exact List.mem_append_left _ hr'
      · exact List.mem_append_right _ (List.mem_cons_of_mem _ hr')

/-- The loop of `UpdateSackList`: `seen` does not touch the range, and `rest` does not overlap it. -/
theorem mergeSackBlocks_spec (fuel : ℕ) : ∀ {u v : ℕ} {seen rest : List (ℕ × ℕ)},
    Spans base (u, v) → (∀ r ∈ seen ++ rest, Spans base r) → (seen ++ rest).Pairwise Apart →
    (∀ r ∈ seen, Apart r (u, v)) → (∀ r ∈ rest, r.2 ≤ u ∨ v ≤ r.1) →
    rest.length + (seen.length + rest.length) ^ 2 ≤ fuel → ∃ u' v' others,
      mergeSackBlocks fuel (sackBlock isn (u, v)) (seen.map (sackBlock isn))
          (rest.map (sackBlock isn)) = ((u', v') :: others).map (sackBlock isn) ∧
        Merged u v (seen ++ rest) u' v' others := by
  induction fuel with
  | zero =>
    intro u v seen rest _ _ _ hseen _ hfuel
    obtain rfl : rest = [] := List.eq_nil_of_length_eq_zero (by omega)
    refine ⟨u, v, seen, rfl, le_rfl, le_rfl, ?_, hseen, fun x hx hxv ↦ .inl ⟨hx, hxv⟩⟩
    rw [List.append_nil]
  | succ fuel ih =>
    intro u v seen rest hspan hin hpair hseen hrest hfuel
    cases rest with
    | nil =>
      refine ⟨u, v, seen, rfl, le_rfl, le_rfl, ?_, hseen, fun x hx hxv ↦ .inl ⟨hx, hxv⟩⟩
      rw [List.append_nil]
    | cons r rest =>
      obtain ⟨hu, huv, hv⟩ := hspan
      dsimp only at hu huv hv
      obtain ⟨hr₁, hr, hr₂⟩ := hin r (List.mem_append_right _ List.mem_cons_self)
      have hsub : (seen ++ rest).Sublist (seen ++ r :: rest) :=
        List.Sublist.append_left (List.sublist_cons_self r rest) seen
      have hin' : ∀ r' ∈ seen ++ rest, Spans base r' := fun r' hr' ↦ hin r' (hsub.subset hr')
      obtain ⟨hapart, -⟩ := List.pairwise_cons.mp
        ((List.pairwise_middle Apart.symm).mp hpair)
      have hall : ∀ r' ∈ seen ++ rest, r'.2 ≤ u ∨ v ≤ r'.1 := fun r' hr' ↦ by
        rcases List.mem_append.mp hr' with hr' | hr'
        · exact (hseen r' hr').imp le_of_lt le_of_lt
        · exact hrest r' (List.mem_cons_of_mem _ hr')
      rw [List.length_cons] at hfuel
      have hmerged : (seen ++ rest).length + (0 + (seen ++ rest).length) ^ 2 ≤ fuel := by
        rw [List.length_append, Nat.zero_add]
        nlinarith only [hfuel]
      rw [List.map_cons, mergeSackBlocks]
      have hleft : (sackBlock isn (u, v)).1 = (sackBlock isn r).2 ↔ u = r.2 :=
        isn.add_inj (by omega) (by omega)
      have hright : (sackBlock isn (u, v)).2 = (sackBlock isn r).1 ↔ v = r.1 :=
        isn.add_inj (by omega) (by omega)
      simp only [hleft, hright]
      by_cases hl : u = r.2
      · -- the range ends where the new one starts
        rw [if_pos hl]
        obtain ⟨u', v', others, hrun, hm⟩ := @ih r.1 v [] (seen ++ rest) ⟨hr₁, by dsimp only; omega, hv⟩
          hin' (hpair.sublist hsub) (fun _ h ↦ absurd h List.not_mem_nil) (fun r' hr' ↦ by
            have hne := (hin' r' hr').2.1
            rcases hall r' hr' with hle | hle
            · rcases hapart r' hr' with hlt | hlt <;> omega
            · exact .inr hle) hmerged
        rw [List.map_append] at hrun
        rw [List.nil_append] at hm
        refine ⟨u', v', others, hrun, hm.of_merge ?_ le_rfl fun x hx hxv ↦ ?_⟩
        · omega
        · omega
      rw [if_neg hl]
      by_cases hright' : v = r.1
      · -- the range starts where the new one ends
        rw [if_pos hright']
        obtain ⟨u', v', others, hrun, hm⟩ := @ih u r.2 [] (seen ++ rest) ⟨hu, by dsimp only; omega, hr₂⟩
          hin' (hpair.sublist hsub) (fun _ h ↦ absurd h List.not_mem_nil) (fun r' hr' ↦ by
            have hne := (hin' r' hr').2.1
            rcases hall r' hr' with hle | hle
            · exact .inl hle
            · rcases hapart r' hr' with hlt | hlt <;> omega) hmerged
        rw [List.map_append] at hrun
        rw [List.nil_append] at hm
        refine ⟨u', v', others, hrun, hm.of_merge le_rfl ?_ fun x hx hxv ↦ ?_⟩
        · omega
        · omega
      · rw [if_neg hright']
        have hlist : seen ++ r :: rest = seen ++ [r] ++ rest := by simp
        rw [hlist] at hin hpair ⊢
        have hpass := @ih u v (seen ++ [r]) rest ⟨hu, huv, hv⟩ hin hpair (fun r' hr' ↦ by
            rcases List.mem_append.mp hr' with hr' | hr'
            · exact hseen r' hr'
            · obtain rfl := List.mem_singleton.mp hr'
              rcases hrest r' List.mem_cons_self with hle | hle
              · exact .inl (lt_of_le_of_ne hle fun heq ↦ hl heq.symm)
              · exact .inr (lt_of_le_of_ne hle hright'))
          (fun r' hr' ↦ hrest r' (List.mem_cons_of_mem _ hr')) (by
            rw [List.length_append, List.length_singleton]
            have harith : seen.length + 1 + rest.length = seen.length + (rest.length + 1) := by ring
            rw [harith]
            omega)
        rw [List.map_append] at hpass
        exact hpass

/-- `UpdateSackList`: the first block has the new one, and the others are some of those before. -/
theorem updateSackList_spec (hspan : Spans base (u, v)) (hin : ∀ r ∈ ranges, Spans base r)
    (hpair : ranges.Pairwise Apart) (hdisjoint : ∀ r ∈ ranges, r.2 ≤ u ∨ v ≤ r.1)
    (hlen : ranges.length ≤ 4) : ∃ u' v' others,
      updateSackList (ranges.map (sackBlock isn)) (isn.add u) (isn.add v) =
          ((u', v') :: others).map (sackBlock isn) ∧
        Merged u v ranges u' v' others ∧ others.length ≤ 3 := by
  have hfuel : ranges.length + (([] : List (ℕ × ℕ)).length + ranges.length) ^ 2 ≤
      ((ranges.map (sackBlock isn)).length + 1) ^ 2 := by
    rw [List.length_map, List.length_nil, Nat.zero_add]
    nlinarith only
  obtain ⟨u', v', others, hrun, hm⟩ := @mergeSackBlocks_spec isn base _ u v [] ranges hspan hin hpair
    (fun _ h ↦ absurd h List.not_mem_nil) hdisjoint hfuel
  have hothers := hm.sublist.length_le
  rw [List.nil_append] at hm hothers
  have hlist : updateSackList (ranges.map (sackBlock isn)) (isn.add u) (isn.add v) =
      if 4 < (((u', v') :: others).map (sackBlock isn)).length then
        (((u', v') :: others).map (sackBlock isn)).dropLast
      else ((u', v') :: others).map (sackBlock isn) := by
    rw [← hrun]
    rfl
  rw [hlist, List.length_map, List.length_cons]
  split_ifs with hlong
  · have hne : others ≠ [] := List.ne_nil_of_length_pos (by omega)
    refine ⟨u', v', others.dropLast, ?_, ?_, ?_⟩
    · rw [← List.map_dropLast, List.dropLast_cons_of_ne_nil hne]
    · exact ⟨hm.head_le, hm.le_tail, others.dropLast_sublist.trans hm.sublist,
        fun r hr ↦ hm.apart r (List.mem_of_mem_dropLast hr), hm.cover⟩
    · rw [List.length_dropLast]
      omega
  · exact ⟨u', v', others, rfl, hm, by omega⟩

theorem clearSackList_spec (hn : base ≤ n ∧ n ≤ base + SequenceNumber.halfMaxValue 32)
    (hin : ∀ r ∈ ranges, Spans base r) :
    clearSackList (ranges.map (sackBlock isn)) (isn.add n) =
      (ranges.filter fun r ↦ decide (n < r.2)).map (sackBlock isn) := by
  rw [clearSackList, List.filter_map]
  congr 1
  refine List.filter_congr fun r hr ↦ ?_
  obtain ⟨h₁, h₂, h₃⟩ := hin r hr
  change (!(isn.add r.2).le (isn.add n)) = _
  rw [isn.le_add (by omega) (by omega), ← decide_not, decide_eq_decide, not_le]

/-- The second loop of `Add` takes away the blocks that have come into order. -/
theorem advance_sackList {blocks : List Block} (hin : ∀ b ∈ blocks, b.Within base)
    (hn : base ≤ n ∧ n ≤ base + SequenceNumber.halfMaxValue 32)
    (hr : ∀ r ∈ ranges, Spans base r) (availBytes : ℕ) : ∃ n' availBytes' kept,
      advance (isn.add n) availBytes (ranges.map (sackBlock isn)) (blocks.map (Block.entry isn)) =
          (isn.add n', availBytes', kept.map (sackBlock isn)) ∧
        n ≤ n' ∧ n' ≤ base + SequenceNumber.halfMaxValue 32 ∧ kept.Sublist ranges ∧
        (n' = n → kept = ranges) ∧ (n < n' → ∀ r ∈ kept, n' < r.2) := by
  induction blocks generalizing n ranges availBytes with
  | nil =>
    exact ⟨n, availBytes, ranges, rfl, le_rfl, hn.2, .refl _, fun _ ↦ rfl, fun h ↦ absurd h (lt_irrefl n)⟩
  | cons b rest ih =>
    obtain ⟨hb₁, hb₂⟩ := hin b List.mem_cons_self
    have hpos := b.position_lt_stop
    have hin' := fun c hc ↦ hin c (List.mem_cons_of_mem b hc)
    rw [List.map_cons, Block.entry, advance, isn.lt_add (by omega) (by omega),
      isn.gt_add (by omega) (by omega), SequenceNumber.add_add]
    simp only [decide_eq_true_iff]
    by_cases hlow : b.position < n
    · rw [if_pos hlow]
      exact ih hin' hn hr availBytes
    rw [if_neg hlow]
    by_cases hhigh : n < b.position
    · rw [if_pos hhigh]
      exact ⟨n, availBytes, ranges, rfl, le_rfl, hn.2, .refl _, fun _ ↦ rfl,
        fun h ↦ absurd h (lt_irrefl n)⟩
    · rw [if_neg hhigh]
      have hstop : b.position + b.bytes.length = b.stop := rfl
      have hstop' : base ≤ b.stop ∧ b.stop ≤ base + SequenceNumber.halfMaxValue 32 := by omega
      rw [hstop, clearSackList_spec isn hstop' hr]
      obtain ⟨n', availBytes', kept, hrun, hle, hn', hsub, hsame, hkept⟩ := ih hin' hstop'
        (fun r h ↦ hr r (List.mem_of_mem_filter h)) (add32 availBytes b.bytes.length)
      refine ⟨n', availBytes', kept, hrun, by omega, hn', hsub.trans List.filter_sublist, by omega,
        fun _ r h ↦ ?_⟩
      rcases hle.eq_or_lt with rfl | hlt
      · rw [hsame rfl] at h
        exact of_decide_eq_true (List.mem_filter.mp h).2
      · exact hkept hlt r h

theorem mem_removeOverlap {blocks : List Block} {b : Block} {h t size : ℕ}
    (hin : ∀ b ∈ blocks, b.Within base) (hh : base ≤ h ∧ h ≤ base + SequenceNumber.halfMaxValue 32)
    (ht : base ≤ t ∧ t ≤ base + SequenceNumber.halfMaxValue 32) (hb : b ∈ blocks)
    (hstop : t ≤ b.stop) :
    b.entry isn ∈ (removeOverlap (isn.add h) (isn.add t) size
      (blocks.map (Block.entry isn))).2.2.2 := by
  induction blocks generalizing h t size with
  | nil => exact absurd hb List.not_mem_nil
  | cons c rest ih =>
    obtain ⟨hc₁, hc₂⟩ := hin c List.mem_cons_self
    have hpos := c.position_lt_stop
    have hadd : (isn.add c.position).add c.bytes.length = isn.add c.stop :=
      SequenceNumber.add_add _ _ _
    have ih' := fun {h t size} ↦ @ih h t size fun d hd ↦ hin d (List.mem_cons_of_mem c hd)
    -- the loop passes the block, and goes on with the positions from `h₁` to `t₁`
    have pass : ∀ h₁ t₁, base ≤ h₁ ∧ h₁ ≤ base + SequenceNumber.halfMaxValue 32 →
        base ≤ t₁ ∧ t₁ ≤ t → b.entry isn ∈ (isn.add c.position, c.bytes) ::
          (removeOverlap (isn.add h₁) (isn.add t₁) size (rest.map (Block.entry isn))).2.2.2 := by
      intro h₁ t₁ hh₁ ht₁
      rcases List.mem_cons.mp hb with rfl | hb
      · exact List.mem_cons_self
      · exact List.mem_cons_of_mem _
          (ih' hh₁ ⟨ht₁.1, ht₁.2.trans ht.2⟩ hb (ht₁.2.trans hstop))
    rw [List.map_cons, Block.entry.eq_def isn c, removeOverlap, hadd]
    dsimp only
    rw [isn.le_add (by omega) (by omega), isn.gt_add (by omega) (by omega),
      isn.gt_add (by omega) (by omega), isn.lt_add (by omega) (by omega),
      isn.le_add (by omega) (by omega), isn.ge_add (by omega) (by omega)]
    simp only [decide_eq_true_iff]
    split_ifs with hat hlast hembedded hhead htail htail
    · rcases List.mem_cons.mp hb with rfl | hb
      · omega
      · exact ih' hh ht hb hstop
    · exact pass _ _ (by omega) (by omega)
    · exact pass _ _ (by omega) ⟨ht.1, le_rfl⟩
    · exact pass _ _ hh (by omega)
    · exact pass _ _ hh ⟨ht.1, le_rfl⟩
    · exact pass _ _ hh ⟨ht.1, le_rfl⟩
    · exact List.mem_map_of_mem hb

end Lists

/-! ## What should be reported -/

/-- The list has at most four blocks, which are held, and there are gaps between them and before the
first of them. -/
structure SackReported (x : TcpRxBuffer) : Prop where
  length_le : x.m_sackList.length ≤ 4
  ordered : ∀ block ∈ x.m_sackList, block.1.lt block.2 = true ∧ block.1.gt x.m_nextRxSeq = true
  held : ∀ block ∈ x.m_sackList, ∀ i < (block.2.m_value - block.1.m_value).toNat,
    ∃ e ∈ x.m_data, ∃ j < e.2.length, e.1.add j = block.1.add i
  apart : x.m_sackList.Pairwise fun block block' ↦
    block.2.lt block'.1 = true ∨ block'.2.lt block.1 = true

/-- What is stored out of order on the way from `x` to `x'` is in the first block. -/
def FirstReported (x x' : TcpRxBuffer) : Prop :=
  ∀ e ∈ x'.m_data, e ∉ x.m_data → e.1.gt x.m_nextRxSeq = true →
    ∃ block ∈ x'.m_sackList.head?, block.1.le e.1 = true ∧ (e.1.add e.2.length).le block.2 = true

namespace Receiver

variable (isn : SequenceNumber32) (s : Receiver)

/-- The end of a segment, trimmed to the window that starts with the first block. -/
def segmentEnd (start length : ℕ) : ℕ :=
  match s.buffer.m_data with
  | [] => start + length
  | first :: _ => min (start + length) (s.position isn first.1 + s.buffer.m_maxBuffer)

/-- The segment ends behind the block, and of the positions before the block it has one that is not
held. -/
def Swallows (start length : ℕ) (b : SequenceNumber32 × List UInt8) : Prop :=
  s.position isn b.1 + b.2.length < s.segmentEnd isn start length ∧
    ∃ x < s.position isn b.1, start ≤ x ∧ ∀ c ∈ s.buffer.m_data,
      ¬(s.position isn c.1 ≤ x ∧ x < s.position isn c.1 + c.2.length)

instance (start length : ℕ) : DecidablePred (s.Swallows isn start length) :=
  fun _ ↦ inferInstanceAs (Decidable (_ ∧ _))

/-- Some byte of the block is reported. -/
def Reports (b : SequenceNumber32 × List UInt8) : Prop :=
  ∃ block ∈ s.buffer.m_sackList, s.position isn block.1 < s.position isn b.1 + b.2.length ∧
    s.position isn b.1 < s.position isn block.2

instance : DecidablePred (s.Reports isn) :=
  fun _ ↦ inferInstanceAs (Decidable (∃ block ∈ s.buffer.m_sackList, _ ∧ _))

/-- No segment out of order swallows what has been reported, and the end of the stream stays unknown. -/
def ReportsKept : Op → Prop
  | .add start length => s.position isn s.buffer.m_nextRxSeq < start →
      ∀ b ∈ s.buffer.m_data, s.Swallows isn start length b → ¬ s.Reports isn b
  | .setFinSequence => False
  | .extract _ => True

instance : DecidablePred (s.ReportsKept isn)
  | .add start _ => inferInstanceAs (Decidable (_ < start → _))
  | .setFinSequence => .isFalse id
  | .extract _ => .isTrue trivial

end Receiver

/-! ## The invariant -/

/-- The receiver reports `ranges`. -/
structure Reporting (isn : SequenceNumber32) (stream : List UInt8) (s : Receiver)
    (blocks : List Block) (ranges : List (ℕ × ℕ)) : Prop extends Buffered isn stream s blocks where
  gotFin : s.buffer.m_gotFin = false
  sackList : s.buffer.m_sackList = ranges.map (sackBlock isn)
  length_le : ranges.length ≤ 4
  behind : ∀ r ∈ ranges, s.received < r.1 ∧ r.1 < r.2
  covered : ∀ r ∈ ranges, ∀ x, r.1 ≤ x → x < r.2 → Covers blocks x
  apart : ranges.Pairwise Apart

section Invariant

variable {isn : SequenceNumber32} {stream : List UInt8} {maxBuffer : ℕ} {s s' : Receiver}
  {blocks : List Block} {ranges : List (ℕ × ℕ)} {base start length next h t h' t' : ℕ}
  {kept : List Block}

/-- Positions that are held compare with `base` if the blocks do. -/
theorem spans_of_covers {r : ℕ × ℕ} (hin : ∀ b ∈ blocks, b.Within base) (hlt : r.1 < r.2)
    (hcovers : ∀ x, r.1 ≤ x → x < r.2 → Covers blocks x) : Spans base r := by
  obtain ⟨b, hb, hle, -⟩ := hcovers r.1 le_rfl hlt
  obtain ⟨c, hc, -, hstop⟩ := hcovers (r.2 - 1) (by omega) (by omega)
  have hb' := (hin b hb).1
  have hc' := (hin c hc).2
  exact ⟨hb'.trans hle, hlt, by omega⟩

theorem Reporting.nextRxSeq_eq (hi : Reporting isn stream s blocks ranges) :
    s.buffer.m_nextRxSeq = isn.add s.received := by
  rw [hi.nextRxSeq, if_neg fun h ↦ Bool.false_ne_true (hi.gotFin.symm.trans h.1), Nat.add_zero]

theorem Reporting.reported (hi : Reporting isn stream s blocks ranges) :
    SackReported s.buffer := by
  have hhalf := halfMaxValue_add_one
  have hspans : ∀ r ∈ ranges, Spans s.extracted.length r := fun r hr ↦
    spans_of_covers hi.within (hi.behind r hr).2 (hi.covered r hr)
  have hlow : s.extracted.length ≤ s.received := Nat.le_add_right _ _
  obtain ⟨-, hle⟩ := hi.received_le
  constructor
  · rw [hi.sackList, List.length_map]
    exact hi.length_le
  · intro block hblock
    rw [hi.sackList] at hblock
    obtain ⟨r, hr, rfl⟩ := List.mem_map.mp hblock
    obtain ⟨h₁, h₂, h₃⟩ := hspans r hr
    rw [hi.nextRxSeq_eq, sackBlock]
    dsimp only
    rw [isn.lt_add (by omega) (by omega), isn.gt_add (by omega) (by omega)]
    exact ⟨decide_eq_true h₂, decide_eq_true (hi.behind r hr).1⟩
  · intro block hblock i hlt
    rw [hi.sackList] at hblock
    obtain ⟨r, hr, rfl⟩ := List.mem_map.mp hblock
    obtain ⟨h₁, h₂, h₃⟩ := hspans r hr
    change i < ((isn.add r.2).m_value - (isn.add r.1).m_value).toNat at hlt
    rw [isn.toNat_sub_add h₂.le (by omega)] at hlt
    obtain ⟨b, hb, hpos, hstop⟩ := hi.covered r hr (r.1 + i) (Nat.le_add_right _ _) (by omega)
    rw [Block.stop] at hstop
    refine ⟨b.entry isn, hi.data ▸ List.mem_map_of_mem hb, r.1 + i - b.position, ?_, ?_⟩
    · change _ < b.bytes.length
      omega
    · change (isn.add b.position).add _ = (isn.add r.1).add i
      rw [SequenceNumber.add_add, SequenceNumber.add_add, Nat.add_sub_cancel' hpos]
  · rw [hi.sackList, List.pairwise_map]
    refine hi.apart.imp_of_mem fun {r r'} hr hr' hapart ↦ ?_
    obtain ⟨h₁, h₂, h₃⟩ := hspans r hr
    obtain ⟨h₁', h₂', h₃'⟩ := hspans r' hr'
    change (isn.add r.2).lt (isn.add r'.1) = true ∨ (isn.add r'.2).lt (isn.add r.1) = true
    rw [isn.lt_add (by omega) (by omega), isn.lt_add (by omega) (by omega), decide_eq_true_iff,
      decide_eq_true_iff]
    exact hapart

/-! ### A segment -/

theorem Buffered.fitWindow_snd (hi : Buffered isn stream s blocks)
    (hin : s.InWindow isn start length) :
    (s.buffer.fitWindow (isn.add start) ((isn.add start).add length)).2 =
      isn.add (s.segmentEnd isn start length) := by
  have hhalf := halfMaxValue_add_one
  obtain ⟨htail, -, -, hfirst⟩ := hin
  rw [fitWindow, Receiver.segmentEnd, hi.data, SequenceNumber.add_add]
  cases blocks with
  | nil => rfl
  | cons b rest =>
    have hpos := hi.entry_position (b := b) List.mem_cons_self
    have hwithin := (hi.within b List.mem_cons_self).1
    have hedge := hfirst (b.entry isn) (by rw [hi.data]; rfl)
    rw [hpos] at hedge
    rw [List.map_cons]
    dsimp only
    rw [hpos, Block.entry, SequenceNumber.add_add, isn.lt_add (by omega) (by omega)]
    simp only [decide_eq_true_iff]
    split_ifs with hlt
    · rw [min_eq_right hlt.le]
    · rw [min_eq_left (not_lt.mp hlt)]

theorem Buffered.segmentEnd_eq (hi : Buffered isn stream s blocks)
    (hin : s.InWindow isn start length)
    (ha : Arrival isn stream s blocks start length next h t h' t' kept) :
    s.segmentEnd isn start length = t := by
  have hhalf := halfMaxValue_add_one
  have heq := hi.fitWindow_snd hin
  rw [ha.fitWindow] at heq
  obtain ⟨htail, -⟩ := hin
  have hlow : min start s.extracted.length ≤ s.segmentEnd isn start length := by
    rw [Receiver.segmentEnd, hi.data]
    cases blocks with
    | nil =>
      change _ ≤ start + length
      omega
    | cons b rest =>
      have hpos := hi.entry_position (b := b) List.mem_cons_self
      have hwithin := (hi.within b List.mem_cons_self).1
      rw [List.map_cons]
      dsimp only
      omega
  have hhigh : s.segmentEnd isn start length ≤ start + length := by
    rw [Receiver.segmentEnd]
    split
    · exact le_rfl
    · exact min_le_left _ _
  have hfit := ha.fitted.tail_le
  have hfit' := ha.fitted.low.2
  exact ((isn.add_inj (by omega) (by omega)).mp heq).symm

theorem Buffered.stop_lt_of_dropped (hi : Buffered isn stream s blocks)
    (hin : s.InWindow isn start length)
    (ha : Arrival isn stream s blocks start length next h t h' t' kept) {b : Block}
    (hb : b ∈ blocks) (hdropped : b ∉ kept) : b.stop < t := by
  by_contra hge
  obtain ⟨htail, -⟩ := hin
  have hhalf := halfMaxValue_add_one
  have htail' := ha.fitted.tail_le
  have hmem := @mem_removeOverlap isn _ blocks b h t (totalSize blocks) ha.within
    ⟨ha.fitted.low.1, ha.fitted.head_le⟩ ⟨ha.fitted.low.2, by omega⟩ hb (not_lt.mp hge)
  rw [ha.removeOverlap] at hmem
  obtain ⟨c, hc, hentry⟩ := List.mem_map.mp hmem
  have hposition := hi.entry_position (ha.trimmed.sublist.subset hc)
  rw [hentry, hi.entry_position hb] at hposition
  obtain ⟨position, bytes, hpos⟩ := b
  obtain ⟨position', bytes', hpos'⟩ := c
  obtain rfl : position = position' := hposition
  obtain rfl : bytes' = bytes := congrArg Prod.snd hentry
  exact hdropped hc

theorem Reporting.disjoint (hi : Reporting isn stream s blocks ranges)
    (hin : s.InWindow isn start length)
    (ha : Arrival isn stream s blocks start length next h t h' t' kept) (hstart : s.received < start)
    (hstored : start ≤ h' ∧ h' < t') (hg : s.ReportsKept isn (.add start length)) :
    ∀ r ∈ ranges, r.2 ≤ h' ∨ t' ≤ r.1 := by
  intro r hr
  by_contra hnot
  have hhalf := halfMaxValue_add_one
  have hlow : s.extracted.length ≤ s.received := Nat.le_add_right _ _
  obtain ⟨hr₁, hr₂, hr₃⟩ := spans_of_covers hi.within (hi.behind r hr).2 (hi.covered r hr)
  obtain ⟨b, hb, hpos, hstop⟩ := hi.covered r hr (max r.1 h') (by omega) (by omega)
  have hnext : s.position isn s.buffer.m_nextRxSeq < start := by
    obtain ⟨-, hle⟩ := hi.received_le
    rw [hi.nextRxSeq_eq, Receiver.position_add hlow (by omega)]
    exact hstart
  -- a block that stays does not overlap the segment
  have hdropped : b ∉ kept := fun hmem ↦ by
    have := ha.trimmed.apart hstored.2 b hmem
    omega
  obtain ⟨hhead, -⟩ := (ha.trimmed.dropped b hb).resolve_left hdropped
  have hend := hi.stop_lt_of_dropped hin ha hb hdropped
  rw [Block.stop] at hend hstop
  refine hg hnext (b.entry isn) (hi.data ▸ List.mem_map_of_mem hb) ⟨?_, h', ?_, hstored.1, ?_⟩ ?_
  · rw [hi.entry_position hb, hi.segmentEnd_eq hin ha]
    exact hend
  · rw [hi.entry_position hb]
    exact hhead
  · intro e he
    rw [hi.data] at he
    obtain ⟨c, hc, rfl⟩ := List.mem_map.mp he
    rw [hi.entry_position hc]
    change ¬(c.position ≤ h' ∧ h' < c.stop)
    rcases ha.trimmed.dropped c hc with hkept | hdrop
    · have := ha.trimmed.apart hstored.2 c hkept
      omega
    · omega
  · refine ⟨sackBlock isn r, hi.sackList ▸ List.mem_map_of_mem hr, ?_, ?_⟩
    · rw [hi.entry_position hb, sackBlock, Receiver.position_add hr₁ (by omega)]
      change r.1 < b.position + b.bytes.length
      omega
    · rw [hi.entry_position hb, sackBlock, Receiver.position_add (by omega) (by omega)]
      omega

/-- The list with the positions from `h'` to `t'`, before what has come into order is taken away. -/
theorem Reporting.exists_report (hi : Reporting isn stream s blocks ranges) {blocks' : List Block}
    (hin : ∀ b ∈ blocks', b.Within s.extracted.length) (hlt : h' < t')
    (hcovers : ∀ x, Covers blocks' x ↔ Covers blocks x ∨ (h' ≤ x ∧ x < t'))
    (hdisjoint : s.received < h' → ∀ r ∈ ranges, r.2 ≤ h' ∨ t' ≤ r.1) :
    ∃ report : List (ℕ × ℕ),
      (if s.received < h' then updateSackList s.buffer.m_sackList (isn.add h') (isn.add t')
        else s.buffer.m_sackList) = report.map (sackBlock isn) ∧ report.length ≤ 4 ∧
      report.Pairwise Apart ∧
      (∀ r ∈ report, s.received < r.1 ∧ r.1 < r.2 ∧ ∀ x, r.1 ≤ x → x < r.2 → Covers blocks' x) ∧
      (s.received < h' → ∃ first ∈ report.head?, first.1 ≤ h' ∧ t' ≤ first.2) := by
  have hold : ∀ r ∈ ranges, ∀ x, r.1 ≤ x → x < r.2 → Covers blocks' x := fun r hr x hx hxr ↦
    (hcovers x).mpr (.inl (hi.covered r hr x hx hxr))
  split_ifs with hbehind
  · have hspan : Spans s.extracted.length (h', t') :=
      spans_of_covers hin hlt fun x hx hxt ↦ (hcovers x).mpr (.inr ⟨hx, hxt⟩)
    have hspans : ∀ r ∈ ranges, Spans s.extracted.length r := fun r hr ↦
      spans_of_covers hin (hi.behind r hr).2 (hold r hr)
    obtain ⟨u, v, others, hrun, hm, hlen⟩ := updateSackList_spec isn hspan hspans hi.apart
      (hdisjoint hbehind) hi.length_le
    have hu := hm.head_le
    have hv := hm.le_tail
    refine ⟨(u, v) :: others, hi.sackList ▸ hrun, Nat.succ_le_succ hlen, ?_, ?_, fun _ ↦ ?_⟩
    · exact List.pairwise_cons.mpr ⟨fun r hr ↦ (hm.apart r hr).symm, hi.apart.sublist hm.sublist⟩
    · intro r hr
      rcases List.mem_cons.mp hr with rfl | hr
      · refine ⟨?_, by dsimp only; omega, fun x hx hxv ↦ ?_⟩
        · rcases hm.cover u le_rfl (by omega) with hnew | ⟨r, hr, hur⟩
          · exact hbehind.trans_le hnew.1
          · exact (hi.behind r hr).1.trans_le hur.1
        · rcases hm.cover x hx hxv with hnew | ⟨r, hr, hxr⟩
          · exact (hcovers x).mpr (.inr hnew)
          · exact hold r hr x hxr.1 hxr.2
      · have hr' := hm.sublist.subset hr
        exact ⟨(hi.behind r hr').1, (hi.behind r hr').2, hold r hr'⟩
    · exact ⟨(u, v), rfl, hu, hv⟩
  · exact ⟨ranges, hi.sackList, hi.length_le, hi.apart, fun r hr ↦ ⟨(hi.behind r hr).1,
      (hi.behind r hr).2, hold r hr⟩, fun h ↦ absurd h hbehind⟩

theorem Reporting.step_store (hi : Reporting isn stream s blocks ranges)
    (hlen : start + length ≤ stream.length) (hin : s.InWindow isn start length)
    (ha : Arrival isn stream s blocks start length next h t h' t' kept) (hlt : h' < t')
    (hg : s.ReportsKept isn (.add start length)) : ∃ blocks' ranges',
      Reporting isn stream
        ⟨store { s.buffer with m_size := totalSize kept, m_data := kept.map (Block.entry isn) }
          (isn.add h') (isn.add t') ((stream.drop h').take (t' - h')), s.extracted⟩ blocks' ranges' ∧
      (∀ b ∈ blocks', b ∈ blocks ∨ (b.position = h' ∧ b.stop = t')) ∧
      (s.received < h' → ∃ first ∈ ranges'.head?, first.1 ≤ h' ∧ t' ≤ first.2) := by
  have hhalf := halfMaxValue_add_one
  have hlow : s.extracted.length ≤ s.received := Nat.le_add_right _ _
  obtain ⟨-, hle⟩ := hi.received_le
  obtain ⟨blocks', hcovers, hmem, hi'⟩ := hi.toBuffered.step_store hin hlen ha.nextRxSeq ha.received_or ha.within
    ha.fitted ha.trimmed hlt
  have hnext : next = s.received := by
    have htail := ha.trimmed.le_tail.trans ha.fitted.tail_le
    have hhead := ha.trimmed.head_le
    have hfit := ha.fitted.head_eq (hhead.trans_lt (hlt.trans_le ha.trimmed.le_tail))
    refine ha.received_or.resolve_right fun heq ↦ ?_
    omega
  have hhead : h = max start s.received := by
    rw [← hnext]
    exact ha.fitted.head_eq (ha.trimmed.head_le.trans_lt (hlt.trans_le ha.trimmed.le_tail))
  have hge := ha.trimmed.head_le
  have hht := ha.trimmed.le_tail
  have hstart : s.received < h' → s.received < start := by
    intro hbehind
    by_contra hnot
    -- the segment starts with the position expected, which is not held
    obtain rfl : h = s.received := by omega
    rcases ha.trimmed.cover s.received le_rfl (by omega) with hnew | ⟨b, hb, hx⟩
    · omega
    · exact hi.gap ⟨b, ha.trimmed.sublist.subset hb, hx⟩
  obtain ⟨report, hreport, hlen', hapart, hbehind, hfirst⟩ := hi.exists_report hi'.within hlt hcovers
    fun h ↦ hi.disjoint hin ha (hstart h) ⟨by omega, hlt⟩ hg
  set x := store { s.buffer with m_size := totalSize kept, m_data := kept.map (Block.entry isn) }
    (isn.add h') (isn.add t') ((stream.drop h').take (t' - h')) with hx
  have hspan : h' ≤ s.extracted.length + SequenceNumber.halfMaxValue 32 := by
    have hhigh := ha.high
    omega
  have hgt : (isn.add h').gt s.buffer.m_nextRxSeq = decide (s.received < h') := by
    rw [hi.nextRxSeq_eq, isn.gt_add (by omega) (by omega)]
  have hspans : ∀ r ∈ report, Spans s.extracted.length r := fun r hr ↦
    spans_of_covers hi'.within (hbehind r hr).2.1 (hbehind r hr).2.2
  have hwithin : ∀ b ∈ blocks', b.Within s.extracted.length := hi'.within
  obtain ⟨n', availBytes', ranges', hrun, hn, hn', hsub, hsame, hclear⟩ := advance_sackList isn
    hwithin ⟨hlow, hle⟩ hspans s.buffer.m_availBytes
  have hadvance : advance s.buffer.m_nextRxSeq s.buffer.m_availBytes
      (if (isn.add h').gt s.buffer.m_nextRxSeq = true then
        updateSackList s.buffer.m_sackList (isn.add h') (isn.add t') else s.buffer.m_sackList)
      x.m_data = (isn.add n', availBytes', ranges'.map (sackBlock isn)) := by
    have hdata : x.m_data = blocks'.map (Block.entry isn) := hi'.data
    rw [hdata, hgt, hi.nextRxSeq_eq]
    simp only [decide_eq_true_iff]
    rw [hreport, hrun]
  have hsack : x.m_sackList = ranges'.map (sackBlock isn) :=
    congrArg (fun p ↦ p.2.2) hadvance
  have hfin : x.m_gotFin = false := hi.gotFin
  have hreceived : (⟨x, s.extracted⟩ : Receiver).received = n' := by
    have hseq : x.m_nextRxSeq = isn.add n' := by
      have hfin' : s.buffer.m_gotFin = false := hi.gotFin
      rw [hx, store]
      dsimp only
      rw [if_neg fun h ↦ Bool.false_ne_true (hfin'.symm.trans h.1)]
      exact congrArg Prod.fst hadvance
    have hseq' := hi'.nextRxSeq
    rw [if_neg fun h ↦ Bool.false_ne_true (hfin.symm.trans h.1), Nat.add_zero] at hseq'
    obtain ⟨-, hle'⟩ := hi'.received_le
    have hlow' : s.extracted.length ≤ (⟨x, s.extracted⟩ : Receiver).received :=
      Nat.le_add_right _ _
    change _ ≤ s.extracted.length + SequenceNumber.halfMaxValue 32 at hle'
    exact (isn.add_inj (by omega) (by omega)).mp (hseq'.symm.trans hseq)
  refine ⟨blocks', ranges', ⟨hi', hfin, hsack, hsub.length_le.trans hlen', ?_, ?_,
    hapart.sublist hsub⟩, hmem, fun h ↦ ?_⟩
  · intro r hr
    obtain ⟨hr₁, hr₂, hr₃⟩ := hbehind r (hsub.subset hr)
    refine ⟨?_, hr₂⟩
    by_contra hnot
    rw [hreceived] at hnot
    refine hi'.gap ?_
    rw [hreceived]
    refine hr₃ n' (not_lt.mp hnot) ?_
    rcases hn.eq_or_lt with rfl | hlt
    · omega
    · exact hclear hlt r hr
  · exact fun r hr ↦ (hbehind r (hsub.subset hr)).2.2
  · have hsame' : n' = s.received := by
      by_contra hne
      have hcovered := hi'.available s.received hlow (by rw [hreceived]; omega)
      rcases (hcovers s.received).mp hcovered with hold | hnew
      · exact hi.gap hold
      · omega
    rw [hsame hsame']
    exact hfirst h

theorem Reporting.step_add (hi : Reporting isn stream s blocks ranges)
    (hlen : start + length ≤ stream.length) (hin : s.InWindow isn start length)
    (hg : s.ReportsKept isn (.add start length)) :
    (∃ blocks' ranges', Reporting isn stream
      ⟨(s.buffer.add (isn.add start) ((stream.drop start).take length)).2, s.extracted⟩
      blocks' ranges') ∧
    FirstReported s.buffer (s.buffer.add (isn.add start) ((stream.drop start).take length)).2 := by
  have hhalf := halfMaxValue_add_one
  obtain ⟨next, h, t, h', t', kept, ha⟩ := hi.exists_arrival hlen hin
  rw [ha.add_eq]
  by_cases hlt : h' < t'
  · rw [if_pos hlt]
    obtain ⟨blocks', ranges', hi', hmem, hfirst⟩ := hi.step_store hlen hin ha hlt hg
    refine ⟨⟨blocks', ranges', hi'⟩, fun e he hnew hgt ↦ ?_⟩
    have hdata := hi'.data
    dsimp only at hdata
    rw [hdata] at he
    obtain ⟨b, hb, rfl⟩ := List.mem_map.mp he
    obtain ⟨hpos, hstop⟩ := (hmem b hb).resolve_left fun hold ↦
      hnew (hi.data ▸ List.mem_map_of_mem hold)
    have hb' : s.extracted.length ≤ b.position ∧ b.stop ≤ s.extracted.length +
      SequenceNumber.halfMaxValue 32 := hi'.within b hb
    have hlow : s.extracted.length ≤ s.received := Nat.le_add_right _ _
    obtain ⟨-, hle⟩ := hi.received_le
    rw [hi.nextRxSeq_eq, Block.entry, isn.gt_add (by omega) (by omega), decide_eq_true_iff] at hgt
    obtain ⟨first, hhead, hfirst₁, hfirst₂⟩ := hfirst (hpos ▸ hgt)
    have hmem' : first ∈ ranges' := List.mem_of_mem_head? hhead
    have hspans : Spans s.extracted.length first :=
      spans_of_covers hi'.within (hi'.behind first hmem').2 (hi'.covered first hmem')
    obtain ⟨hr₁, hr₂, hr₃⟩ := hspans
    have hsack := hi'.sackList
    dsimp only at hsack
    refine ⟨sackBlock isn first, ?_, ?_, ?_⟩
    · rw [hsack, List.head?_map, Option.mem_def.mp hhead]
      rfl
    · change (isn.add first.1).le (isn.add b.position) = true
      rw [isn.le_add (by omega) (by omega), decide_eq_true_iff]
      omega
    · change ((isn.add b.position).add b.bytes.length).le (isn.add first.2) = true
      rw [SequenceNumber.add_add]
      change (isn.add b.stop).le (isn.add first.2) = true
      rw [isn.le_add (by omega) (by omega), decide_eq_true_iff]
      omega
  · -- nothing is left
    rw [if_neg hlt]
    obtain rfl := ha.trimmed.none_dropped.resolve_left hlt
    refine ⟨⟨kept, ranges, ⟨⟨hi.extracted, rfl, hi.sorted, hi.within, hi.part, hi.available, hi.gap,
      hi.nextRxSeq, hi.finSeq, rfl⟩, hi.gotFin, hi.sackList, hi.length_le, hi.behind, hi.covered,
      hi.apart⟩⟩, fun e he hnew ↦ absurd (hi.data ▸ he) hnew⟩

/-! ### Extraction -/

theorem Reporting.step_extract (hi : Reporting isn stream s blocks ranges) (maxSize : ℕ) :
    ∃ out buffer, s.buffer.extract maxSize = some (out, buffer) ∧
      buffer.m_sackList = s.buffer.m_sackList ∧
      ∃ blocks', Reporting isn stream ⟨buffer, s.extracted ++ out.getD []⟩ blocks' ranges := by
  obtain ⟨out, buffer, hrun, hreceived, blocks', hi', hcov⟩ := hi.toBuffered.step_extract maxSize
  obtain ⟨hfin, hsack⟩ := extract_frame hrun
  refine ⟨out, buffer, hrun, hsack, blocks', hi', hfin.trans hi.gotFin, hsack.trans hi.sackList,
    hi.length_le, fun r hr ↦ ?_, fun r hr x hx hxr ↦ ?_, hi.apart⟩
  · rw [hreceived]
    exact hi.behind r hr
  · have hbehind := (hi.behind r hr).1
    exact (hcov x (by omega)).mpr (hi.covered r hr x hx hxr)

/-! ### All steps -/

theorem reporting_init : Reporting isn stream (machine isn stream maxBuffer).init [] [] where
  toBuffered := buffered_init
  gotFin := rfl
  sackList := rfl
  length_le := Nat.zero_le 4
  behind _ hr := absurd hr List.not_mem_nil
  covered _ hr := absurd hr List.not_mem_nil
  apart := .nil

theorem reporting_step {op : Op} (hi : Reporting isn stream s blocks ranges)
    (hg : s.ReportsKept isn op) (hs : (machine isn stream maxBuffer).next s op = some s') :
    ∃ blocks' ranges', Reporting isn stream s' blocks' ranges' := by
  cases op with
  | add start length =>
    simp only [machine, Option.ite_none_right_eq_some, Option.some_inj] at hs
    obtain ⟨⟨hlen, hin⟩, rfl⟩ := hs
    exact (hi.step_add hlen hin hg).1
  | setFinSequence => exact hg.elim
  | extract maxSize =>
    obtain ⟨out, buffer, hrun, -, blocks', hi'⟩ := hi.step_extract maxSize
    simp only [machine, hrun, Option.map_some, Option.some_inj] at hs
    exact ⟨blocks', ranges, hs ▸ hi'⟩

end Invariant

/-- **The reports are right** in all runs in which no segment out of order swallows what has been
reported; then the first block has what has come last. -/
theorem sackReported {isn : SequenceNumber32} {stream : List UInt8} {maxBuffer : ℕ} {ops : List Op}
    {s : Receiver}
    (hr : (machine isn stream maxBuffer).Run (fun s op ↦ s.ReportsKept isn op) ops s) :
    SackReported s.buffer ∧
      (∀ start length s', s.ReportsKept isn (.add start length) →
        (machine isn stream maxBuffer).next s (.add start length) = some s' →
        FirstReported s.buffer s'.buffer) ∧
      ∀ maxSize s', (machine isn stream maxBuffer).next s (.extract maxSize) = some s' →
        s'.buffer.m_sackList = s.buffer.m_sackList := by
  obtain ⟨blocks, ranges, hi⟩ := hr.invariant
    (I := fun s ↦ ∃ blocks ranges, Reporting isn stream s blocks ranges)
    ⟨[], [], reporting_init⟩ fun _ _ _ ⟨_, _, hi⟩ hg hs ↦ reporting_step hi hg hs
  refine ⟨hi.reported, fun start length s' hg hs ↦ ?_, fun maxSize s' hs ↦ ?_⟩
  · simp only [machine, Option.ite_none_right_eq_some, Option.some_inj] at hs
    obtain ⟨⟨hlen, hin⟩, rfl⟩ := hs
    exact (hi.step_add hlen hin hg).2
  · obtain ⟨out, buffer, hrun, hsack, -⟩ := hi.step_extract maxSize
    simp only [machine, hrun, Option.map_some, Option.some_inj] at hs
    rw [← hs]
    exact hsack

/-- Segments out of order: the third one joins the other two. -/
def joiningOps : List Op := [.add 5 1, .add 8 1, .add 6 2, .add 0 3, .extract 2]

theorem sackReported_joiningOps : ∃ s,
    (machine lateIsn twelveBytes 20).Run (fun s op ↦ s.ReportsKept lateIsn op) joiningOps s ∧
      s.buffer.m_sackList = [sackBlock lateIsn (5, 9)] ∧ SackReported s.buffer ∧ ∃ s',
        (machine lateIsn twelveBytes 20).next s (.add 10 2) = some s' ∧
          FirstReported s.buffer s'.buffer := by
  refine Machine.exists_run_and_allowed
    (p := fun s ↦ s.buffer.m_sackList = [sackBlock lateIsn (5, 9)] ∧
      s.ReportsKept lateIsn (.add 10 2) ∧
      ((machine lateIsn twelveBytes 20).next s (.add 10 2)).isSome = true)
    (by decide +kernel) (by decide +kernel) fun s hr ⟨hsack, hg, hsome⟩ ↦ ?_
  obtain ⟨hreported, hfirst, -⟩ := sackReported hr
  obtain ⟨s', hs'⟩ := Option.isSome_iff_exists.mp hsome
  exact ⟨hsack, hreported, s', hs', hfirst 10 2 s' hg hs'⟩

/-- A segment out of order that swallows one: both are reported, and overlap. -/
theorem not_sackReported_swallowed : ∃ s,
    (machine lateIsn twelveBytes 20).Run Machine.unguarded [.add 6 1, .add 4 4] s ∧
      ¬ SackReported s.buffer := by
  refine Machine.exists_run_and
    (p := fun s ↦ s.buffer.m_sackList = [sackBlock lateIsn (4, 8), sackBlock lateIsn (6, 7)])
    (by decide +kernel) fun s hr hsack ↦ ?_
  refine fun hreported ↦ ?_
  have hapart := hreported.apart
  rw [hsack, List.pairwise_pair] at hapart
  exact absurd hapart (by decide)

end TcpRxBuffer

end Ns3
