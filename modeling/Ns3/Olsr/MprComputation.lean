import Ns3.Olsr.OlsrState

/-!
# The multipoint relays of an OLSR node

A node chooses the neighbors that forward its broadcasts so that each node two hops away is reached
through one of them. Two-hop tuples are taken out of a working list in three phases: those that a neighbor
covers that is always willing, those whose two-hop address only one neighbor provides, and what is left by a
greedy loop.

A tuple only leaves the list when its two-hop address is that of a tuple whose neighbor has been chosen, and
this is all that the three phases need to agree on (`Covering`). The greedy loop ends because a neighbor that
reaches something takes at least one tuple out of the list.
-/

namespace Ns3

namespace Olsr

namespace OlsrState

/-! ## The computation -/

def degree (s : OlsrState) (tuple : NeighborTuple) : ℕ :=
  s.m_twoHopNeighborSet.countP fun t ↦
    t.neighborMainAddr = tuple.neighborMainAddr ∧ s.findNeighborTuple t.neighborMainAddr = none

def coverTwoHopNeighbors (neighborMainAddr : Ipv4Address) (N2 : List TwoHopNeighborTuple) :
    List TwoHopNeighborTuple :=
  let toRemove := (N2.filter fun t ↦ t.neighborMainAddr = neighborMainAddr).map
    TwoHopNeighborTuple.twoHopNeighborAddr
  N2.filter fun t ↦ t.twoHopNeighborAddr ∉ toRemove

/-- The symmetric neighbors. -/
def neighborsN (s : OlsrState) : List NeighborTuple := s.m_neighborSet.filter fun n ↦ n.Sym

/-- The first neighbor of the tuple is one that forwards. -/
def reachable (N : List NeighborTuple) (t : TwoHopNeighborTuple) : Bool :=
  match N.find? fun n ↦ n.neighborMainAddr = t.neighborMainAddr with
  | some n => n.willingness ≠ willNever
  | none => false

/-- The two-hop tuples that are to be covered. -/
def neighborsN2 (s : OlsrState) (mainAddress : Ipv4Address) (N : List NeighborTuple) :
    List TwoHopNeighborTuple :=
  s.m_twoHopNeighborSet.filter fun t ↦
    t.twoHopNeighborAddr ≠ mainAddress ∧ reachable N t ∧
      ¬ ∃ n ∈ N, n.neighborMainAddr = t.twoHopNeighborAddr

/-- A working set of relays, and the tuples that are not covered yet. -/
structure Work where
  mprSet : Finset Ipv4Address
  N2 : List TwoHopNeighborTuple
  deriving DecidableEq

/-- A neighbor is chosen, and what it covers is removed. -/
def Work.choose (w : Work) (neighborMainAddr : Ipv4Address) : Work :=
  ⟨insert neighborMainAddr w.mprSet, coverTwoHopNeighbors neighborMainAddr w.N2⟩

/-- The first phase: those that are always willing. -/
def chooseAlways (N : List NeighborTuple) (w : Work) : Work :=
  N.foldl (fun w n ↦ if n.willingness = willAlways then w.choose n.neighborMainAddr else w) w

/-- No tuple has the same two-hop address and another neighbor. -/
def onlyOne (N2 : List TwoHopNeighborTuple) (t : TwoHopNeighborTuple) : Bool :=
  ¬ ∃ u ∈ N2, u.twoHopNeighborAddr = t.twoHopNeighborAddr ∧ u.neighborMainAddr ≠ t.neighborMainAddr

/-- The two-hop addresses of the tuples of a neighbor. -/
def reachedBy (N2 : List TwoHopNeighborTuple) (neighborMainAddr : Ipv4Address) : Finset Ipv4Address :=
  ((N2.filter fun t ↦ t.neighborMainAddr = neighborMainAddr).map
    TwoHopNeighborTuple.twoHopNeighborAddr).toFinset

/-- The loop of the second phase over the tuples, with the addresses that are covered. -/
def onlyOneLoop (N2 : List TwoHopNeighborTuple) :
    List TwoHopNeighborTuple → Finset Ipv4Address × Finset Ipv4Address →
      Finset Ipv4Address × Finset Ipv4Address
  | [], r => r
  | t :: ts, (mprSet, covered) =>
    if onlyOne N2 t then
      onlyOneLoop N2 ts (insert t.neighborMainAddr mprSet,
        covered ∪ reachedBy N2 t.neighborMainAddr)
    else onlyOneLoop N2 ts (mprSet, covered)

/-- The second phase: those that are the only one to reach a node. -/
def chooseOnly (w : Work) : Work :=
  let r := onlyOneLoop w.N2 w.N2 (w.mprSet, ∅)
  ⟨r.1, w.N2.filter fun t ↦ t.twoHopNeighborAddr ∉ r.2⟩

/-- The reachability of a neighbor. -/
def reachability (N2 : List TwoHopNeighborTuple) (n : NeighborTuple) : ℕ :=
  N2.countP fun t ↦ n.neighborMainAddr = t.neighborMainAddr

/-- The neighbors with their reachability, in the order in which the map gives them; those that reach
nothing are passed over. -/
def candidates (N : List NeighborTuple) (N2 : List TwoHopNeighborTuple) :
    List (NeighborTuple × ℕ) :=
  let rs := (N.map (reachability N2)).toFinset.sort (· ≤ ·)
  rs.flatMap fun r ↦
    if r = 0 then []
    else (N.filter fun n ↦ reachability N2 n = r).map fun n ↦ (n, r)

/-- A candidate is compared with the best one so far. -/
def better (s : OlsrState) (max : Option (NeighborTuple × ℕ)) (c : NeighborTuple × ℕ) :
    Option (NeighborTuple × ℕ) :=
  match max with
  | none => some c
  | some m =>
    if c.1.willingness > m.1.willingness then some c
    else if c.1.willingness = m.1.willingness then
      if c.2 > m.2 then some c
      else if c.2 = m.2 then
        if s.degree c.1 > s.degree m.1 then some c else some m
      else some m
    else some m

/-- The neighbor that a turn of the third phase chooses. -/
def selectMax (s : OlsrState) (N : List NeighborTuple) (N2 : List TwoHopNeighborTuple) :
    Option NeighborTuple :=
  ((candidates N N2).foldl s.better none).map Prod.fst

/-- The third phase, for at most `fuel` turns. -/
def greedyLoop (s : OlsrState) (N : List NeighborTuple) : ℕ → Work → Option (Finset Ipv4Address)
  | 0, w => if w.N2 = [] then some w.mprSet else none
  | fuel + 1, w =>
    if w.N2 = [] then some w.mprSet
    else
      match s.selectMax N w.N2 with
      | some max => greedyLoop s N fuel (w.choose max.neighborMainAddr)
      | none => greedyLoop s N fuel w

/-- `MprComputation`; `none` where `fuel` turns of the last loop are not enough. -/
def mprComputation (s : OlsrState) (mainAddress : Ipv4Address) (fuel : ℕ) : Option OlsrState :=
  let N := s.neighborsN
  let w := chooseOnly (chooseAlways N ⟨∅, s.neighborsN2 mainAddress N⟩)
  (greedyLoop s N fuel w).map fun mprSet ↦ { s with m_mprSet := mprSet }

/-! ## What is chosen and what is left -/

section Membership

variable {N2 : List TwoHopNeighborTuple} {N : List NeighborTuple} {t : TwoHopNeighborTuple}
  {a : Ipv4Address}

@[simp] theorem mem_coverTwoHopNeighbors : t ∈ coverTwoHopNeighbors a N2 ↔
    t ∈ N2 ∧ ∀ u ∈ N2, u.neighborMainAddr = a → u.twoHopNeighborAddr ≠ t.twoHopNeighborAddr := by
  simp [coverTwoHopNeighbors]

@[simp] theorem mem_reachedBy {b : Ipv4Address} : b ∈ reachedBy N2 a ↔
    ∃ u ∈ N2, u.neighborMainAddr = a ∧ u.twoHopNeighborAddr = b := by
  simp [reachedBy, and_assoc]

theorem length_coverTwoHopNeighbors_lt (ht : t ∈ N2) (ha : t.neighborMainAddr = a) :
    (coverTwoHopNeighbors a N2).length < N2.length := by
  refine List.length_filter_lt_length_iff_exists.mpr ⟨t, ht, ?_⟩
  simp only [decide_eq_true_eq, not_not, List.mem_map, List.mem_filter]
  exact ⟨t, ⟨ht, ha⟩, rfl⟩

theorem mem_neighborsN {s : OlsrState} {n : NeighborTuple} :
    n ∈ s.neighborsN ↔ n ∈ s.m_neighborSet ∧ n.Sym := by
  simp [neighborsN]

theorem mem_neighborsN2 {s : OlsrState} {m : Ipv4Address} : t ∈ s.neighborsN2 m N ↔
    t ∈ s.m_twoHopNeighborSet ∧ t.twoHopNeighborAddr ≠ m ∧ reachable N t = true ∧
      ∀ n ∈ N, n.neighborMainAddr ≠ t.twoHopNeighborAddr := by
  simp [neighborsN2]

theorem exists_of_reachable (h : reachable N t = true) :
    ∃ n ∈ N, n.neighborMainAddr = t.neighborMainAddr ∧ n.willingness ≠ willNever := by
  unfold reachable at h
  split at h
  · rename_i n hn
    exact ⟨n, List.mem_of_find?_eq_some hn, by simpa using List.find?_some hn, by simpa using h⟩
  · cases h

theorem reachable_of_mem {n : NeighborTuple} (hdistinct : (N.map NeighborTuple.neighborMainAddr).Nodup)
    (hn : n ∈ N) (ha : n.neighborMainAddr = t.neighborMainAddr) (hw : n.willingness ≠ willNever) :
    reachable N t = true := by
  have hsome : (N.find? fun n ↦ n.neighborMainAddr = t.neighborMainAddr).isSome :=
    List.find?_isSome.mpr ⟨n, hn, decide_eq_true ha⟩
  obtain ⟨n', hn'⟩ := Option.isSome_iff_exists.mp hsome
  have haddr : n'.neighborMainAddr = t.neighborMainAddr := by simpa using List.find?_some hn'
  have heq : n' = n :=
    List.inj_on_of_nodup_map hdistinct (List.mem_of_find?_eq_some hn') hn (haddr.trans ha.symm)
  unfold reachable
  rw [hn', heq]
  exact decide_eq_true hw

theorem mem_candidates {c : NeighborTuple × ℕ} : c ∈ candidates N N2 ↔
    c.1 ∈ N ∧ reachability N2 c.1 = c.2 ∧ c.2 ≠ 0 := by
  obtain ⟨n, r⟩ := c
  simp only [candidates, List.mem_flatMap, Finset.mem_sort, List.mem_toFinset, List.mem_map]
  constructor
  · rintro ⟨r', -, hr'⟩
    split at hr'
    · cases hr'
    · rename_i hne
      simp only [List.mem_map, List.mem_filter, decide_eq_true_eq, Prod.mk.injEq] at hr'
      obtain ⟨m, ⟨hm, hreach⟩, rfl, rfl⟩ := hr'
      exact ⟨hm, hreach, hne⟩
  · rintro ⟨hn, hreach, hne⟩
    refine ⟨r, ⟨n, hn, hreach⟩, ?_⟩
    rw [if_neg hne]
    exact List.mem_map.mpr ⟨n, List.mem_filter.mpr ⟨hn, decide_eq_true hreach⟩, rfl⟩

end Membership

/-! ## The greedy choice -/

section Greedy

variable {s : OlsrState} {N : List NeighborTuple} {N2 : List TwoHopNeighborTuple}

theorem better_cases (max : Option (NeighborTuple × ℕ)) (c : NeighborTuple × ℕ) :
    s.better max c = some c ∨ (s.better max c = max ∧ max.isSome) := by
  cases max with
  | none => exact Or.inl rfl
  | some m =>
    unfold better
    dsimp only
    split_ifs
    all_goals first | exact Or.inl rfl | exact Or.inr ⟨rfl, rfl⟩

theorem foldl_better {l : List (NeighborTuple × ℕ)} (max : Option (NeighborTuple × ℕ))
    (h : max.isSome ∨ l ≠ []) :
    ∃ m, l.foldl s.better max = some m ∧ (max = some m ∨ m ∈ l) := by
  induction l generalizing max with
  | nil =>
    obtain ⟨m, rfl⟩ := Option.isSome_iff_exists.mp (h.resolve_right fun hne ↦ hne rfl)
    exact ⟨m, rfl, Or.inl rfl⟩
  | cons c l ih =>
    rw [List.foldl_cons]
    rcases s.better_cases max c with hc | ⟨hmax, hsome⟩
    · rw [hc]
      obtain ⟨m, hm, hm'⟩ := ih (some c) (Or.inl rfl)
      refine ⟨m, hm, Or.inr ?_⟩
      rcases hm' with heq | hmem
      · rw [Option.some_inj] at heq
        exact heq ▸ List.mem_cons_self
      · exact List.mem_cons_of_mem c hmem
    · rw [hmax]
      obtain ⟨m, hm, hm'⟩ := ih max (Or.inl hsome)
      exact ⟨m, hm, hm'.imp id (List.mem_cons_of_mem c)⟩

/-- **A turn makes progress**: while something is left a neighbor is chosen that reaches some of it. -/
theorem selectMax_spec {t : TwoHopNeighborTuple} {n : NeighborTuple} (ht : t ∈ N2) (hn : n ∈ N)
    (ha : n.neighborMainAddr = t.neighborMainAddr) :
    ∃ max, s.selectMax N N2 = some max ∧ max ∈ N ∧
      ∃ u ∈ N2, u.neighborMainAddr = max.neighborMainAddr := by
  have hpos : reachability N2 n ≠ 0 :=
    (List.countP_pos_iff.mpr ⟨t, ht, decide_eq_true ha⟩).ne'
  have hne : candidates N N2 ≠ [] :=
    List.ne_nil_of_mem ((mem_candidates (c := (n, reachability N2 n))).mpr ⟨hn, rfl, hpos⟩)
  obtain ⟨⟨max, r⟩, hmax, hmem⟩ := s.foldl_better none (Or.inr hne)
  obtain ⟨hN, hr, hr0⟩ := mem_candidates.mp (hmem.resolve_left (Option.some_ne_none _ ·.symm))
  rw [← hr] at hr0
  obtain ⟨u, hu, hua⟩ := List.countP_pos_iff.mp (Nat.pos_of_ne_zero hr0)
  exact ⟨max, by rw [selectMax, hmax, Option.map_some], hN, u, hu, (of_decide_eq_true hua).symm⟩

end Greedy

/-! ## Coverage -/

/-- The relays are neighbors that forward, and a tuple of `all` is still to be covered, or its address is
that of one whose neighbor has been chosen. -/
structure Covering (N : List NeighborTuple) (all : List TwoHopNeighborTuple) (w : Work) : Prop where
  chosen : ∀ a ∈ w.mprSet, ∃ n ∈ N, n.neighborMainAddr = a ∧ n.willingness ≠ willNever
  left : w.N2.Sublist all
  covered : ∀ t ∈ all, t ∈ w.N2 ∨
    ∃ u ∈ all, u.twoHopNeighborAddr = t.twoHopNeighborAddr ∧ u.neighborMainAddr ∈ w.mprSet

section Coverage

variable {s : OlsrState} {N : List NeighborTuple} {all : List TwoHopNeighborTuple} {w w' : Work}

theorem Covering.shrink (h : Covering N all w)
    (hchosen : ∀ a ∈ w'.mprSet, a ∈ w.mprSet ∨
      ∃ n ∈ N, n.neighborMainAddr = a ∧ n.willingness ≠ willNever)
    (hmore : w.mprSet ⊆ w'.mprSet) (hleft : w'.N2.Sublist w.N2)
    (hgone : ∀ t ∈ w.N2, t ∈ w'.N2 ∨
      ∃ u ∈ w.N2, u.twoHopNeighborAddr = t.twoHopNeighborAddr ∧ u.neighborMainAddr ∈ w'.mprSet) :
    Covering N all w' where
  chosen a ha := (hchosen a ha).elim (h.chosen a) id
  left := hleft.trans h.left
  covered t ht := by
    rcases h.covered t ht with hin | ⟨u, hu, hut, huc⟩
    · exact (hgone t hin).imp id fun ⟨u, hu, hut⟩ ↦ ⟨u, h.left.subset hu, hut⟩
    · exact Or.inr ⟨u, hu, hut, hmore huc⟩

theorem Covering.choose (h : Covering N all w) {n : NeighborTuple} (hn : n ∈ N)
    (hw : n.willingness ≠ willNever) : Covering N all (w.choose n.neighborMainAddr) := by
  refine h.shrink (fun a ha ↦ ?_) (Finset.subset_insert _ _)
    List.filter_sublist fun t ht ↦ ?_
  · rcases Finset.mem_insert.mp ha with rfl | ha
    · exact Or.inr ⟨n, hn, rfl, hw⟩
    · exact Or.inl ha
  · by_cases hcover : ∃ u ∈ w.N2, u.neighborMainAddr = n.neighborMainAddr ∧
        u.twoHopNeighborAddr = t.twoHopNeighborAddr
    · obtain ⟨u, hu, hua, hut⟩ := hcover
      exact Or.inr ⟨u, hu, hut, by rw [hua]; exact Finset.mem_insert_self _ _⟩
    · exact Or.inl (mem_coverTwoHopNeighbors.mpr
        ⟨ht, fun u hu hua hut ↦ hcover ⟨u, hu, hua, hut⟩⟩)

theorem subset_chooseAlways (l : List NeighborTuple) (w : Work) :
    w.mprSet ⊆ (chooseAlways l w).mprSet := by
  induction l generalizing w with
  | nil => exact Finset.Subset.refl _
  | cons n l ih =>
    rw [chooseAlways, List.foldl_cons]
    refine Finset.Subset.trans ?_ (ih _)
    split_ifs
    · exact Finset.subset_insert _ _
    · exact Finset.Subset.refl _

/-- **The first phase**: those that are always willing are chosen. -/
theorem Covering.chooseAlways (h : Covering N all w) {l : List NeighborTuple} (hl : ∀ n ∈ l, n ∈ N) :
    Covering N all (chooseAlways l w) ∧
      ∀ n ∈ l, n.willingness = willAlways → n.neighborMainAddr ∈ (OlsrState.chooseAlways l w).mprSet := by
  induction l generalizing w with
  | nil => exact ⟨h, fun n hn ↦ absurd hn List.not_mem_nil⟩
  | cons n l ih =>
    have htail : ∀ m ∈ l, m ∈ N := fun m hm ↦ hl m (List.mem_cons_of_mem n hm)
    by_cases hw : n.willingness = willAlways
    · have hnever : n.willingness ≠ willNever := by
        rw [hw]
        decide
      have hstep : OlsrState.chooseAlways (n :: l) w =
          OlsrState.chooseAlways l (w.choose n.neighborMainAddr) := by
        rw [OlsrState.chooseAlways, List.foldl_cons, if_pos hw, OlsrState.chooseAlways]
      rw [hstep]
      obtain ⟨hcovering, halways⟩ := ih (h.choose (hl n List.mem_cons_self) hnever) htail
      refine ⟨hcovering, fun m hm hmw ↦ ?_⟩
      rcases List.mem_cons.mp hm with rfl | hm
      · exact subset_chooseAlways l _ (Finset.mem_insert_self _ _)
      · exact halways m hm hmw
    · have hstep : OlsrState.chooseAlways (n :: l) w = OlsrState.chooseAlways l w := by
        rw [OlsrState.chooseAlways, List.foldl_cons, if_neg hw, OlsrState.chooseAlways]
      rw [hstep]
      obtain ⟨hcovering, halways⟩ := ih h htail
      refine ⟨hcovering, fun m hm hmw ↦ ?_⟩
      rcases List.mem_cons.mp hm with rfl | hm
      · exact absurd hmw hw
      · exact halways m hm hmw

theorem onlyOneLoop_spec {N2 l : List TwoHopNeighborTuple}
    {r : Finset Ipv4Address × Finset Ipv4Address} (hl : ∀ t ∈ l, t ∈ N2) :
    r.1 ⊆ (onlyOneLoop N2 l r).1 ∧
      (∀ a ∈ (onlyOneLoop N2 l r).1, a ∈ r.1 ∨ ∃ t ∈ N2, t.neighborMainAddr = a) ∧
      ∀ b ∈ (onlyOneLoop N2 l r).2, b ∈ r.2 ∨
        ∃ u ∈ N2, u.twoHopNeighborAddr = b ∧ u.neighborMainAddr ∈ (onlyOneLoop N2 l r).1 := by
  induction l generalizing r with
  | nil => exact ⟨Finset.Subset.refl _, fun a ha ↦ Or.inl ha, fun b hb ↦ Or.inl hb⟩
  | cons t l ih =>
    have htail : ∀ u ∈ l, u ∈ N2 := fun u hu ↦ hl u (List.mem_cons_of_mem t hu)
    obtain ⟨mprSet, covered⟩ := r
    rw [onlyOneLoop]
    split_ifs
    · obtain ⟨hmore, hadded, hcovered⟩ := ih (r := (insert t.neighborMainAddr mprSet,
        covered ∪ reachedBy N2 t.neighborMainAddr)) htail
      refine ⟨(Finset.subset_insert _ _).trans hmore, fun a ha ↦ ?_, fun b hb ↦ ?_⟩
      · rcases hadded a ha with ha | ha
        · rcases Finset.mem_insert.mp ha with rfl | ha
          · exact Or.inr ⟨t, hl t List.mem_cons_self, rfl⟩
          · exact Or.inl ha
        · exact Or.inr ha
      · rcases hcovered b hb with hb | hb
        · rcases Finset.mem_union.mp hb with hb | hb
          · exact Or.inl hb
          · obtain ⟨u, hu, hua, hub⟩ := mem_reachedBy.mp hb
            exact Or.inr ⟨u, hu, hub, hmore (hua ▸ Finset.mem_insert_self _ _)⟩
        · exact Or.inr hb
    · exact ih htail

/-- **The second phase** chooses neighbors of tuples that are left. -/
theorem Covering.chooseOnly (h : Covering N all w)
    (hall : ∀ t ∈ all, ∃ n ∈ N, n.neighborMainAddr = t.neighborMainAddr ∧ n.willingness ≠ willNever) :
    w.mprSet ⊆ (OlsrState.chooseOnly w).mprSet ∧ Covering N all (chooseOnly w) := by
  obtain ⟨hmore, hadded, hcovered⟩ :=
    onlyOneLoop_spec (r := (w.mprSet, ∅)) fun (t : TwoHopNeighborTuple) (ht : t ∈ w.N2) ↦ ht
  refine ⟨hmore, h.shrink (fun a ha ↦ ?_) hmore List.filter_sublist
    fun t ht ↦ ?_⟩
  · rcases hadded a ha with ha | ⟨t, ht, rfl⟩
    · exact Or.inl ha
    · exact Or.inr (hall t (h.left.subset ht))
  · by_cases hb : t.twoHopNeighborAddr ∈ (onlyOneLoop w.N2 w.N2 (w.mprSet, ∅)).2
    · exact Or.inr ((hcovered _ hb).resolve_left (Finset.notMem_empty _))
    · exact Or.inl (List.mem_filter.mpr ⟨ht, decide_eq_true hb⟩)

/-- **The third phase** ends after at most a turn for each tuple that is left, with nothing left. -/
theorem Covering.greedyLoop (h : Covering N all w)
    (hdistinct : (N.map NeighborTuple.neighborMainAddr).Nodup)
    (hall : ∀ t ∈ all, ∃ n ∈ N, n.neighborMainAddr = t.neighborMainAddr ∧ n.willingness ≠ willNever) :
    ∃ mprSet, (∀ fuel, w.N2.length ≤ fuel → s.greedyLoop N fuel w = some mprSet) ∧
      w.mprSet ⊆ mprSet ∧ Covering N all ⟨mprSet, []⟩ := by
  -- the measure of the loop is the number of tuples that are left
  induction hlength : w.N2.length using Nat.strong_induction_on generalizing w with
  | _ k ih =>
    by_cases hnil : w.N2 = []
    · refine ⟨w.mprSet, fun fuel _ ↦ ?_, Finset.Subset.refl _, h.chosen, ?_, ?_⟩
      · cases fuel with
        | zero => rw [OlsrState.greedyLoop, if_pos hnil]
        | succ fuel => rw [OlsrState.greedyLoop, if_pos hnil]
      · exact List.nil_sublist all
      · exact fun t ht ↦ by simpa [hnil] using h.covered t ht
    · obtain ⟨t, ht⟩ := List.exists_mem_of_ne_nil _ hnil
      obtain ⟨n, hn, hna, -⟩ := hall t (h.left.subset ht)
      obtain ⟨max, hmax, hmaxN, u, hu, hua⟩ := selectMax_spec (s := s) ht hn hna
      obtain ⟨n', hn', hn'a, hn'w⟩ := hall u (h.left.subset hu)
      have heq : n' = max := List.inj_on_of_nodup_map hdistinct hn' hmaxN (hn'a.trans hua)
      have hless : (w.choose max.neighborMainAddr).N2.length < k :=
        hlength ▸ length_coverTwoHopNeighbors_lt hu hua
      obtain ⟨mprSet, hloop, hmore, hcovering⟩ :=
        ih _ hless (h.choose hmaxN (heq ▸ hn'w)) rfl
      refine ⟨mprSet, fun fuel hfuel ↦ ?_, (Finset.subset_insert _ _).trans hmore, hcovering⟩
      cases fuel with
      | zero => exact absurd hless (by omega)
      | succ fuel =>
        rw [OlsrState.greedyLoop, if_neg hnil, hmax]
        exact hloop fuel (by omega)

end Coverage

/-- The neighborhood that the relays are chosen for: a symmetric neighbor that forwards. -/
def Forwards (s : OlsrState) (a : Ipv4Address) : Prop :=
  ∃ n ∈ s.m_neighborSet, n.neighborMainAddr = a ∧ n.Sym ∧ n.willingness ≠ willNever

/-- **The relays cover the two-hop neighborhood.** The computation ends; the relays are symmetric neighbors
that forward, all that are always willing among them; and each node two hops away over a neighbor that
forwards, which is not the node itself or a symmetric neighbor, is reached through a relay. -/
theorem mprComputation_covers (s : OlsrState) (mainAddress : Ipv4Address)
    (hdistinct : (s.m_neighborSet.map NeighborTuple.neighborMainAddr).Nodup) :
    ∃ s', (∀ fuel, s.m_twoHopNeighborSet.length ≤ fuel →
        s.mprComputation mainAddress fuel = some s') ∧
      (∀ a ∈ s'.m_mprSet, s.Forwards a) ∧
      (∀ n ∈ s.m_neighborSet, n.Sym → n.willingness = willAlways →
        n.neighborMainAddr ∈ s'.m_mprSet) ∧
      ∀ t ∈ s.m_twoHopNeighborSet, s.Forwards t.neighborMainAddr →
        t.twoHopNeighborAddr ≠ mainAddress →
        (∀ n ∈ s.m_neighborSet, n.Sym → n.neighborMainAddr ≠ t.twoHopNeighborAddr) →
        ∃ u ∈ s.m_twoHopNeighborSet, u.twoHopNeighborAddr = t.twoHopNeighborAddr ∧
          u.neighborMainAddr ∈ s'.m_mprSet := by
  have hN : (s.neighborsN.map NeighborTuple.neighborMainAddr).Nodup :=
    hdistinct.sublist (List.filter_sublist.map _)
  have hall : ∀ t ∈ s.neighborsN2 mainAddress s.neighborsN, ∃ n ∈ s.neighborsN,
      n.neighborMainAddr = t.neighborMainAddr ∧ n.willingness ≠ willNever :=
    fun t ht ↦ exists_of_reachable (mem_neighborsN2.mp ht).2.2.1
  have hinit : Covering s.neighborsN (s.neighborsN2 mainAddress s.neighborsN)
      ⟨∅, s.neighborsN2 mainAddress s.neighborsN⟩ :=
    ⟨fun a ha ↦ absurd ha (Finset.notMem_empty a), List.Sublist.refl _, fun t ht ↦ Or.inl ht⟩
  obtain ⟨hfirst, halways⟩ := hinit.chooseAlways fun n hn ↦ hn
  obtain ⟨hmore, hsecond⟩ := hfirst.chooseOnly hall
  obtain ⟨mprSet, hloop, hmore', hcovering⟩ := hsecond.greedyLoop (s := s) hN hall
  refine ⟨{ s with m_mprSet := mprSet }, fun fuel hfuel ↦ ?_, fun a ha ↦ ?_, fun n hn hsym hw ↦ ?_,
    fun t ht hforwards hself hneighbor ↦ ?_⟩
  · have hlength : (chooseOnly (chooseAlways s.neighborsN
        ⟨∅, s.neighborsN2 mainAddress s.neighborsN⟩)).N2.length ≤ fuel := by
      exact ((hsecond.left.trans List.filter_sublist).length_le).trans hfuel
    rw [mprComputation, hloop fuel hlength, Option.map_some]
  · obtain ⟨n, hn, hna, hw⟩ := hcovering.chosen a ha
    obtain ⟨hmem, hsym⟩ := mem_neighborsN.mp hn
    exact ⟨n, hmem, hna, hsym, hw⟩
  · exact hmore' (hmore (halways n (mem_neighborsN.mpr ⟨hn, hsym⟩) hw))
  · obtain ⟨n, hn, hna, hsym, hw⟩ := hforwards
    have hreach : reachable s.neighborsN t = true :=
      reachable_of_mem hN (mem_neighborsN.mpr ⟨hn, hsym⟩) hna hw
    have hmem : t ∈ s.neighborsN2 mainAddress s.neighborsN :=
      mem_neighborsN2.mpr ⟨ht, hself, hreach, fun m hm ↦
        hneighbor m (mem_neighborsN.mp hm).1 (mem_neighborsN.mp hm).2⟩
    obtain ⟨u, hu, hut, huc⟩ := (hcovering.covered t hmem).resolve_left List.not_mem_nil
    exact ⟨u, (mem_neighborsN2.mp hu).1, hut, huc⟩

/-- Four neighbors, of which one is always willing, one never, and one is the only one to reach a node. -/
theorem mprComputation_covers_four :
    let s : OlsrState := { OlsrState.empty with
      m_neighborSet := [⟨1, .STATUS_SYM, 3⟩, ⟨2, .STATUS_SYM, 7⟩, ⟨3, .STATUS_SYM, 0⟩,
        ⟨4, .STATUS_SYM, 3⟩, ⟨5, .STATUS_NOT_SYM, 6⟩]
      m_twoHopNeighborSet := [⟨1, 11, 9⟩, ⟨1, 12, 9⟩, ⟨2, 12, 9⟩, ⟨3, 13, 9⟩, ⟨4, 14, 9⟩, ⟨1, 15, 9⟩,
        ⟨4, 15, 9⟩, ⟨5, 16, 9⟩, ⟨1, 0, 9⟩] }
    (s.m_neighborSet.map NeighborTuple.neighborMainAddr).Nodup ∧
      ∃ s', (∀ fuel, s.m_twoHopNeighborSet.length ≤ fuel → s.mprComputation 0 fuel = some s') ∧
        (∀ a ∈ s'.m_mprSet, s.Forwards a) ∧
        (∀ n ∈ s.m_neighborSet, n.Sym → n.willingness = willAlways →
          n.neighborMainAddr ∈ s'.m_mprSet) ∧
        ∀ t ∈ s.m_twoHopNeighborSet, s.Forwards t.neighborMainAddr →
          t.twoHopNeighborAddr ≠ 0 →
          (∀ n ∈ s.m_neighborSet, n.Sym → n.neighborMainAddr ≠ t.twoHopNeighborAddr) →
          ∃ u ∈ s.m_twoHopNeighborSet, u.twoHopNeighborAddr = t.twoHopNeighborAddr ∧
            u.neighborMainAddr ∈ s'.m_mprSet :=
  ⟨by decide, mprComputation_covers _ 0 (by decide)⟩

end OlsrState

end Olsr

end Ns3
