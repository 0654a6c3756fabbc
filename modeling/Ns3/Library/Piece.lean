import Mathlib

/-!
# Pieces of a sequence

A piece is a list together with the place where it belongs in some longer list. Pieces that arrive in
any order are kept sorted by their places (`place`). Whether they leave no gap can be read from the
sorted list in one scan (`Gapless`), and if they leave none, then they are joined from left to right
(`join`), each one without what is there before it.
-/

/-- A list, and where it starts. -/
structure Piece (α : Type*) where
  offset : ℕ
  data : List α
  deriving DecidableEq, Repr

namespace Piece

variable {α : Type*} {p q : Piece α} {l l' : List (Piece α)} {whole : List α} {e m n i : ℕ}

/-- Where the piece ends. -/
def stop (p : Piece α) : ℕ := p.offset + p.data.length

/-- `p` is a piece of `whole`. -/
def Of (whole : List α) (p : Piece α) : Prop :=
  p.stop ≤ whole.length ∧ p.data = (whole.drop p.offset).take p.data.length

instance [DecidableEq α] (whole : List α) : DecidablePred (Of whole) :=
  fun _ ↦ inferInstanceAs (Decidable (_ ∧ _))

/-- The piece has a part of its own at `i`. -/
def At (p : Piece α) (i : ℕ) : Prop := p.offset ≤ i ∧ i < p.stop

theorem offset_le_stop (p : Piece α) : p.offset ≤ p.stop := Nat.le_add_right _ _

/-! ## Keeping pieces sorted -/

/-- The piece behind those that start no later. -/
def place (p : Piece α) : List (Piece α) → List (Piece α)
  | [] => [p]
  | q :: l => if p.offset < q.offset then p :: q :: l else q :: place p l

/-- Pieces in the order in which they start. -/
def Sorted (l : List (Piece α)) : Prop := l.Pairwise fun p q ↦ p.offset ≤ q.offset

theorem place_perm (p : Piece α) (l : List (Piece α)) : (place p l).Perm (p :: l) := by
  induction l with
  | nil => exact List.Perm.refl _
  | cons q l ih =>
    rw [place]
    split_ifs
    · exact List.Perm.refl _
    · exact (ih.cons q).trans (List.Perm.swap p q l)

theorem mem_place : q ∈ place p l ↔ q = p ∨ q ∈ l := by
  rw [(place_perm p l).mem_iff, List.mem_cons]

theorem sorted_place (p : Piece α) (h : Sorted l) : Sorted (place p l) := by
  induction l with
  | nil => exact List.pairwise_singleton _ _
  | cons q l ih =>
    obtain ⟨hq, hl⟩ := List.pairwise_cons.mp h
    rw [place]
    split_ifs with hlt
    · refine List.pairwise_cons.mpr ⟨fun r hr ↦ ?_, h⟩
      rcases List.mem_cons.mp hr with rfl | hr
      · exact hlt.le
      · exact hlt.le.trans (hq r hr)
    · refine List.pairwise_cons.mpr ⟨fun r hr ↦ ?_, ih hl⟩
      rcases mem_place.mp hr with rfl | hr
      · exact not_lt.mp hlt
      · exact hq r hr

/-! ## The piece at the tail

Whoever keeps pieces sorted as they arrive can look at each one that is placed last. What is seen
there in the end is seen at the greatest place, and of all arrivals at that place, at the last. -/

section Tail

variable {σ ι : Type*} {offset : ι → ℕ} {good : ι → Prop}

/-- The greatest place among the arrivals belongs to a good one; of several at this place, the last
one is good. -/
def TailIs (offset : ι → ℕ) (good : ι → Prop) (arrivals : List ι) : Prop :=
  ∃ before a after, arrivals = before ++ a :: after ∧ good a ∧
    (∀ b ∈ before, offset b ≤ offset a) ∧ ∀ b ∈ after, offset b < offset a

theorem le_of_mem_split {before after : List ι} {a c : ι} (hbefore : ∀ b ∈ before, offset b ≤ offset a)
    (hafter : ∀ b ∈ after, offset b < offset a) (hc : c ∈ before ++ a :: after) :
    offset c ≤ offset a := by
  rcases List.mem_append.mp hc with hc | hc
  · exact hbefore c hc
  · rcases List.mem_cons.mp hc with rfl | hc
    · exact le_rfl
    · exact (hafter c hc).le

theorem TailIs.congr {offset' : ι → ℕ} {good' : ι → Prop} {arrivals : List ι}
    (hoffset : ∀ a ∈ arrivals, offset a = offset' a) (hgood : ∀ a ∈ arrivals, good a → good' a)
    (h : TailIs offset good arrivals) : TailIs offset' good' arrivals := by
  obtain ⟨before, a, after, rfl, hlast, hbefore, hafter⟩ := h
  have ha : a ∈ before ++ a :: after := List.mem_append_right _ List.mem_cons_self
  refine ⟨before, a, after, rfl, hgood a ha hlast, fun b hb ↦ ?_, fun b hb ↦ ?_⟩
  · rw [← hoffset a ha, ← hoffset b (List.mem_append_left _ hb)]
    exact hbefore b hb
  · rw [← hoffset a ha, ← hoffset b (List.mem_append_right _ (List.mem_cons_of_mem _ hb))]
    exact hafter b hb

theorem tailIs_concat (arrivals : List ι) (b : ι) : TailIs offset good (arrivals ++ [b]) ↔
    if ∀ c ∈ arrivals, offset c ≤ offset b then good b else TailIs offset good arrivals := by
  constructor
  · rintro ⟨before, a, after, heq, hgood, hbefore, hafter⟩
    rcases List.eq_nil_or_concat after with rfl | ⟨after, c, rfl⟩
    · obtain ⟨rfl, hb⟩ := List.append_inj' heq rfl
      obtain rfl := List.singleton_inj.mp hb
      rw [if_pos hbefore]
      exact hgood
    · rw [List.concat_eq_append, ← List.cons_append, ← List.append_assoc] at heq
      obtain ⟨rfl, hb⟩ := List.append_inj' heq rfl
      obtain rfl := List.singleton_inj.mp hb
      rw [List.concat_eq_append] at hafter
      have hlt := hafter b (List.mem_append_right _ (List.mem_singleton_self b))
      rw [if_neg fun hle ↦ hlt.not_ge (hle a (List.mem_append_right _ List.mem_cons_self))]
      exact ⟨before, a, after, rfl, hgood, hbefore,
        fun c hc ↦ hafter c (List.mem_append_left _ hc)⟩
  · intro h
    split_ifs at h with hle
    · exact ⟨arrivals, b, [], rfl, h, hle, fun c hc ↦ absurd hc List.not_mem_nil⟩
    · obtain ⟨before, a, after, rfl, hgood, hbefore, hafter⟩ := h
      refine ⟨before, a, after ++ [b], by simp, hgood, hbefore, ?_⟩
      intro d hd
      rcases List.mem_append.mp hd with hd | hd
      · exact hafter d hd
      · rw [List.mem_singleton.mp hd]
        by_contra hge
        exact hle fun c hc ↦ (le_of_mem_split hbefore hafter hc).trans (not_lt.mp hge)

/-- **The rule of the tail.** If each step places the piece of an arrival, and looks at it if it is
placed last, then the pieces are sorted, they are those that arrived, and the tail is what has been
seen. -/
theorem foldl_place (step : σ → ι → σ) (pieces : σ → List (Piece α)) (seen : σ → Bool)
    (piece : ι → Piece α) (look : ι → Bool)
    (hpieces : ∀ s a, pieces (step s a) = place (piece a) (pieces s))
    (hseen : ∀ s a, seen (step s a) =
      if ∀ q ∈ pieces s, q.offset ≤ (piece a).offset then look a else seen s)
    {s : σ} (hs : pieces s = []) (arrivals : List ι) :
    Sorted (pieces (arrivals.foldl step s)) ∧
    (pieces (arrivals.foldl step s)).Perm (arrivals.map piece) ∧
    (arrivals ≠ [] → (seen (arrivals.foldl step s) = false ↔
      TailIs (fun a ↦ (piece a).offset) (fun a ↦ look a = false) arrivals)) := by
  induction arrivals using List.reverseRecOn with
  | nil =>
    rw [List.foldl_nil, hs]
    exact ⟨List.Pairwise.nil, List.Perm.nil, fun hne ↦ absurd rfl hne⟩
  | append_singleton arrivals a ih =>
    obtain ⟨hsorted, hperm, hlook⟩ := ih
    rw [List.foldl_append, List.foldl_cons, List.foldl_nil, hpieces, hseen, List.map_append]
    refine ⟨sorted_place _ hsorted, ?_, fun _ ↦ ?_⟩
    · exact (place_perm _ _).trans ((hperm.cons _).trans (List.perm_append_singleton _ _).symm)
    · have hall : (∀ q ∈ pieces (arrivals.foldl step s), q.offset ≤ (piece a).offset) ↔
          ∀ c ∈ arrivals, (piece c).offset ≤ (piece a).offset := by
        simp only [hperm.mem_iff, List.mem_map, forall_exists_index, and_imp,
          forall_apply_eq_imp_iff₂]
      rw [tailIs_concat]
      by_cases hle : ∀ c ∈ arrivals, (piece c).offset ≤ (piece a).offset
      · rw [if_pos hle, if_pos (hall.mpr hle)]
      · rw [if_neg hle, if_neg (mt hall.mp hle)]
        apply hlook
        rintro rfl
        exact hle fun c hc ↦ absurd hc List.not_mem_nil

end Tail

/-! ## Gaps -/

/-- The scan: from `e` on, no piece starts behind the end of those before it. -/
def Gapless : ℕ → List (Piece α) → Prop
  | _, [] => True
  | e, p :: l => p.offset ≤ e ∧ Gapless (max e p.stop) l

instance : ∀ (e : ℕ) (l : List (Piece α)), Decidable (Gapless e l)
  | _, [] => .isTrue trivial
  | e, p :: l =>
    have := instDecidableGapless (max e p.stop) l
    inferInstanceAs (Decidable (_ ∧ _))

/-- **The scan finds a gap if there is one.** -/
theorem gapless_iff (hl : Sorted l) :
    Gapless e l ↔ ∀ i, e ≤ i → (∃ p ∈ l, i < p.stop) → ∃ p ∈ l, p.At i := by
  induction l generalizing e with
  | nil => exact iff_of_true trivial fun i _ ⟨p, hp, _⟩ ↦ absurd hp List.not_mem_nil
  | cons p l ih =>
    obtain ⟨hp, hl⟩ := List.pairwise_cons.mp hl
    rw [Gapless, ih hl]
    constructor
    · rintro ⟨hle, hrest⟩ i hi ⟨q, hq, hlt⟩
      by_cases hstop : i < p.stop
      · exact ⟨p, List.mem_cons_self, hle.trans hi, hstop⟩
      · have hq : q ∈ l := (List.mem_cons.mp hq).resolve_left fun heq ↦ hstop (heq ▸ hlt)
        obtain ⟨r, hr, hat⟩ := hrest i (max_le hi (not_lt.mp hstop)) ⟨q, hq, hlt⟩
        exact ⟨r, List.mem_cons_of_mem _ hr, hat⟩
    · intro h
      constructor
      · by_contra hlt
        rw [not_le] at hlt
        obtain ⟨q, hq, hat⟩ := h e le_rfl ⟨p, List.mem_cons_self, hlt.trans_le p.offset_le_stop⟩
        rcases List.mem_cons.mp hq with rfl | hq
        · exact absurd hat.1 (not_le.mpr hlt)
        · exact absurd ((hp q hq).trans hat.1) (not_le.mpr hlt)
      · rintro i hi ⟨q, hq, hlt⟩
        obtain ⟨hi, hstop⟩ := max_le_iff.mp hi
        obtain ⟨r, hr, hat⟩ := h i hi ⟨q, List.mem_cons_of_mem _ hq, hlt⟩
        rcases List.mem_cons.mp hr with rfl | hr
        · exact absurd hat.2 (not_lt.mpr hstop)
        · exact ⟨r, hr, hat⟩

/-! ## Joining -/

/-- How far the pieces reach, with `n` there before them. -/
def reach : ℕ → List (Piece α) → ℕ
  | n, [] => n
  | n, p :: l => reach (max n p.stop) l

theorem le_reach (n : ℕ) (l : List (Piece α)) : n ≤ reach n l := by
  induction l generalizing n with
  | nil => exact le_rfl
  | cons p l ih => exact (le_max_left _ _).trans (ih _)

theorem stop_le_reach (h : p ∈ l) : p.stop ≤ reach n l := by
  induction l generalizing n with
  | nil => exact absurd h List.not_mem_nil
  | cons q l ih =>
    rcases List.mem_cons.mp h with rfl | h
    · exact (le_max_right _ _).trans (le_reach _ _)
    · exact ih h

theorem reach_le (hn : n ≤ m) (h : ∀ p ∈ l, p.stop ≤ m) : reach n l ≤ m := by
  induction l generalizing n with
  | nil => exact hn
  | cons p l ih =>
    rw [List.forall_mem_cons] at h
    exact ih (max_le hn h.1) h.2

/-- The pieces one behind the other, each without its part before the end of the others. -/
def join : List α → List (Piece α) → List α
  | acc, [] => acc
  | acc, p :: l => join (acc ++ p.data.drop (acc.length - p.offset)) l

theorem Of.append (hp : p.Of whole) (hn : n ≤ whole.length) (hle : p.offset ≤ n) :
    whole.take n ++ p.data.drop (n - p.offset) = whole.take (max n p.stop) := by
  obtain ⟨hstop, hdata⟩ := hp
  rw [stop] at hstop ⊢
  by_cases hshort : p.offset + p.data.length ≤ n
  · rw [List.drop_eq_nil_of_le (by omega), List.append_nil, max_eq_left hshort]
  · rw [hdata, List.drop_take, List.drop_drop, List.length_take, List.length_drop,
      min_eq_left (by omega), max_eq_right (by omega),
      show p.offset + (n - p.offset) = n by omega,
      show p.offset + p.data.length = n + (p.data.length - (n - p.offset)) by omega, List.take_add]

/-- **Pieces without a gap are joined to a part of the whole.** -/
theorem join_eq_take (hl : ∀ p ∈ l, p.Of whole) (hn : n ≤ whole.length) (hgap : Gapless n l) :
    join (whole.take n) l = whole.take (reach n l) := by
  induction l generalizing n with
  | nil => rfl
  | cons p l ih =>
    rw [List.forall_mem_cons] at hl
    rw [join, List.length_take, min_eq_left hn, hl.1.append hn hgap.1, reach]
    exact ih hl.2 (max_le hn hl.1.1) hgap.2

/-! ## The covered start -/

/-- How far the pieces cover the positions from the start on, with the first `n` covered. -/
def covered : ℕ → List (Piece α) → ℕ
  | n, [] => n
  | n, p :: l => if p.offset ≤ n then covered (max n p.stop) l else covered n l

theorem le_covered (n : ℕ) (l : List (Piece α)) : n ≤ covered n l := by
  induction l generalizing n with
  | nil => exact le_rfl
  | cons p l ih =>
    rw [covered]
    split_ifs
    · exact (le_max_left _ _).trans (ih _)
    · exact ih n

/-- Pieces that all start behind `n` cover nothing. -/
theorem covered_of_lt (h : ∀ p ∈ l, n < p.offset) : covered n l = n := by
  induction l with
  | nil => rfl
  | cons p l ih =>
    rw [List.forall_mem_cons] at h
    rw [covered, if_neg (not_le.mpr h.1)]
    exact ih h.2

theorem exists_at_of_lt_covered (hle : n ≤ i) (hlt : i < covered n l) : ∃ p ∈ l, p.At i := by
  induction l generalizing n with
  | nil => exact absurd hlt (not_lt.mpr hle)
  | cons p l ih =>
    have hrest : ∀ {k}, k ≤ i → i < covered k l → ∃ q ∈ p :: l, q.At i := by
      intro k hk hcovered
      obtain ⟨q, hq, hat⟩ := ih hk hcovered
      exact ⟨q, List.mem_cons_of_mem _ hq, hat⟩
    rw [covered] at hlt
    split_ifs at hlt with hstart
    · by_cases hstop : i < p.stop
      · exact ⟨p, List.mem_cons_self, hstart.trans hle, hstop⟩
      · exact hrest (max_le hle (not_lt.mp hstop)) hlt
    · exact hrest hle hlt

/-- **The covered start is as long as possible**: no piece has the position behind it. -/
theorem not_at_covered (hl : Sorted l) (hp : p ∈ l) : ¬ p.At (covered n l) := by
  induction l generalizing n with
  | nil => exact absurd hp List.not_mem_nil
  | cons q l ih =>
    obtain ⟨hq, hl⟩ := List.pairwise_cons.mp hl
    rw [covered]
    split_ifs with hstart
    · rcases List.mem_cons.mp hp with rfl | hp
      · intro hat
        exact absurd hat.2 (not_lt.mpr ((le_max_right _ _).trans (le_covered _ _)))
      · exact ih hl hp
    · -- all pieces start behind `n`
      have hbehind : ∀ r ∈ l, n < r.offset := fun r hr ↦ (not_le.mp hstart).trans_le (hq r hr)
      rw [covered_of_lt hbehind]
      intro hat
      rcases List.mem_cons.mp hp with rfl | hp
      · exact hstart hat.1
      · exact absurd hat.1 (not_le.mpr (hbehind p hp))

/-- No piece that continues the covered start ends before it. -/
def NoneInside : ℕ → List (Piece α) → Prop
  | _, [] => True
  | n, p :: l => (p.offset < n → n ≤ p.stop) ∧
      NoneInside (if p.offset ≤ n then max n p.stop else n) l

/-- **No piece ends inside** just if, among the pieces of the covered start, none ends before one that
is in front of it. -/
theorem noneInside_iff (hl : Sorted l) : NoneInside n l ↔
    (∀ p ∈ l, p.offset < n → n ≤ p.stop) ∧
      l.Pairwise fun p q ↦ p.stop ≤ covered n l → p.stop ≤ q.stop := by
  induction l generalizing n with
  | nil => exact iff_of_true trivial ⟨fun p hp ↦ absurd hp List.not_mem_nil, List.Pairwise.nil⟩
  | cons p l ih =>
    obtain ⟨hp, hl⟩ := List.pairwise_cons.mp hl
    rw [NoneInside, ih hl, List.forall_mem_cons, List.pairwise_cons, covered]
    by_cases hstart : p.offset ≤ n
    · rw [if_pos hstart, if_pos hstart]
      have hcovered : p.stop ≤ covered (max n p.stop) l := (le_max_right _ _).trans (le_covered _ _)
      constructor
      · rintro ⟨hfirst, hinside, hpair⟩
        refine ⟨⟨hfirst, fun q hq hlt ↦ ?_⟩, fun q hq _ ↦ ?_, hpair⟩
        · exact (le_max_left _ _).trans (hinside q hq (lt_max_of_lt_left hlt))
        · by_cases hlt : q.offset < max n p.stop
          · exact (le_max_right _ _).trans (hinside q hq hlt)
          · exact ((le_max_right _ _).trans (not_lt.mp hlt)).trans q.offset_le_stop
      · rintro ⟨⟨hfirst, hinside⟩, hstop, hpair⟩
        refine ⟨hfirst, fun q hq hlt ↦ max_le ?_ (hstop q hq hcovered), hpair⟩
        by_cases hn : q.offset < n
        · exact hinside q hq hn
        · exact (not_lt.mp hn).trans q.offset_le_stop
    · rw [if_neg hstart, if_neg hstart]
      have hbehind : ∀ q ∈ l, n < q.offset := fun q hq ↦ (not_le.mp hstart).trans_le (hp q hq)
      have hfar : ¬ p.stop ≤ covered n l := by
        rw [covered_of_lt hbehind, not_le]
        exact (not_le.mp hstart).trans_le p.offset_le_stop
      constructor
      · rintro ⟨hfirst, hinside, hpair⟩
        exact ⟨⟨hfirst, hinside⟩, fun q _ hle ↦ absurd hle hfar, hpair⟩
      · rintro ⟨hinside, -, hpair⟩
        exact ⟨hinside.1, hinside.2, hpair⟩

/-! ## Pieces of pieces -/

/-- A piece of a piece of `whole`, moved to where that starts, is a piece of `whole`. -/
theorem Of.trans (hp : p.Of whole) (hq : q.Of p.data) :
    (⟨p.offset + q.offset, q.data⟩ : Piece α).Of whole := by
  obtain ⟨hstop, hdata⟩ := hp
  obtain ⟨hstop', hdata'⟩ := hq
  rw [stop] at hstop hstop'
  refine ⟨?_, ?_⟩
  · rw [stop]
    dsimp only
    omega
  · dsimp only
    conv_lhs => rw [hdata', hdata]
    rw [List.drop_take, List.drop_drop, List.take_take, min_eq_left (by omega)]

theorem of_slice (h : n + m ≤ whole.length) : (⟨n, (whole.drop n).take m⟩ : Piece α).Of whole := by
  have hlen : ((whole.drop n).take m).length = m := by
    rw [List.length_take, List.length_drop]
    omega
  refine ⟨?_, ?_⟩
  · rw [stop, hlen]
    exact h
  · rw [hlen]

/-! ## Pieces that follow each other -/

/-- Each piece starts where the one before it ends. -/
def Consecutive : ℕ → List (Piece α) → Prop
  | _, [] => True
  | e, p :: l => p.offset = e ∧ Consecutive p.stop l

instance : ∀ (e : ℕ) (l : List (Piece α)), Decidable (Consecutive e l)
  | _, [] => .isTrue trivial
  | _, p :: l =>
    have := instDecidableConsecutive p.stop l
    inferInstanceAs (Decidable (_ ∧ _))

theorem Consecutive.le_offset (h : Consecutive e l) : ∀ p ∈ l, e ≤ p.offset := by
  induction l generalizing e with
  | nil => exact fun p hp ↦ absurd hp List.not_mem_nil
  | cons q l ih =>
    rw [List.forall_mem_cons]
    obtain ⟨rfl, hrest⟩ := h
    exact ⟨le_rfl, fun p hp ↦ q.offset_le_stop.trans (ih hrest p hp)⟩

theorem Consecutive.pairwise_stop_le (h : Consecutive e l) :
    l.Pairwise fun p q ↦ p.stop ≤ q.offset := by
  induction l generalizing e with
  | nil => exact List.Pairwise.nil
  | cons p l ih => exact List.pairwise_cons.mpr ⟨h.2.le_offset, ih h.2⟩

theorem Consecutive.pairwise_lt (h : Consecutive e l) (hne : ∀ p ∈ l, p.data ≠ []) :
    l.Pairwise fun p q ↦ p.offset < q.offset := by
  refine h.pairwise_stop_le.imp_of_mem ?_
  intro p q hp _ hle
  exact (Nat.lt_add_of_pos_right (List.length_pos_of_ne_nil (hne p hp))).trans_le hle

theorem Consecutive.stop_le_or (h : Consecutive e l) (hp : p ∈ l) (hq : q ∈ l) (hpq : p ≠ q) :
    p.stop ≤ q.offset ∨ q.stop ≤ p.offset := by
  have hsymm : Std.Symm fun p q : Piece α ↦ p.stop ≤ q.offset ∨ q.stop ≤ p.offset :=
    ⟨fun _ _ ↦ Or.symm⟩
  have hpair : l.Pairwise fun p q ↦ p.stop ≤ q.offset ∨ q.stop ≤ p.offset :=
    h.pairwise_stop_le.imp Or.inl
  exact hpair.forall hp hq hpq

theorem Consecutive.offset_lt_of_stop_eq (h : Consecutive e l) (hne : ∀ p ∈ l, p.data ≠ [])
    (hq : q ∈ l) (hlast : ∀ p ∈ l, p.stop ≤ q.stop) (hp : p ∈ l) (hpq : p ≠ q) :
    p.offset < q.offset := by
  have hpos := List.length_pos_of_ne_nil (hne p hp)
  have hle := hlast p hp
  have hor := h.stop_le_or hp hq hpq
  rw [stop] at hle hor
  omega

/-- If all pieces start at multiples of a number, all but the last have such a length. -/
theorem Consecutive.length_mod (h : Consecutive e l) (haligned : ∀ p ∈ l, p.offset % m = 0) :
    ∀ p ∈ l.dropLast, p.data.length % m = 0 := by
  induction l generalizing e with
  | nil => exact fun p hp ↦ absurd hp List.not_mem_nil
  | cons q l ih =>
    rw [List.forall_mem_cons] at haligned
    cases l with
    | nil => exact fun p hp ↦ absurd hp List.not_mem_nil
    | cons r l =>
      rw [List.dropLast_cons_of_ne_nil (List.cons_ne_nil r l), List.forall_mem_cons]
      refine ⟨?_, ih h.2 haligned.2⟩
      have hstop : r.offset = q.stop := h.2.1
      have hr := haligned.2 r List.mem_cons_self
      rw [hstop, stop, Nat.add_mod, haligned.1, Nat.zero_add, Nat.mod_mod] at hr
      exact hr

theorem Consecutive.flatMap (h : Consecutive e l) (hl : ∀ p ∈ l, p.Of whole) (hlen : e ≤ whole.length) :
    whole.take e ++ l.flatMap data = whole.take (reach e l) := by
  induction l generalizing e with
  | nil => exact List.append_nil _
  | cons p l ih =>
    obtain ⟨rfl, hrest⟩ := h
    rw [List.forall_mem_cons] at hl
    have happ := hl.1.append hlen le_rfl
    rw [Nat.sub_self, List.drop_zero, max_eq_right p.offset_le_stop] at happ
    rw [List.flatMap_cons, ← List.append_assoc, happ, ih hrest hl.2 hl.1.1, reach,
      max_eq_right p.offset_le_stop]

end Piece
