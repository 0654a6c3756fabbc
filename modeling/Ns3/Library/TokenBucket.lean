import Mathlib

/-!
# Token buckets

A bucket holds at most `cap` tokens. It is refilled when something is taken from it, with the tokens of the
time since it was last taken from, rounded to a whole number. Each departure takes at least as many tokens
as it is large, and there must be so many.

What departs in an interval comes out of a full bucket and of the refills inside the interval, and every
refill rounds up by half a token at most. The first departure in the interval finds at most `cap` tokens,
so the refill before it does not count.
-/

namespace Ns3

namespace TokenBucket

variable {cap level level' c t : ℕ} {rate : ℚ}

/-- The tokens a time after the bucket had `level` of them. -/
def refill (cap level : ℕ) (rate : ℚ) (elapsed : ℕ) : ℤ := min cap (level + round (elapsed * rate))

theorem refill_le_cap (cap level : ℕ) (rate : ℚ) (elapsed : ℕ) : refill cap level rate elapsed ≤ cap :=
  min_le_left _ _

theorem refill_le_add (cap level : ℕ) (rate : ℚ) (elapsed : ℕ) :
    (refill cap level rate elapsed : ℚ) ≤ level + elapsed * rate + 1 / 2 := by
  have hround : (round (elapsed * rate) : ℚ) ≤ elapsed * rate + 1 / 2 := round_le_add_half _
  have hmin : refill cap level rate elapsed ≤ level + round (elapsed * rate) := min_le_right _ _
  have hcast : (refill cap level rate elapsed : ℚ) ≤ level + round (elapsed * rate) := by
    exact_mod_cast hmin
  linarith

theorem refill_nonneg (cap level : ℕ) (hrate : 0 ≤ rate) (elapsed : ℕ) :
    0 ≤ refill cap level rate elapsed := by
  have hround : 0 ≤ round ((elapsed : ℚ) * rate) := by
    rw [round_eq]
    exact Int.floor_nonneg.mpr (by positivity)
  exact le_min (Int.natCast_nonneg cap) (by positivity)

/-! ## Departures -/

/-- The departures, each with its time and its size, that leave `level` tokens at the last of them. -/
inductive Served (cap : ℕ) (rate : ℚ) : List (ℕ × ℕ) → ℕ → ℕ → Prop
  | full : Served cap rate [] 0 cap
  | serve {log : List (ℕ × ℕ)} {c t level level' size : ℕ} : Served cap rate log c level → c ≤ t →
      (level' + size : ℤ) ≤ refill cap level rate (t - c) →
      Served cap rate (log ++ [(t, size)]) t level'

/-- The departures from time `a` on. -/
def since (log : List (ℕ × ℕ)) (a : ℕ) : List (ℕ × ℕ) := log.filter fun d ↦ a ≤ d.1

/-- The departures from time `a` to time `b`. -/
def between (log : List (ℕ × ℕ)) (a b : ℕ) : List (ℕ × ℕ) := log.filter fun d ↦ a ≤ d.1 ∧ d.1 ≤ b

/-- What departs altogether. -/
def total (log : List (ℕ × ℕ)) : ℕ := (log.map Prod.snd).sum

theorem total_append_singleton (log : List (ℕ × ℕ)) (d : ℕ × ℕ) : total (log ++ [d]) = total log + d.2 := by
  rw [total, List.map_append, List.sum_append, List.map_singleton, List.sum_singleton, total]

theorem Served.level_le {log : List (ℕ × ℕ)} (h : Served cap rate log c level) : level ≤ cap := by
  induction h with
  | full => exact le_rfl
  | @serve _ c t level level' size _ _ hlevel _ =>
    have hcap := refill_le_cap cap level rate (t - c)
    omega

theorem Served.time_le {log : List (ℕ × ℕ)} (h : Served cap rate log c level) :
    ∀ d ∈ log, d.1 ≤ c := by
  induction h with
  | full => exact fun _ hd ↦ absurd hd List.not_mem_nil
  | serve _ hle _ ih =>
    intro d hd
    rcases List.mem_append.mp hd with hd | hd
    · exact (ih d hd).trans hle
    · rw [List.mem_singleton.mp hd]

theorem since_append_of_le {log : List (ℕ × ℕ)} {a : ℕ} (h : a ≤ t) (size : ℕ) :
    since (log ++ [(t, size)]) a = since log a ++ [(t, size)] := by
  rw [since, List.filter_append, since]
  simp [h]

/-- What departs from a time on comes out of a full bucket and of the refills after the first departure. -/
theorem Served.total_since_add_le (hrate : 0 ≤ rate) {log : List (ℕ × ℕ)}
    (h : Served cap rate log c level) (a : ℕ) (hne : since log a ≠ []) :
    (total (since log a) + level : ℚ) ≤ cap + (c - a) * rate + (since log a).length / 2 := by
  induction h with
  | full => exact absurd rfl hne
  | @serve log c t level level' size hserved hle hlevel ih =>
    have hcast : (level' + size : ℚ) ≤ (refill cap level rate (t - c) : ℤ) := by
      exact_mod_cast hlevel
    rcases lt_or_ge t a with hlt | hge
    · -- No departure is from `a` on.
      refine absurd (List.filter_eq_nil_iff.mpr ?_) hne
      intro d hd
      have hd := (hserved.serve hle hlevel).time_le d hd
      simp only [decide_eq_true_eq, not_le]
      omega
    rw [since_append_of_le hge, total_append_singleton, List.length_append, List.length_singleton]
    push_cast
    have hta : (a : ℚ) ≤ t := by exact_mod_cast hge
    rcases eq_or_ne (since log a) [] with hnil | hcons
    · have hcap : ((refill cap level rate (t - c) : ℤ) : ℚ) ≤ cap := by
        exact_mod_cast refill_le_cap cap level rate (t - c)
      have hpos : 0 ≤ ((t : ℚ) - a) * rate := mul_nonneg (by linarith) hrate
      rw [hnil, total, List.map_nil, List.sum_nil, List.length_nil]
      push_cast
      linarith
    · have hadd := refill_le_add cap level rate (t - c)
      have hih := ih hcons
      have helapsed : ((t - c : ℕ) : ℚ) = t - c := Nat.cast_sub hle
      rw [helapsed] at hadd
      linarith [hadd, hih, hcast]

theorem between_append_of_lt {log : List (ℕ × ℕ)} {a b : ℕ} (h : b < t) (size : ℕ) :
    between (log ++ [(t, size)]) a b = between log a b := by
  rw [between, List.filter_append, between]
  simp [h]

theorem between_eq_since {log : List (ℕ × ℕ)} {b : ℕ} (h : ∀ d ∈ log, d.1 ≤ b) (a : ℕ) :
    between log a b = since log a := by
  refine List.filter_congr fun d hd ↦ ?_
  simp [h d hd]

/-- **The envelope of a bucket.** In an interval no more departs than the bucket holds, the rate brings in
the length of the interval, and half a token for each departure. -/
theorem Served.total_between_le (hrate : 0 ≤ rate) {log : List (ℕ × ℕ)}
    (h : Served cap rate log c level) (a D : ℕ) :
    (total (between log a (a + D)) : ℚ) ≤ cap + D * rate + (between log a (a + D)).length / 2 := by
  induction h with
  | full =>
    rw [between, List.filter_nil, total, List.map_nil, List.sum_nil, List.length_nil]
    push_cast
    positivity
  | @serve log c t level level' size hserved hle hlevel ih =>
    rcases lt_or_ge (a + D) t with hlt | hge
    · rw [between_append_of_lt hlt]
      exact ih
    have hserve := hserved.serve hle hlevel
    rw [between_eq_since fun d hd ↦ (hserve.time_le d hd).trans hge]
    rcases eq_or_ne (since (log ++ [(t, size)]) a) [] with hnil | hcons
    · rw [hnil, total, List.map_nil, List.sum_nil, List.length_nil]
      push_cast
      positivity
    · have hsince := hserve.total_since_add_le hrate a hcons
      have hta : (t : ℚ) - a ≤ D := by
        have : (t : ℚ) ≤ (a + D : ℕ) := by exact_mod_cast hge
        push_cast at this
        linarith
      have hmul : ((t : ℚ) - a) * rate ≤ D * rate := mul_le_mul_of_nonneg_right hta hrate
      have hpos : (0 : ℚ) ≤ level' := Nat.cast_nonneg _
      linarith

end TokenBucket

end Ns3
