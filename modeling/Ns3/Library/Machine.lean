import Mathlib.Data.List.Basic

/-!
# Deterministic labelled machines and their guarded runs

A machine is a start state and a partial step function on labels: whatever a run can choose — which
operation comes next, with which argument, which party moves — sits in the label, so a run is a list
of labels and its last state is determined by them. `next s a = none` says that `a` cannot be taken
in `s`; it is not a failure of the machine.

Runs are *guarded*: `Run M ok` collects the runs whose every step is taken from a state and with a
label that `ok` accepts. The trivial guard gives all runs, and a smaller guard gives the runs a
conditional result is about. Executability is kept apart: `exec` replays a list of labels, and
`run_of_exec` turns a replay into a run.
-/

/-- A start state and a partial step function. -/
structure Machine (σ α : Type*) where
  /-- The start state. -/
  init : σ
  /-- The step a label stands for, when it can be taken. -/
  next : σ → α → Option σ

namespace Machine

variable {σ α : Type*} {M : Machine σ α} {ok ok' : σ → α → Prop}

/-- `Run M ok as s`: the labels `as`, each accepted by `ok` where it is taken, lead to `s`. -/
inductive Run (M : Machine σ α) (ok : σ → α → Prop) : List α → σ → Prop
  | nil : Run M ok [] M.init
  | snoc {as : List α} {s s' : σ} {a : α} : Run M ok as s → ok s a → M.next s a = some s' →
      Run M ok (as ++ [a]) s'

/-- The guard that accepts every step. -/
abbrev unguarded : σ → α → Prop := fun _ _ ↦ True

/-- **The invariant rule.** What holds at the start and is kept by every accepted step holds at the
end of every run. -/
theorem Run.invariant {I : σ → Prop} (hinit : I M.init)
    (hstep : ∀ s a s', I s → ok s a → M.next s a = some s' → I s')
    {as : List α} {s : σ} (hr : Run M ok as s) : I s := by
  induction hr with
  | nil => exact hinit
  | snoc _ hok hs ih => exact hstep _ _ _ ih hok hs

theorem Run.mono (h : ∀ s a, ok s a → ok' s a) {as : List α} {s : σ} (hr : Run M ok as s) :
    Run M ok' as s := by
  induction hr with
  | nil => exact .nil
  | snoc _ hok hs ih => exact .snoc ih (h _ _ hok) hs

/-! ## Replaying a list of labels -/

/-- The state a list of labels leads to from `s`. -/
def execFrom (M : Machine σ α) (s : σ) : List α → Option σ
  | [] => some s
  | a :: as => (M.next s a).bind fun s' ↦ M.execFrom s' as

/-- The state a list of labels leads to from the start. -/
def exec (M : Machine σ α) (as : List α) : Option σ := M.execFrom M.init as

/-- Whether every step of a replay from `s` can be taken and is accepted. -/
def allowed (M : Machine σ α) (ok : σ → α → Prop) [∀ s a, Decidable (ok s a)] (s : σ) :
    List α → Bool
  | [] => true
  | a :: as => decide (ok s a) && ((M.next s a).elim false fun s' ↦ M.allowed ok s' as)

theorem run_of_execFrom {pre : List α} {s : σ} (hr : Run M unguarded pre s) :
    ∀ {as : List α} {s' : σ}, M.execFrom s as = some s' → Run M unguarded (pre ++ as) s' := by
  intro as
  induction as generalizing pre s with
  | nil =>
    intro s' h
    rw [execFrom, Option.some_inj] at h
    rw [List.append_nil, ← h]
    exact hr
  | cons a as ih =>
    intro s' h
    rw [execFrom, Option.bind_eq_some_iff] at h
    obtain ⟨t, ht, hrest⟩ := h
    have := ih (hr.snoc trivial ht) hrest
    rwa [List.append_assoc] at this

theorem run_of_exec {as : List α} {s : σ} (h : M.exec as = some s) : Run M unguarded as s := by
  simpa using run_of_execFrom .nil h

theorem run_of_execFrom_allowed [∀ s a, Decidable (ok s a)] {pre : List α} {s : σ}
    (hr : Run M ok pre s) : ∀ {as : List α} {s' : σ}, M.allowed ok s as = true →
      M.execFrom s as = some s' → Run M ok (pre ++ as) s' := by
  intro as
  induction as generalizing pre s with
  | nil =>
    intro s' _ h
    rw [execFrom, Option.some_inj] at h
    rw [List.append_nil, ← h]
    exact hr
  | cons a as ih =>
    intro s' hal h
    rw [execFrom, Option.bind_eq_some_iff] at h
    obtain ⟨t, ht, hrest⟩ := h
    rw [allowed, ht, Option.elim_some, Bool.and_eq_true, decide_eq_true_iff] at hal
    have := ih (hr.snoc hal.1 ht) hal.2 hrest
    rwa [List.append_assoc] at this

theorem run_of_exec_allowed [∀ s a, Decidable (ok s a)] {as : List α} {s : σ}
    (hal : M.allowed ok M.init as = true) (h : M.exec as = some s) : Run M ok as s := by
  simpa using run_of_execFrom_allowed .nil hal h

/-- A replay that ends in a state with a decidable property `p` exhibits a run to such a state. -/
theorem exists_run_of_exec {p : σ → Prop} [DecidablePred p] {as : List α}
    (h : (M.exec as).elim false (fun s ↦ decide (p s)) = true) : ∃ s, Run M unguarded as s ∧ p s := by
  cases hs : M.exec as with
  | none => simp [hs] at h
  | some s =>
    rw [hs, Option.elim_some, decide_eq_true_iff] at h
    exact ⟨s, run_of_exec hs, h⟩

/-- The guarded form of `exists_run_of_exec`. -/
theorem exists_run_of_exec_allowed [∀ s a, Decidable (ok s a)] {p : σ → Prop} [DecidablePred p]
    {as : List α} (hal : M.allowed ok M.init as = true)
    (h : (M.exec as).elim false (fun s ↦ decide (p s)) = true) : ∃ s, Run M ok as s ∧ p s := by
  cases hs : M.exec as with
  | none => simp [hs] at h
  | some s =>
    rw [hs, Option.elim_some, decide_eq_true_iff] at h
    exact ⟨s, run_of_exec_allowed hal hs, h⟩

theorem exists_run_and {p q : σ → Prop} [DecidablePred p] {as : List α}
    (h : (M.exec as).elim false (fun s ↦ decide (p s)) = true)
    (hq : ∀ s, Run M unguarded as s → p s → q s) : ∃ s, Run M unguarded as s ∧ q s :=
  (exists_run_of_exec h).imp fun s hs ↦ ⟨hs.1, hq s hs.1 hs.2⟩

/-- The guarded form of `exists_run_and`. -/
theorem exists_run_and_allowed [∀ s a, Decidable (ok s a)] {p q : σ → Prop} [DecidablePred p]
    {as : List α} (hal : M.allowed ok M.init as = true)
    (h : (M.exec as).elim false (fun s ↦ decide (p s)) = true)
    (hq : ∀ s, Run M ok as s → p s → q s) : ∃ s, Run M ok as s ∧ q s :=
  (exists_run_of_exec_allowed hal h).imp fun s hs ↦ ⟨hs.1, hq s hs.1 hs.2⟩

end Machine
