import Ns3.Internet.Ipv4L3Protocol

/-!
# The timeouts of fragments

All keys share the list of timeouts and the events of `HandleTimeout`. A datagram that is complete
leaves the list without an event being cancelled, so an event may come before there is anything to do
and then arms itself again. `Timed` says how the list, the map and the events belong together. It
holds in all runs, and with it no datagram is dropped before its time, none waits beyond it, and no
timeout is handled for a key without fragments.
-/

namespace Ns3

namespace Ipv4L3Protocol

variable {s s' : Ipv4L3Protocol} {k : FragmentKey} {t : Timeout} {l : List Timeout}
  {first first' : FragmentKey → Option ℕ}

/-! ## When the first fragment arrived -/

/-- A state, and for each datagram that waits, when its first fragment has been received. -/
structure Watched where
  state : Ipv4L3Protocol
  first : FragmentKey → Option ℕ

/-- A datagram that waits after a step has either waited before, or has come with the step. -/
def watch (first : FragmentKey → Option ℕ) (s s' : Ipv4L3Protocol) (k : FragmentKey) : Option ℕ :=
  if (s'.m_fragments k).isSome then
    if (s.m_fragments k).isSome then first k else some s.now
  else none

/-- The runs of `machine`, watched. -/
def watched (m_fragmentExpirationTimeout : ℕ) : Machine Watched Op where
  init := ⟨(machine m_fragmentExpirationTimeout).init, fun _ ↦ none⟩
  next w op := (w.state.next op).map fun s ↦ ⟨s, watch w.first w.state s⟩

/-! ## The invariant -/

/-- The list of timeouts has an entry for each datagram that waits, in the order of their expiry, and
an event is due no later than the first of them. -/
structure Timed (s : Ipv4L3Protocol) (first : FragmentKey → Option ℕ) : Prop where
  sorted : s.m_timeoutEventList.Pairwise fun t t' ↦ t.time ≤ t'.time
  keys : (s.m_timeoutEventList.map Timeout.key).Nodup
  iter_lt : ∀ t ∈ s.m_timeoutEventList, t.iter < s.nextIter
  iters : (s.m_timeoutEventList.map Timeout.iter).Nodup
  waits : ∀ t ∈ s.m_timeoutEventList, ∃ fragments, s.m_fragments t.key = some fragments ∧
    fragments.m_timeoutIter = t.iter ∧ fragments.m_fragments ≠ []
  listed : ∀ k, (s.m_fragments k).isSome → ∃ t ∈ s.m_timeoutEventList, t.key = k
  first : ∀ t ∈ s.m_timeoutEventList, ∃ time, first t.key = some time ∧ time ≤ s.now ∧
    t.time = time + s.m_fragmentExpirationTimeout
  events : ∀ event ∈ s.events, s.now ≤ event
  armed : ∀ t ∈ s.m_timeoutEventList, ∃ event ∈ s.events, event ≤ t.time

namespace Timed

theorem now_le (h : Timed s first) (ht : t ∈ s.m_timeoutEventList) : s.now ≤ t.time := by
  obtain ⟨event, hevent, hle⟩ := h.armed t ht
  exact (h.events event hevent).trans hle

theorem isSome (h : Timed s first) (ht : t ∈ s.m_timeoutEventList) :
    (s.m_fragments t.key).isSome := by
  obtain ⟨fragments, hfragments, -⟩ := h.waits t ht
  rw [hfragments]
  rfl

theorem congr (h : Timed s first)
    (hagree : ∀ k, (s.m_fragments k).isSome → first' k = first k) : Timed s first' := by
  refine { h with first := ?_ }
  intro t ht
  rw [hagree t.key (h.isSome ht)]
  exact h.first t ht

theorem exists_entry (h : Timed s first) {fragments : Fragments}
    (hk : s.m_fragments k = some fragments) :
    ∃ t ∈ s.m_timeoutEventList, t.key = k ∧ t.iter = fragments.m_timeoutIter := by
  obtain ⟨t, ht, rfl⟩ := h.listed k (by rw [hk]; rfl)
  obtain ⟨fragments', hfragments', hiter, -⟩ := h.waits t ht
  rw [hk, Option.some_inj] at hfragments'
  exact ⟨t, ht, rfl, by rw [hfragments', hiter]⟩

/-! ## Time -/

theorem wait (h : Timed s first) {time : ℕ} (hnow : s.now ≤ time)
    (hevents : ∀ event ∈ s.events, time ≤ event) : Timed { s with now := time } first := by
  refine ⟨h.sorted, h.keys, h.iter_lt, h.iters, h.waits, h.listed, ?_, hevents, h.armed⟩
  intro t ht
  obtain ⟨arrived, hfirst, hle, htime⟩ := h.first t ht
  exact ⟨arrived, hfirst, hle.trans hnow, htime⟩

/-! ## Fragments -/

theorem setTimeout (h : Timed s first) {fragments : Fragments} (ipHeader : Ipv4Header) (iif : ℕ)
    (hk : s.m_fragments k = none) (hiter : fragments.m_timeoutIter = s.nextIter)
    (hne : fragments.m_fragments ≠ []) :
    Timed { s.setTimeout k ipHeader iif with
      m_fragments := Function.update s.m_fragments k (some fragments) }
      (Function.update first k (some s.now)) := by
  have hother : ∀ t ∈ s.m_timeoutEventList, t.key ≠ k := by
    intro t ht hkey
    have hsome := h.isSome ht
    rw [hkey, hk] at hsome
    exact Bool.false_ne_true hsome
  have hlate : ∀ t ∈ s.m_timeoutEventList, t.time ≤ s.now + s.m_fragmentExpirationTimeout := by
    intro t ht
    obtain ⟨arrived, -, hle, htime⟩ := h.first t ht
    rw [htime]
    exact Nat.add_le_add_right hle _
  have hevents : ∀ event ∈ s.events, event ∈ (s.setTimeout k ipHeader iif).events := by
    intro event hevent
    rw [Ipv4L3Protocol.setTimeout]
    dsimp only
    split
    · exact List.mem_cons_of_mem _ hevent
    · exact hevent
  constructor
  · refine List.pairwise_append.mpr ⟨h.sorted, List.pairwise_singleton _ _, ?_⟩
    intro t ht t' ht'
    rw [List.mem_singleton.mp ht']
    exact hlate t ht
  · rw [Ipv4L3Protocol.setTimeout, List.map_append]
    refine List.nodup_append.mpr ⟨h.keys, List.nodup_singleton _, ?_⟩
    intro key hkey key' hkey'
    obtain ⟨t, ht, rfl⟩ := List.mem_map.mp hkey
    rw [List.mem_singleton.mp hkey']
    exact hother t ht
  · intro t ht
    rcases List.mem_append.mp ht with ht | ht
    · exact (h.iter_lt t ht).trans (Nat.lt_succ_self _)
    · rw [List.mem_singleton.mp ht]
      exact Nat.lt_succ_self _
  · rw [Ipv4L3Protocol.setTimeout, List.map_append]
    refine List.nodup_append.mpr ⟨h.iters, List.nodup_singleton _, ?_⟩
    intro iter hmem iter' hmem'
    obtain ⟨t, ht, rfl⟩ := List.mem_map.mp hmem
    rw [List.mem_singleton.mp hmem']
    exact (h.iter_lt t ht).ne
  · intro t ht
    rcases List.mem_append.mp ht with ht | ht
    · obtain ⟨fragments', hfragments', hrest⟩ := h.waits t ht
      refine ⟨fragments', ?_, hrest⟩
      dsimp only
      rw [Function.update_of_ne (hother t ht), hfragments']
    · rw [List.mem_singleton.mp ht]
      exact ⟨fragments, Function.update_self .., hiter, hne⟩
  · intro k' hk'
    by_cases hkey : k' = k
    · exact ⟨_, List.mem_append_right _ (List.mem_singleton_self _), hkey.symm⟩
    · dsimp only at hk'
      rw [Function.update_of_ne hkey] at hk'
      obtain ⟨t, ht, rfl⟩ := h.listed k' hk'
      exact ⟨t, List.mem_append_left _ ht, rfl⟩
  · intro t ht
    rcases List.mem_append.mp ht with ht | ht
    · rw [Function.update_of_ne (hother t ht)]
      exact h.first t ht
    · rw [List.mem_singleton.mp ht]
      exact ⟨s.now, Function.update_self .., le_rfl, rfl⟩
  · intro event hevent
    dsimp only [Ipv4L3Protocol.setTimeout] at hevent ⊢
    split at hevent
    · rcases List.mem_cons.mp hevent with rfl | hevent
      · exact Nat.le_add_right _ _
      · exact h.events event hevent
    · exact h.events event hevent
  · intro t ht
    rcases List.mem_append.mp ht with ht | ht
    · obtain ⟨event, hevent, hle⟩ := h.armed t ht
      exact ⟨event, hevents event hevent, hle⟩
    · rw [List.mem_singleton.mp ht]
      by_cases hempty : s.m_timeoutEventList = []
      · refine ⟨_, ?_, le_rfl⟩
        dsimp only [Ipv4L3Protocol.setTimeout]
        rw [if_pos hempty]
        exact List.mem_cons_self
      · obtain ⟨t', ht'⟩ := List.exists_mem_of_ne_nil _ hempty
        obtain ⟨event, hevent, hle⟩ := h.armed t' ht'
        exact ⟨event, hevents event hevent, hle.trans (hlate t' ht')⟩

theorem store (h : Timed s first) {fragments fragments' : Fragments}
    (hk : s.m_fragments k = some fragments)
    (hiter : fragments'.m_timeoutIter = fragments.m_timeoutIter)
    (hne : fragments'.m_fragments ≠ []) :
    Timed { s with m_fragments := Function.update s.m_fragments k (some fragments') } first := by
  refine ⟨h.sorted, h.keys, h.iter_lt, h.iters, ?_, ?_, h.first, h.events, h.armed⟩
  · intro t ht
    obtain ⟨stored, hstored, hstoredIter, hstoredNe⟩ := h.waits t ht
    by_cases hkey : t.key = k
    · rw [hkey, hk, Option.some_inj] at hstored
      refine ⟨fragments', by rw [hkey]; exact Function.update_self .., ?_, hne⟩
      rw [hiter, hstored, hstoredIter]
    · refine ⟨stored, ?_, hstoredIter, hstoredNe⟩
      dsimp only
      rw [Function.update_of_ne hkey, hstored]
  · intro k' hk'
    by_cases hkey : k' = k
    · rw [hkey]
      exact h.listed k (by rw [hk]; rfl)
    · dsimp only at hk'
      rw [Function.update_of_ne hkey] at hk'
      exact h.listed k' hk'

theorem erase (h : Timed s first) {fragments : Fragments} (hk : s.m_fragments k = some fragments) :
    Timed { s with
      m_timeoutEventList := s.m_timeoutEventList.filter (·.iter ≠ fragments.m_timeoutIter)
      m_fragments := Function.update s.m_fragments k none } first := by
  obtain ⟨t₀, ht₀, hkey₀, hiter₀⟩ := h.exists_entry hk
  -- an entry is kept just if it is that of another key
  have hkept : ∀ t ∈ s.m_timeoutEventList, t.iter ≠ fragments.m_timeoutIter ↔ t.key ≠ k := by
    intro t ht
    rw [← hiter₀, ← hkey₀]
    constructor
    · intro hne heq
      exact hne (congrArg _ (List.inj_on_of_nodup_map h.keys ht ht₀ heq))
    · intro hne heq
      exact hne (congrArg _ (List.inj_on_of_nodup_map h.iters ht ht₀ heq))
  have hmem : ∀ t, t ∈ s.m_timeoutEventList.filter (·.iter ≠ fragments.m_timeoutIter) ↔
      t ∈ s.m_timeoutEventList ∧ t.key ≠ k := by
    intro t
    rw [List.mem_filter, decide_eq_true_iff]
    exact and_congr_right (hkept t)
  have hsub : (s.m_timeoutEventList.filter (·.iter ≠ fragments.m_timeoutIter)).Sublist
      s.m_timeoutEventList := List.filter_sublist
  constructor
  · exact h.sorted.sublist hsub
  · exact h.keys.sublist (hsub.map _)
  · intro t ht
    exact h.iter_lt t ((hmem t).mp ht).1
  · exact h.iters.sublist (hsub.map _)
  · intro t ht
    obtain ⟨ht, hne⟩ := (hmem t).mp ht
    dsimp only
    rw [Function.update_of_ne hne]
    exact h.waits t ht
  · intro k' hk'
    by_cases hkey : k' = k
    · dsimp only at hk'
      rw [hkey, Function.update_self] at hk'
      exact absurd hk' Bool.false_ne_true
    · dsimp only at hk'
      rw [Function.update_of_ne hkey] at hk'
      obtain ⟨t, ht, rfl⟩ := h.listed k' hk'
      exact ⟨t, (hmem t).mpr ⟨ht, hkey⟩, rfl⟩
  · intro t ht
    exact h.first t ((hmem t).mp ht).1
  · exact h.events
  · intro t ht
    exact h.armed t ((hmem t).mp ht).1

end Timed

/-! ## One fragment -/

theorem addFragment_ne_nil (f : Fragments) (fragment : List UInt8) (fragmentOffset : ℕ)
    (moreFragment : Bool) : (f.addFragment fragment fragmentOffset moreFragment).m_fragments ≠ [] :=
  List.ne_nil_of_mem (Piece.mem_place.mpr (.inl rfl))

/-- The fragments of the datagram of a packet, after it has been added. -/
def stored (s : Ipv4L3Protocol) (packet : List UInt8) (ipHeader : Ipv4Header) : Fragments :=
  ((s.m_fragments ipHeader.key).getD ⟨false, [], s.nextIter⟩).addFragment packet
    ipHeader.m_fragmentOffset (!ipHeader.isLastFragment)

/-- `ProcessFragment` before `IsEntire` is asked. -/
def hold (s : Ipv4L3Protocol) (packet : List UInt8) (ipHeader : Ipv4Header) (iif : ℕ) :
    Ipv4L3Protocol :=
  { (s.findFragments ipHeader iif).1 with
    m_fragments := Function.update s.m_fragments ipHeader.key (some (s.stored packet ipHeader)) }

theorem findFragments_m_fragments (s : Ipv4L3Protocol) (ipHeader : Ipv4Header) (iif : ℕ) :
    (s.findFragments ipHeader iif).1.m_fragments = s.m_fragments := by
  rw [findFragments]
  split <;> rfl

theorem processFragment_eq (s : Ipv4L3Protocol) (packet : List UInt8) (ipHeader : Ipv4Header)
    (iif : ℕ) : s.processFragment packet ipHeader iif =
      if (s.stored packet ipHeader).isEntire then
        ({ s.hold packet ipHeader iif with
          m_timeoutEventList := (s.hold packet ipHeader iif).m_timeoutEventList.filter
            (·.iter ≠ (s.stored packet ipHeader).m_timeoutIter)
          m_fragments := Function.update (s.hold packet ipHeader iif).m_fragments ipHeader.key none },
          (s.stored packet ipHeader).getPacket)
      else (s.hold packet ipHeader iif, none) := by
  have hfragments : (s.findFragments ipHeader iif).2.addFragment packet ipHeader.m_fragmentOffset
      (!ipHeader.isLastFragment) = s.stored packet ipHeader := by
    rw [findFragments, stored]
    cases s.m_fragments ipHeader.key <;> rfl
  rw [processFragment]
  dsimp only [hold]
  rw [hfragments, findFragments_m_fragments, Function.update_idem]

theorem processFragment_m_fragments (s : Ipv4L3Protocol) (packet : List UInt8)
    (ipHeader : Ipv4Header) (iif : ℕ) :
    (s.processFragment packet ipHeader iif).1.m_fragments =
      Function.update s.m_fragments ipHeader.key
        (if (s.stored packet ipHeader).isEntire then none
          else some (s.stored packet ipHeader)) := by
  rw [processFragment_eq]
  split
  · exact Function.update_idem ..
  · rfl

namespace Timed

theorem hold (h : Timed s first) (packet : List UInt8) (ipHeader : Ipv4Header) (iif : ℕ) :
    Timed (s.hold packet ipHeader iif)
      (if (s.m_fragments ipHeader.key).isSome then first
        else Function.update first ipHeader.key (some s.now)) := by
  rw [Ipv4L3Protocol.hold, findFragments, stored]
  cases hk : s.m_fragments ipHeader.key with
  | none => exact h.setTimeout ipHeader iif hk rfl (addFragment_ne_nil _ _ _ _)
  | some fragments => exact h.store hk rfl (addFragment_ne_nil _ _ _ _)

theorem processFragment (h : Timed s first) (packet : List UInt8) (ipHeader : Ipv4Header)
    (iif : ℕ) : Timed (s.processFragment packet ipHeader iif).1
      (watch first s (s.processFragment packet ipHeader iif).1) := by
  have hheld : Timed (s.processFragment packet ipHeader iif).1
      (if (s.m_fragments ipHeader.key).isSome then first
        else Function.update first ipHeader.key (some s.now)) := by
    rw [processFragment_eq]
    split
    · exact (h.hold packet ipHeader iif).erase (Function.update_self ipHeader.key _ s.m_fragments)
    · exact h.hold packet ipHeader iif
  apply hheld.congr
  intro k hk
  rw [watch, if_pos hk]
  rw [processFragment_m_fragments] at hk
  by_cases hkey : k = ipHeader.key
  · subst hkey
    split
    · rfl
    · rw [Function.update_self]
  · rw [Function.update_of_ne hkey] at hk
    rw [if_pos hk]
    split
    · rfl
    · rw [Function.update_of_ne hkey]

end Timed

/-! ## Expiry -/

theorem handleFragmentsTimeout_eq_some {fragments : Fragments}
    (hk : s.m_fragments t.key = some fragments) (hne : fragments.m_fragments ≠ []) :
    ∃ drop : Drop, drop.time = s.now ∧ drop.key = t.key ∧ s.handleFragmentsTimeout t =
      some { s with
        m_fragments := Function.update s.m_fragments t.key none
        m_dropTrace := s.m_dropTrace ++ [drop] } := by
  obtain ⟨it, rest, hcons⟩ := List.exists_cons_of_ne_nil hne
  refine ⟨⟨s.now, t.key, t.ipHeader,
    if 0 < it.offset then [] else Fragments.appendPartial [] 0 (it :: rest), t.iif,
    decide (8 < (if 0 < it.offset then []
      else Fragments.appendPartial [] 0 (it :: rest)).length)⟩, rfl, rfl, ?_⟩
  rw [handleFragmentsTimeout, hk, Option.bind_eq_bind, Option.bind_some, Fragments.getPartialPacket,
    hcons]
  rfl

/-- The timeouts at the front of a list whose time has come. -/
def due (now : ℕ) (l : List Timeout) : List Timeout := l.takeWhile (·.time = now)

/-- The timeouts behind those. -/
def later (now : ℕ) (l : List Timeout) : List Timeout := l.dropWhile (·.time = now)

theorem due_append_later (now : ℕ) (l : List Timeout) : due now l ++ later now l = l :=
  List.takeWhile_append_dropWhile

theorem due_cons_of_eq {now : ℕ} (h : t.time = now) : due now (t :: l) = t :: due now l :=
  List.takeWhile_cons_of_pos (decide_eq_true h)

theorem later_cons_of_eq {now : ℕ} (h : t.time = now) : later now (t :: l) = later now l :=
  List.dropWhile_cons_of_pos (decide_eq_true h)

theorem due_cons_of_ne {now : ℕ} (h : t.time ≠ now) : due now (t :: l) = [] :=
  List.takeWhile_cons_of_neg (by simpa using h)

theorem later_cons_of_ne {now : ℕ} (h : t.time ≠ now) : later now (t :: l) = t :: l :=
  List.dropWhile_cons_of_neg (by simpa using h)

theorem time_of_mem_due {now : ℕ} (h : t ∈ due now l) : t.time = now := by
  simpa using List.mem_takeWhile_imp h

/-- In a sorted list without timeouts in the past, all that is not due is in the future. -/
theorem lt_time_of_mem_later {now : ℕ} (hsorted : l.Pairwise fun t t' ↦ t.time ≤ t'.time)
    (hnow : ∀ t ∈ l, now ≤ t.time) (h : t ∈ later now l) : now < t.time := by
  induction l with
  | nil => exact absurd h List.not_mem_nil
  | cons head rest ih =>
    rw [List.pairwise_cons] at hsorted
    by_cases htime : head.time = now
    · rw [later_cons_of_eq htime] at h
      exact ih hsorted.2 (fun t' ht' ↦ hnow t' (List.mem_cons_of_mem _ ht')) h
    · rw [later_cons_of_ne htime] at h
      have hhead : now < head.time := lt_of_le_of_ne (hnow head List.mem_cons_self) (Ne.symm htime)
      rcases List.mem_cons.mp h with rfl | hrest
      · exact hhead
      · exact hhead.trans_le (hsorted.1 t hrest)

/-- **The loop of `HandleTimeout`.** It drops the datagrams at the front of the list whose time has
come, and no others. -/
theorem expire_spec (l : List Timeout) : ∀ (s : Ipv4L3Protocol), (l.map Timeout.key).Nodup →
    (∀ t ∈ l, ∃ fragments, s.m_fragments t.key = some fragments ∧ fragments.m_fragments ≠ []) →
    ∃ drops : List Drop,
      drops.map (fun drop ↦ (drop.time, drop.key)) = (due s.now l).map (fun t ↦ (s.now, t.key)) ∧
      s.expire l = some { s with
        m_fragments := fun k ↦ if k ∈ (due s.now l).map Timeout.key then none else s.m_fragments k
        m_timeoutEventList := later s.now l
        m_dropTrace := s.m_dropTrace ++ drops } := by
  induction l with
  | nil =>
    intro s _ _
    exact ⟨[], rfl, by simp [expire, due, later]⟩
  | cons t rest ih =>
    intro s hkeys hwaits
    rw [List.map_cons, List.nodup_cons] at hkeys
    rw [expire]
    by_cases htime : t.time = s.now
    · obtain ⟨fragments, hk, hne⟩ := hwaits t List.mem_cons_self
      obtain ⟨drop, hdropTime, hdropKey, hhandle⟩ := handleFragmentsTimeout_eq_some hk hne
      -- the keys of the rest are others, so their fragments are still there
      have hrest : ∀ t' ∈ rest, ∃ fragments,
          Function.update s.m_fragments t.key none t'.key = some fragments ∧
            fragments.m_fragments ≠ [] := by
        intro t' ht'
        have hother : t'.key ≠ t.key := by
          intro heq
          exact hkeys.1 (heq ▸ List.mem_map_of_mem ht')
        rw [Function.update_of_ne hother]
        exact hwaits t' (List.mem_cons_of_mem _ ht')
      obtain ⟨drops, hdrops, hexpire⟩ := ih { s with
        m_fragments := Function.update s.m_fragments t.key none
        m_dropTrace := s.m_dropTrace ++ [drop] } hkeys.2 hrest
      have hfragments : (fun k ↦ if k ∈ (due s.now rest).map Timeout.key then none
          else Function.update s.m_fragments t.key none k) =
          fun k ↦ if k ∈ (due s.now (t :: rest)).map Timeout.key then none
            else s.m_fragments k := by
        funext k
        rw [due_cons_of_eq htime, List.map_cons]
        by_cases hkey : k = t.key
        · rw [hkey, Function.update_self, ite_self, if_pos List.mem_cons_self]
        · rw [Function.update_of_ne hkey]
          simp only [List.mem_cons, hkey, false_or]
      refine ⟨drop :: drops, ?_, ?_⟩
      · rw [due_cons_of_eq htime, List.map_cons, List.map_cons, hdrops, hdropTime, hdropKey]
      · rw [if_pos htime, hhandle, Option.bind_eq_bind, Option.bind_some, hexpire, ← hfragments,
          later_cons_of_eq htime, List.append_assoc, List.singleton_append]
    · refine ⟨[], ?_, ?_⟩
      · rw [due_cons_of_ne htime]
        rfl
      · rw [if_neg htime, due_cons_of_ne htime, later_cons_of_ne htime, List.append_nil]
        simp

/-- What `HandleTimeout` does when the list belongs to the datagrams that wait and none of its
timeouts is in the past. -/
theorem handleTimeout_spec (hsorted : s.m_timeoutEventList.Pairwise fun t t' ↦ t.time ≤ t'.time)
    (hkeys : (s.m_timeoutEventList.map Timeout.key).Nodup)
    (hwaits : ∀ t ∈ s.m_timeoutEventList, ∃ fragments, s.m_fragments t.key = some fragments ∧
      fragments.m_fragments ≠ [])
    (hnow : ∀ t ∈ s.m_timeoutEventList, s.now ≤ t.time) :
    ∃ drops : List Drop,
      drops.map (fun drop ↦ (drop.time, drop.key)) =
        (due s.now s.m_timeoutEventList).map (fun t ↦ (s.now, t.key)) ∧
      s.handleTimeout = some { s with
        events := ((later s.now s.m_timeoutEventList).head?.map Timeout.time).toList ++ s.events
        m_fragments := fun k ↦ if k ∈ (due s.now s.m_timeoutEventList).map Timeout.key then none
          else s.m_fragments k
        m_timeoutEventList := later s.now s.m_timeoutEventList
        m_dropTrace := s.m_dropTrace ++ drops } := by
  obtain ⟨drops, hdrops, hexpire⟩ := expire_spec s.m_timeoutEventList s hkeys hwaits
  refine ⟨drops, hdrops, ?_⟩
  rw [Ipv4L3Protocol.handleTimeout, hexpire, Option.bind_eq_bind, Option.bind_some]
  cases hlater : later s.now s.m_timeoutEventList with
  | nil => rfl
  | cons t rest =>
    have hlt : s.now < t.time :=
      lt_time_of_mem_later hsorted hnow (hlater ▸ List.mem_cons_self)
    dsimp only
    rw [if_neg hlt.not_gt]
    rfl

namespace Timed

/-- An event of `HandleTimeout` never fails, and it drops all that is due. -/
theorem handleTimeout_spec (h : Timed s first) :
    ∃ drops : List Drop,
      drops.map (fun drop ↦ (drop.time, drop.key)) =
        (due s.now s.m_timeoutEventList).map (fun t ↦ (s.now, t.key)) ∧
      Ipv4L3Protocol.handleTimeout { s with events := s.events.erase s.now } = some { s with
        events := ((later s.now s.m_timeoutEventList).head?.map Timeout.time).toList ++
          s.events.erase s.now
        m_fragments := fun k ↦ if k ∈ (due s.now s.m_timeoutEventList).map Timeout.key then none
          else s.m_fragments k
        m_timeoutEventList := later s.now s.m_timeoutEventList
        m_dropTrace := s.m_dropTrace ++ drops } := by
  apply Ipv4L3Protocol.handleTimeout_spec (s := { s with events := s.events.erase s.now })
  · exact h.sorted
  · exact h.keys
  · intro t ht
    obtain ⟨fragments, hk, -, hne⟩ := h.waits t ht
    exact ⟨fragments, hk, hne⟩
  · intro t ht
    exact h.now_le ht

theorem key_not_mem_due (h : Timed s first) (ht : t ∈ later s.now s.m_timeoutEventList) :
    t.key ∉ (due s.now s.m_timeoutEventList).map Timeout.key := by
  have hkeys := h.keys
  rw [← due_append_later s.now s.m_timeoutEventList, List.map_append] at hkeys
  intro hmem
  exact (List.nodup_append.mp hkeys).2.2 _ hmem _ (List.mem_map_of_mem ht) rfl

theorem handleTimeout (h : Timed s first)
    (hs : Ipv4L3Protocol.handleTimeout { s with events := s.events.erase s.now } = some s') :
    Timed s' first := by
  obtain ⟨drops, -, hhandle⟩ := h.handleTimeout_spec
  rw [hhandle, Option.some_inj] at hs
  subst hs
  have hsplit := due_append_later s.now s.m_timeoutEventList
  have hsub : (later s.now s.m_timeoutEventList).Sublist s.m_timeoutEventList :=
    List.dropWhile_sublist _
  have hsorted := h.sorted.sublist hsub
  constructor
  · exact hsorted
  · exact h.keys.sublist (hsub.map _)
  · intro t ht
    exact h.iter_lt t (hsub.subset ht)
  · exact h.iters.sublist (hsub.map _)
  · intro t ht
    dsimp only
    rw [if_neg (h.key_not_mem_due ht)]
    exact h.waits t (hsub.subset ht)
  · intro k hk
    dsimp only at hk
    split at hk
    · exact absurd hk Bool.false_ne_true
    · rename_i hdue
      obtain ⟨t, ht, rfl⟩ := h.listed k hk
      rw [← hsplit] at ht
      rcases List.mem_append.mp ht with ht | ht
      · exact absurd (List.mem_map_of_mem ht) hdue
      · exact ⟨t, ht, rfl⟩
  · intro t ht
    exact h.first t (hsub.subset ht)
  · intro event hevent
    rcases List.mem_append.mp hevent with hevent | hevent
    · obtain ⟨t, ht, rfl⟩ := Option.map_eq_some_iff.mp (Option.mem_toList.mp hevent)
      exact h.now_le (hsub.subset (List.mem_of_mem_head? ht))
    · exact h.events event (List.mem_of_mem_erase hevent)
  · intro t ht
    cases hlater : later s.now s.m_timeoutEventList with
    | nil => exact absurd (hlater ▸ ht) List.not_mem_nil
    | cons front rest =>
      refine ⟨front.time, ?_, ?_⟩
      · dsimp only
        exact List.mem_append_left _ List.mem_cons_self
      · rw [hlater] at hsorted
        rcases List.mem_cons.mp (hlater ▸ ht) with rfl | ht
        · exact le_rfl
        · exact (List.pairwise_cons.mp hsorted).1 t ht

end Timed

/-! ## All runs -/

theorem watch_eq (h : ∀ k, (s'.m_fragments k).isSome → (s.m_fragments k).isSome) :
    ∀ k, (s'.m_fragments k).isSome → watch first s s' k = first k := by
  intro k hk
  rw [watch, if_pos hk, if_pos (h k hk)]

theorem Timed.next (h : Timed s first) {op : Op} (hs : s.next op = some s') :
    Timed s' (watch first s s') := by
  cases op with
  | processFragment packet ipHeader iif =>
    rw [Ipv4L3Protocol.next, Option.some_inj] at hs
    subst hs
    exact h.processFragment packet ipHeader iif
  | handleTimeout =>
    rw [Ipv4L3Protocol.next, Option.ite_none_right_eq_some] at hs
    have hwaited : ∀ k, (s'.m_fragments k).isSome → (s.m_fragments k).isSome := by
      intro k hk
      obtain ⟨drops, -, hhandle⟩ := h.handleTimeout_spec
      rw [hhandle, Option.some_inj] at hs
      rw [← hs.2] at hk
      dsimp only at hk
      split at hk
      · exact absurd hk Bool.false_ne_true
      · exact hk
    exact (h.handleTimeout hs.2).congr (watch_eq hwaited)
  | wait time =>
    rw [Ipv4L3Protocol.next, Option.ite_none_right_eq_some, Option.some_inj] at hs
    obtain ⟨⟨hnow, hevents⟩, rfl⟩ := hs
    exact (h.wait hnow hevents).congr (watch_eq fun _ hk ↦ hk)

theorem processFragment_m_fragmentExpirationTimeout (s : Ipv4L3Protocol) (packet : List UInt8)
    (ipHeader : Ipv4Header) (iif : ℕ) :
    (s.processFragment packet ipHeader iif).1.m_fragmentExpirationTimeout =
      s.m_fragmentExpirationTimeout := by
  have hfind : (s.findFragments ipHeader iif).1.m_fragmentExpirationTimeout =
      s.m_fragmentExpirationTimeout := by
    rw [findFragments]
    split <;> rfl
  rw [processFragment_eq]
  split <;> exact hfind

theorem Timed.next_m_fragmentExpirationTimeout (h : Timed s first) {op : Op}
    (hs : s.next op = some s') :
    s'.m_fragmentExpirationTimeout = s.m_fragmentExpirationTimeout := by
  cases op with
  | processFragment packet ipHeader iif =>
    rw [Ipv4L3Protocol.next, Option.some_inj] at hs
    rw [← hs, processFragment_m_fragmentExpirationTimeout]
  | handleTimeout =>
    rw [Ipv4L3Protocol.next, Option.ite_none_right_eq_some] at hs
    obtain ⟨drops, -, hhandle⟩ := h.handleTimeout_spec
    rw [hhandle, Option.some_inj] at hs
    rw [← hs.2]
  | wait time =>
    rw [Ipv4L3Protocol.next, Option.ite_none_right_eq_some, Option.some_inj] at hs
    rw [← hs.2]

theorem timed_of_run {m_fragmentExpirationTimeout : ℕ} {as : List Op} {w : Watched}
    (hr : (watched m_fragmentExpirationTimeout).Run Machine.unguarded as w) :
    Timed w.state w.first ∧
      w.state.m_fragmentExpirationTimeout = m_fragmentExpirationTimeout := by
  refine hr.invariant (I := fun w ↦ Timed w.state w.first ∧
    w.state.m_fragmentExpirationTimeout = m_fragmentExpirationTimeout) ?_ ?_
  · refine ⟨⟨List.Pairwise.nil, List.nodup_nil, ?_, List.nodup_nil, ?_, ?_, ?_, ?_, ?_⟩, rfl⟩
    all_goals
      intro x hx
      first
        | exact absurd hx List.not_mem_nil
        | exact absurd hx Bool.false_ne_true
  · rintro w op w' ⟨h, htimeout⟩ - hs
    obtain ⟨s', hs', rfl⟩ := Option.map_eq_some_iff.mp hs
    exact ⟨h.next hs', (h.next_m_fragmentExpirationTimeout hs').trans htimeout⟩

/-! ## Datagrams that leave -/

/-- The step from `s` to `s'` has reported a drop of the fragments under `k`. -/
def Dropped (s s' : Ipv4L3Protocol) (k : FragmentKey) : Prop :=
  ∃ drop ∈ s'.m_dropTrace.drop s.m_dropTrace.length, drop.time = s.now ∧ drop.key = k

/-- The operation is a fragment with which the datagram of `k` is entire. -/
def Completes (s : Ipv4L3Protocol) (op : Op) (k : FragmentKey) : Prop :=
  ∃ packet ipHeader iif, op = .processFragment packet ipHeader iif ∧ ipHeader.key = k ∧
    (s.processFragment packet ipHeader iif).2.isSome

theorem not_dropped (h : s'.m_dropTrace = s.m_dropTrace) : ¬ Dropped s s' k := by
  rintro ⟨drop, hdrop, -⟩
  rw [h, List.drop_length] at hdrop
  exact List.not_mem_nil hdrop

theorem processFragment_m_dropTrace (s : Ipv4L3Protocol) (packet : List UInt8)
    (ipHeader : Ipv4Header) (iif : ℕ) :
    (s.processFragment packet ipHeader iif).1.m_dropTrace = s.m_dropTrace := by
  have hfind : (s.findFragments ipHeader iif).1.m_dropTrace = s.m_dropTrace := by
    rw [findFragments]
    split <;> rfl
  rw [processFragment_eq]
  split <;> exact hfind

theorem stored_getPacket_isSome (s : Ipv4L3Protocol) (packet : List UInt8) (ipHeader : Ipv4Header) :
    (s.stored packet ipHeader).getPacket.isSome := by
  obtain ⟨it, rest, hcons⟩ := List.exists_cons_of_ne_nil (addFragment_ne_nil
    ((s.m_fragments ipHeader.key).getD ⟨false, [], s.nextIter⟩) packet ipHeader.m_fragmentOffset
    (!ipHeader.isLastFragment))
  rw [stored, Fragments.getPacket, hcons]
  rfl

theorem completes_iff (packet : List UInt8) (ipHeader : Ipv4Header) (iif : ℕ)
    (hk : (s.m_fragments k).isSome) : Completes s (.processFragment packet ipHeader iif) k ↔
      (s.processFragment packet ipHeader iif).1.m_fragments k = none := by
  rw [processFragment_m_fragments]
  constructor
  · rintro ⟨packet, ipHeader, iif, heq, rfl, hsome⟩
    obtain ⟨rfl, rfl, rfl⟩ := Op.processFragment.inj heq
    rw [processFragment_eq] at hsome
    split at hsome
    · rename_i hentire
      rw [Function.update_self, if_pos hentire]
    · exact absurd hsome Bool.false_ne_true
  · intro hnone
    by_cases hkey : k = ipHeader.key
    · refine ⟨packet, ipHeader, iif, rfl, hkey.symm, ?_⟩
      rw [hkey, Function.update_self] at hnone
      rw [processFragment_eq]
      split at hnone
      · rename_i hentire
        rw [if_pos hentire]
        exact stored_getPacket_isSome s packet ipHeader
      · exact absurd hnone (Option.some_ne_none _)
    · rw [Function.update_of_ne hkey] at hnone
      rw [hnone] at hk
      exact absurd hk Bool.false_ne_true

namespace Timed

theorem exists_timeout (h : Timed s first) (hk : (s.m_fragments k).isSome) :
    ∃ arrived, first k = some arrived ∧ arrived ≤ s.now ∧
      s.now ≤ arrived + s.m_fragmentExpirationTimeout ∧
      ∃ t ∈ s.m_timeoutEventList, t.key = k ∧
        t.time = arrived + s.m_fragmentExpirationTimeout := by
  obtain ⟨t, ht, rfl⟩ := h.listed k hk
  obtain ⟨arrived, hfirst, hle, htime⟩ := h.first t ht
  exact ⟨arrived, hfirst, hle, htime ▸ h.now_le ht, t, ht, rfl, htime⟩

theorem mem_due_iff (h : Timed s first) {arrived : ℕ} (hk : (s.m_fragments k).isSome)
    (hfirst : first k = some arrived) : k ∈ (due s.now s.m_timeoutEventList).map Timeout.key ↔
      s.now = arrived + s.m_fragmentExpirationTimeout := by
  constructor
  · intro hmem
    obtain ⟨t, ht, rfl⟩ := List.mem_map.mp hmem
    obtain ⟨arrived', hfirst', -, htime⟩ :=
      h.first t ((List.takeWhile_sublist _).subset ht)
    rw [hfirst, Option.some_inj] at hfirst'
    rw [← time_of_mem_due ht, htime, hfirst']
  · intro hnow
    obtain ⟨arrived', hfirst', -, -, t, ht, rfl, htime⟩ := h.exists_timeout hk
    rw [hfirst, Option.some_inj] at hfirst'
    rw [← due_append_later s.now s.m_timeoutEventList] at ht
    rcases List.mem_append.mp ht with ht | ht
    · exact List.mem_map_of_mem ht
    · have hlt := lt_time_of_mem_later h.sorted (fun t ht ↦ h.now_le ht) ht
      rw [htime, ← hfirst', ← hnow] at hlt
      exact absurd hlt (lt_irrefl _)

theorem dropped_iff_mem_due (h : Timed s first)
    (hs : Ipv4L3Protocol.handleTimeout { s with events := s.events.erase s.now } = some s') :
    Dropped s s' k ↔ k ∈ (due s.now s.m_timeoutEventList).map Timeout.key := by
  obtain ⟨drops, hdrops, hhandle⟩ := h.handleTimeout_spec
  rw [hhandle, Option.some_inj] at hs
  subst hs
  have hkeys : drops.map (fun drop ↦ (drop.time, drop.key)) =
      ((due s.now s.m_timeoutEventList).map Timeout.key).map (fun k ↦ (s.now, k)) := by
    rw [hdrops, List.map_map]
    rfl
  have hmem : (s.now, k) ∈ drops.map (fun drop ↦ (drop.time, drop.key)) ↔
      k ∈ (due s.now s.m_timeoutEventList).map Timeout.key := by
    rw [hkeys, List.mem_map_of_injective (Prod.mk_right_injective s.now)]
  rw [← hmem, Dropped, List.drop_left, List.mem_map]
  simp only [Prod.mk.injEq]

theorem handleTimeout_eq_none_iff (h : Timed s first)
    (hs : Ipv4L3Protocol.handleTimeout { s with events := s.events.erase s.now } = some s')
    (hk : (s.m_fragments k).isSome) :
    s'.m_fragments k = none ↔ k ∈ (due s.now s.m_timeoutEventList).map Timeout.key := by
  obtain ⟨drops, hdrops, hhandle⟩ := h.handleTimeout_spec
  rw [hhandle, Option.some_inj] at hs
  subst hs
  dsimp only
  split
  · rename_i hdue
    exact iff_of_true rfl hdue
  · rename_i hdue
    refine iff_of_false ?_ hdue
    intro hnone
    rw [hnone] at hk
    exact Bool.false_ne_true hk

/-- **How a datagram leaves.** It is dropped by an event at the very time of its timeout, or it is
entire. -/
theorem leaves_iff (h : Timed s first) {op : Op} {arrived : ℕ} (hs : s.next op = some s')
    (hk : (s.m_fragments k).isSome) (hfirst : first k = some arrived) :
    (Dropped s s' k ↔ op = .handleTimeout ∧
      s.now = arrived + s.m_fragmentExpirationTimeout) ∧
    (s'.m_fragments k = none ↔ Dropped s s' k ∨ Completes s op k) := by
  cases op with
  | processFragment packet ipHeader iif =>
    rw [Ipv4L3Protocol.next, Option.some_inj] at hs
    subst hs
    have hdrop : ¬ Dropped s (s.processFragment packet ipHeader iif).1 k :=
      not_dropped (processFragment_m_dropTrace s packet ipHeader iif)
    refine ⟨iff_of_false hdrop fun hop ↦ Op.noConfusion hop.1, ?_⟩
    rw [or_iff_right hdrop, completes_iff packet ipHeader iif hk]
  | handleTimeout =>
    rw [Ipv4L3Protocol.next, Option.ite_none_right_eq_some] at hs
    have hcompletes : ¬ Completes s .handleTimeout k := by
      rintro ⟨packet, ipHeader, iif, hop, -⟩
      exact Op.noConfusion hop
    refine ⟨?_, ?_⟩
    · rw [h.dropped_iff_mem_due hs.2, h.mem_due_iff hk hfirst]
      exact (and_iff_right rfl).symm
    · rw [or_iff_left hcompletes, h.handleTimeout_eq_none_iff hs.2 hk, h.dropped_iff_mem_due hs.2]
  | wait time =>
    rw [Ipv4L3Protocol.next, Option.ite_none_right_eq_some, Option.some_inj] at hs
    obtain ⟨-, rfl⟩ := hs
    have hdrop : ¬ Dropped s { s with now := time } k := not_dropped rfl
    refine ⟨iff_of_false hdrop fun hop ↦ Op.noConfusion hop.1, iff_of_false ?_ ?_⟩
    · intro hnone
      dsimp only at hnone
      rw [hnone] at hk
      exact Bool.false_ne_true hk
    · rintro (hdropped | ⟨packet, ipHeader, iif, hop, -⟩)
      · exact hdrop hdropped
      · exact Op.noConfusion hop

theorem isSome_of_dropped (h : Timed s first) {op : Op} (hs : s.next op = some s')
    (hdropped : Dropped s s' k) : (s.m_fragments k).isSome := by
  cases op with
  | processFragment packet ipHeader iif =>
    rw [Ipv4L3Protocol.next, Option.some_inj] at hs
    subst hs
    exact absurd hdropped (not_dropped (processFragment_m_dropTrace s packet ipHeader iif))
  | handleTimeout =>
    rw [Ipv4L3Protocol.next, Option.ite_none_right_eq_some] at hs
    obtain ⟨t, ht, rfl⟩ := List.mem_map.mp ((h.dropped_iff_mem_due hs.2).mp hdropped)
    exact h.isSome ((List.takeWhile_sublist _).subset ht)
  | wait time =>
    rw [Ipv4L3Protocol.next, Option.ite_none_right_eq_some, Option.some_inj] at hs
    obtain ⟨-, rfl⟩ := hs
    exact absurd hdropped (not_dropped rfl)

theorem handleTimeout_isSome (h : Timed s first) (hnow : s.now ∈ s.events) :
    (s.next .handleTimeout).isSome := by
  obtain ⟨drops, -, hhandle⟩ := h.handleTimeout_spec
  rw [Ipv4L3Protocol.next, if_pos hnow, hhandle]
  rfl

theorem now_mem_events (h : Timed s first) (ht : t ∈ s.m_timeoutEventList)
    (htime : s.now = t.time) : s.now ∈ s.events := by
  obtain ⟨event, hevent, hle⟩ := h.armed t ht
  rwa [le_antisymm (h.events event hevent) (htime ▸ hle)]

end Timed

/-- **Fragment timeouts are exact.** In all runs, the list of timeouts has just the keys of the
datagrams that wait, in the order of their expiry, an event is due no later than the first of them,
and the event does not fail. A datagram waits no longer than for the timeout after its first
fragment, it is dropped just by an event at that time, and it leaves otherwise only when it is
entire. -/
theorem fragment_timeouts_exact {m_fragmentExpirationTimeout : ℕ} {as : List Op} {w : Watched}
    (hr : (watched m_fragmentExpirationTimeout).Run Machine.unguarded as w) :
    (w.state.m_timeoutEventList.map Timeout.key).Nodup ∧
    (∀ k, k ∈ w.state.m_timeoutEventList.map Timeout.key ↔ (w.state.m_fragments k).isSome) ∧
    w.state.m_timeoutEventList.Pairwise (fun t t' ↦ t.time ≤ t'.time) ∧
    (∀ t ∈ w.state.m_timeoutEventList,
      ∃ event ∈ w.state.events, w.state.now ≤ event ∧ event ≤ t.time) ∧
    (w.state.now ∈ w.state.events → (w.state.next .handleTimeout).isSome) ∧
    (∀ k, (w.state.m_fragments k).isSome → ∃ arrived, w.first k = some arrived ∧
      arrived ≤ w.state.now ∧ w.state.now ≤ arrived + m_fragmentExpirationTimeout ∧
      (w.state.now = arrived + m_fragmentExpirationTimeout → w.state.now ∈ w.state.events) ∧
      ∀ op s', w.state.next op = some s' →
        (Dropped w.state s' k ↔ op = .handleTimeout ∧
          w.state.now = arrived + m_fragmentExpirationTimeout) ∧
        (s'.m_fragments k = none ↔ Dropped w.state s' k ∨ Completes w.state op k)) ∧
    (∀ op s', w.state.next op = some s' →
      ∀ k, Dropped w.state s' k → (w.state.m_fragments k).isSome) := by
  obtain ⟨h, htimeout⟩ := timed_of_run hr
  refine ⟨h.keys, ?_, h.sorted, ?_, h.handleTimeout_isSome, ?_, ?_⟩
  · intro k
    constructor
    · intro hk
      obtain ⟨t, ht, rfl⟩ := List.mem_map.mp hk
      exact h.isSome ht
    · intro hk
      obtain ⟨t, ht, rfl⟩ := h.listed k hk
      exact List.mem_map_of_mem ht
  · intro t ht
    obtain ⟨event, hevent, hle⟩ := h.armed t ht
    exact ⟨event, hevent, h.events event hevent, hle⟩
  · intro k hk
    obtain ⟨arrived, hfirst, hle, hlimit, t, ht, -, htime⟩ := h.exists_timeout hk
    rw [htimeout] at hlimit htime
    refine ⟨arrived, hfirst, hle, hlimit, ?_, ?_⟩
    · intro hnow
      exact h.now_mem_events ht (hnow.trans htime.symm)
    · intro op s' hs
      rw [← htimeout]
      exact h.leaves_iff hs hk hfirst
  · intro op s' hs k hdropped
    exact h.isSome_of_dropped hs hdropped

/-- The header of a fragment of the datagram `m_identification`. -/
def fragmentHeader (m_identification : UInt16) (m_fragmentOffset : ℕ) (moreFragments : Bool) :
    Ipv4Header :=
  ⟨1, 2, m_identification, 17, 8, m_fragmentOffset, moreFragments⟩

/-- One datagram comes in two fragments and another one lacks its second: the event of the first
finds nothing to do at 30, and the second is dropped at 40. -/
theorem fragment_timeouts_exact_two : ∃ w, (watched 30).Run Machine.unguarded
    [.processFragment (List.replicate 8 0) (fragmentHeader 1 0 true) 0, .wait 10,
      .processFragment (List.replicate 8 0) (fragmentHeader 2 0 true) 0,
      .processFragment (List.replicate 8 0) (fragmentHeader 1 8 false) 0, .wait 30, .handleTimeout,
      .wait 40, .handleTimeout] w ∧
    w.state.m_dropTrace.map (fun drop ↦ (drop.time, drop.key)) =
      [(40, (fragmentHeader 2 0 true).key)] ∧
    (w.state.m_timeoutEventList.map Timeout.key).Nodup := by
  refine Machine.exists_run_and
    (p := fun w ↦ w.state.m_dropTrace.map (fun drop ↦ (drop.time, drop.key)) =
      [(40, (fragmentHeader 2 0 true).key)])
    (by decide +kernel) fun w hr hdrop ↦ ?_
  exact ⟨hdrop, (fragment_timeouts_exact hr).1⟩

end Ipv4L3Protocol

end Ns3
