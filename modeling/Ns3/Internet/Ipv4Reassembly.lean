import Ns3.Internet.Ipv4FragmentTimeouts

/-!
# Reassembly of IPv4

`DoFragmentation` may be applied along the path to a fragment again. `Split` collects all packets that
come from one datagram in that way: each is a piece of the payload, and its header says whether it
ends with the payload. `ProcessFragment` never makes another payload of them. But whether there are
more fragments to come is read from the fragment with the greatest offset that came last, and a
datagram of which all bytes are there is not entire when that one is not a last fragment.
-/

namespace Ns3

namespace Ipv4L3Protocol

variable {s s' : Ipv4L3Protocol} {k : FragmentKey} {payload p : List UInt8} {header h : Ipv4Header}

/-! ## Splitting a datagram -/

/-- A packet that arrives. -/
abbrev Arrival := List UInt8 × Ipv4Header

/-- Where the payload of a fragment belongs. -/
def piece (a : Arrival) : Piece UInt8 := ⟨a.2.m_fragmentOffset, a.1⟩

/-- The packets that come from a datagram by any number of calls of `DoFragmentation`. -/
inductive Split (payload : List UInt8) (header : Ipv4Header) : Arrival → Prop
  | datagram : Split payload header (payload, header)
  | fragment {packet : List UInt8} {ipv4Header : Ipv4Header} {outIfaceMtu : ℕ}
      {listFragments : List Arrival} {a : Arrival} : Split payload header (packet, ipv4Header) →
      68 ≤ outIfaceMtu → outIfaceMtu < 2 ^ 32 →
      doFragmentation packet ipv4Header outIfaceMtu = some listFragments → a ∈ listFragments →
      Split payload header a

/-- What is true of a packet that comes from a datagram. -/
structure IsFragment (payload : List UInt8) (header : Ipv4Header) (a : Arrival) : Prop where
  of : (piece a).Of payload
  last : a.2.isLastFragment = true ↔ (piece a).stop = payload.length
  key : a.2.key = header.key

theorem fragmentSize_pos {outIfaceMtu : ℕ} (h : 68 ≤ outIfaceMtu) (hlt : outIfaceMtu < 2 ^ 32) :
    0 < fragmentSize outIfaceMtu ∧ fragmentSize outIfaceMtu < 2 ^ 32 := by
  rw [fragmentSize, Ipv4Header.serializedSize, sub32]
  omega

theorem fragmentAt_eq_some {size offset : ℕ} {a : Arrival} (hsize : offset + size < 2 ^ 32)
    (hoffset : offset ≤ p.length) (hend : h.m_fragmentOffset + p.length < 2 ^ 16)
    (ha : fragmentAt p h size offset = some a) :
    ∃ n, n = (if offset + size < p.length then size else p.length - offset) ∧
      piece a = ⟨h.m_fragmentOffset + offset, (p.drop offset).take n⟩ ∧ a.2.key = h.key ∧
      (a.2.isLastFragment = true ↔ offset + n = p.length ∧ h.isLastFragment = true) := by
  have hadd : add32 offset size = offset + size := Nat.mod_eq_of_lt hsize
  have hwrap : (offset + h.m_fragmentOffset) % 2 ^ 16 = h.m_fragmentOffset + offset := by
    rw [Nat.mod_eq_of_lt (by omega), Nat.add_comm]
  rw [fragmentAt, hadd, hwrap, Option.bind_eq_bind, Option.bind_eq_some_iff] at ha
  obtain ⟨fragmentHeader, hset, ha⟩ := ha
  rw [Ipv4Header.setFragmentOffset, Option.ite_none_right_eq_some, Option.some_inj] at hset
  obtain ⟨-, rfl⟩ := hset
  obtain rfl := Option.some.inj ha
  refine ⟨_, rfl, ?_, rfl, ?_⟩
  · simp only [piece, decide_eq_true_iff]
  · dsimp only [Ipv4Header.isLastFragment]
    by_cases hmore : offset + size < p.length
    · rw [decide_eq_true hmore, if_pos hmore]
      simp only [Bool.true_or, Bool.not_true, Bool.false_eq_true, false_iff]
      exact fun hboth ↦ hmore.ne hboth.1
    · rw [decide_eq_false hmore, if_neg hmore]
      simp only [Bool.false_or, Bool.not_not, Nat.add_sub_cancel' hoffset, true_and]

theorem IsFragment.fragmentAt {size offset : ℕ} {a : Arrival} (hp : IsFragment payload header (p, h))
    (hsize : offset + size < 2 ^ 32) (hoffset : offset ≤ p.length)
    (hpayload : payload.length < 2 ^ 16)
    (ha : Ipv4L3Protocol.fragmentAt p h size offset = some a) : IsFragment payload header a := by
  have hstop : h.m_fragmentOffset + p.length ≤ payload.length := hp.of.1
  obtain ⟨n, hsplit, hpiece, hkey, hlast⟩ :=
    fragmentAt_eq_some hsize hoffset (hstop.trans_lt hpayload) ha
  have hn : offset + n ≤ p.length := by
    rw [hsplit]
    split_ifs with hmore
    · exact hmore.le
    · exact (Nat.add_sub_cancel' hoffset).le
  refine ⟨?_, ?_, hkey.trans hp.key⟩
  · rw [hpiece]
    exact hp.of.trans (Piece.of_slice hn)
  · have hlen : ((p.drop offset).take n).length = n := by
      rw [List.length_take, List.length_drop]
      omega
    have hwhole : h.isLastFragment = true ↔ h.m_fragmentOffset + p.length = payload.length := hp.last
    rw [hlast, hwhole, hpiece, Piece.stop]
    dsimp only
    rw [hlen]
    omega

theorem IsFragment.doFragmentationLoop {size : ℕ} (hp : IsFragment payload header (p, h))
    (hsize : size < 2 ^ 32) (hpayload : payload.length < 2 ^ 16) (fuel : ℕ) :
    ∀ {offset : ℕ} {listFragments : List Arrival}, offset ≤ p.length →
      (offset = 0 ∨ size < p.length) →
      Ipv4L3Protocol.doFragmentationLoop p h size fuel offset = some listFragments →
      ∀ a ∈ listFragments, IsFragment payload header a := by
  have hlen : p.length ≤ payload.length := (Nat.le_add_left _ _).trans hp.of.1
  induction fuel with
  | zero => exact fun _ _ hloop ↦ absurd hloop (Option.some_ne_none _).symm
  | succ fuel ih =>
    intro offset listFragments hoffset hstart hloop
    have hadd : offset + size < 2 ^ 32 := by omega
    rw [Ipv4L3Protocol.doFragmentationLoop, Option.bind_eq_bind, Option.bind_eq_some_iff] at hloop
    obtain ⟨fragment, hfragment, hloop⟩ := hloop
    have hfirst := hp.fragmentAt hadd hoffset hpayload hfragment
    rw [show add32 offset size = offset + size from Nat.mod_eq_of_lt hadd] at hloop
    split_ifs at hloop with hmore
    · rw [Option.bind_eq_bind, Option.bind_eq_some_iff] at hloop
      obtain ⟨rest, hrest, hloop⟩ := hloop
      obtain rfl := Option.some.inj hloop
      rw [Nat.mod_eq_of_lt (by omega)] at hrest
      rw [List.forall_mem_cons]
      exact ⟨hfirst, ih hmore.le (.inr (by omega)) hrest⟩
    · obtain rfl := Option.some.inj hloop
      rw [List.forall_mem_singleton]
      exact hfirst

/-- **Fragments of fragments are fragments.** -/
theorem Split.isFragment {a : Arrival} (hsplit : Split payload header a)
    (hpayload : payload.length ≤ 65515) (hoffset : header.m_fragmentOffset = 0)
    (hlast : header.isLastFragment = true) : IsFragment payload header a := by
  induction hsplit with
  | datagram =>
    refine ⟨?_, ?_, rfl⟩
    · rw [piece, hoffset]
      refine ⟨?_, ?_⟩
      · rw [Piece.stop, Nat.zero_add]
      · rw [List.drop_zero, List.take_length]
    · rw [piece, Piece.stop, hoffset, Nat.zero_add]
      exact iff_of_true hlast rfl
  | fragment _ hmtu hlt hfragments ha ih =>
    exact ih.doFragmentationLoop (fragmentSize_pos hmtu hlt).2 (by omega) _ (Nat.zero_le _) (.inl rfl)
      hfragments _ ha

/-! ## Collecting fragments -/

/-- The fragments after some arrivals. -/
def collect (f : Fragments) (arrivals : List Arrival) : Fragments :=
  arrivals.foldl
    (fun f a ↦ f.addFragment a.1 a.2.m_fragmentOffset (!a.2.isLastFragment)) f

/-- The greatest offset belongs to a last fragment; of several with this offset, the one that came last
is a last fragment. -/
def EndsLast (arrivals : List Arrival) : Prop :=
  Piece.TailIs (fun a ↦ a.2.m_fragmentOffset) (fun a ↦ a.2.isLastFragment = true) arrivals

/-- The arrivals have all bytes of the payload. -/
def Covers (arrivals : List Arrival) (payload : List UInt8) : Prop :=
  ∀ i < payload.length, ∃ a ∈ arrivals, (piece a).At i

theorem collect_concat (f : Fragments) (arrivals : List Arrival) (a : Arrival) :
    collect f (arrivals ++ [a]) =
      (collect f arrivals).addFragment a.1 a.2.m_fragmentOffset (!a.2.isLastFragment) := by
  rw [collect, List.foldl_append]
  rfl

theorem collect_m_timeoutIter (f : Fragments) (arrivals : List Arrival) :
    (collect f arrivals).m_timeoutIter = f.m_timeoutIter := by
  induction arrivals using List.reverseRecOn with
  | nil => rfl
  | append_singleton arrivals a ih =>
    rw [collect_concat]
    exact ih

/-- The fragments are those that arrived, sorted, and `m_moreFragment` is read from one of them. -/
theorem collect_spec (m_timeoutIter : ℕ) (arrivals : List Arrival) :
    (collect ⟨false, [], m_timeoutIter⟩ arrivals).m_timeoutIter = m_timeoutIter ∧
    Piece.Sorted (collect ⟨false, [], m_timeoutIter⟩ arrivals).m_fragments ∧
    (collect ⟨false, [], m_timeoutIter⟩ arrivals).m_fragments.Perm (arrivals.map piece) ∧
    (arrivals ≠ [] → ((collect ⟨false, [], m_timeoutIter⟩ arrivals).m_moreFragment = false ↔
      EndsLast arrivals)) := by
  obtain ⟨hsorted, hperm, hmore⟩ := Piece.foldl_place
    (fun (f : Fragments) (a : Arrival) ↦
      f.addFragment a.1 a.2.m_fragmentOffset (!a.2.isLastFragment))
    Fragments.m_fragments Fragments.m_moreFragment piece (fun a ↦ !a.2.isLastFragment)
    (fun _ _ ↦ rfl) (fun _ _ ↦ rfl) (s := ⟨false, [], m_timeoutIter⟩) rfl arrivals
  refine ⟨collect_m_timeoutIter _ _, hsorted, hperm, fun hne ↦ (hmore hne).trans ?_⟩
  simp only [Bool.not_eq_false', EndsLast, piece]

/-! ## Entire datagrams -/

theorem noGap_iff {l : List (Piece UInt8)} (hl : ∀ q ∈ l, q.stop < 2 ^ 16) (n : ℕ) :
    Fragments.noGap n l = true ↔ Piece.Gapless n l := by
  induction l generalizing n with
  | nil => exact iff_of_true rfl trivial
  | cons q l ih =>
    rw [List.forall_mem_cons] at hl
    have hstop : (q.data.length + q.offset) % 2 ^ 16 = q.stop := by
      rw [Nat.add_comm]
      exact Nat.mod_eq_of_lt hl.1
    rw [Fragments.noGap, hstop, Piece.Gapless]
    split_ifs with hlt
    · exact iff_of_false id fun hboth ↦ hlt.not_ge hboth.1
    · rw [ih hl.2, and_iff_right (not_lt.mp hlt)]

/-- The loop of `GetPacket` takes from each fragment what is not there yet. -/
theorem appendFragments_eq_join {l : List (Piece UInt8)} (hl : ∀ q ∈ l, q.Of payload) {n : ℕ}
    (hn : n ≤ payload.length) (hpayload : payload.length < 2 ^ 16) (hgap : Piece.Gapless n l) :
    Fragments.appendFragments (payload.take n) l = Piece.join (payload.take n) l := by
  induction l generalizing n with
  | nil => rfl
  | cons q l ih =>
    rw [List.forall_mem_cons] at hl
    have hlen : (payload.take n).length = n := by
      rw [List.length_take, min_eq_left hn]
    have hnext := ih hl.2 (max_le hn hl.1.1) hgap.2
    rw [← hl.1.append hn hgap.1] at hnext
    rw [Fragments.appendFragments, Piece.join, hlen, ← hnext, Nat.mod_eq_of_lt (by omega)]
    dsimp only
    split_ifs with hlt hshort
    · rw [List.take_of_length_le (l := q.data.drop _) (by rw [List.length_drop])]
    · rw [List.drop_eq_nil_of_le (not_lt.mp hshort), List.append_nil]
    · rw [Nat.sub_eq_zero_of_le (not_lt.mp hlt), List.drop_zero]

theorem Covers.gapless {arrivals : List Arrival} {l : List (Piece UInt8)}
    (hcovers : Covers arrivals payload) (hsorted : Piece.Sorted l)
    (hperm : l.Perm (arrivals.map piece)) (hof : ∀ q ∈ l, q.Of payload) :
    Piece.Gapless 0 l ∧ Piece.reach 0 l = payload.length := by
  refine ⟨(Piece.gapless_iff hsorted).mpr ?_, le_antisymm ?_ ?_⟩
  · rintro i - ⟨q, hq, hlt⟩
    obtain ⟨a, ha, hat⟩ := hcovers i (hlt.trans_le (hof q hq).1)
    exact ⟨piece a, hperm.mem_iff.mpr (List.mem_map_of_mem ha), hat⟩
  · exact Piece.reach_le (Nat.zero_le _) fun q hq ↦ (hof q hq).1
  · by_contra hlt
    rw [not_le] at hlt
    obtain ⟨a, ha, hat⟩ := hcovers _ hlt
    exact (Piece.stop_le_reach (hperm.mem_iff.mpr (List.mem_map_of_mem ha))).not_gt hat.2

theorem getPacket_eq {f : Fragments} (hof : ∀ q ∈ f.m_fragments, q.Of payload)
    (hne : f.m_fragments ≠ []) (hpayload : payload.length < 2 ^ 16)
    (hgap : Piece.Gapless 0 f.m_fragments)
    (hreach : Piece.reach 0 f.m_fragments = payload.length) : f.getPacket = some payload := by
  rw [Fragments.getPacket]
  cases hcons : f.m_fragments with
  | nil => exact absurd hcons hne
  | cons it rest =>
    rw [hcons] at hof hgap hreach
    rw [List.forall_mem_cons] at hof
    have hstart : it.data = payload.take it.stop := by
      have happ := hof.1.append (Nat.zero_le _) hgap.1
      rwa [List.take_zero, Nat.zero_sub, List.drop_zero, List.nil_append, Nat.zero_max] at happ
    have hrest := hgap.2
    rw [Nat.zero_max] at hrest
    rw [Piece.reach, Nat.zero_max] at hreach
    dsimp only
    rw [hstart, appendFragments_eq_join hof.2 hof.1.1 hpayload hrest,
      Piece.join_eq_take hof.2 hof.1.1 hrest, hreach, List.take_length]

/-- The arrivals of one datagram make an entire one just if they have all its bytes and end with a
last fragment, and then `GetPacket` gives its payload. -/
theorem collect_isEntire {arrivals : List Arrival} (hne : arrivals ≠ [])
    (hall : ∀ a ∈ arrivals, IsFragment payload header a) (hpayload : payload.length < 2 ^ 16)
    (m_timeoutIter : ℕ) :
    ((collect ⟨false, [], m_timeoutIter⟩ arrivals).isEntire = true ↔
      Covers arrivals payload ∧ EndsLast arrivals) ∧
    (Covers arrivals payload →
      (collect ⟨false, [], m_timeoutIter⟩ arrivals).getPacket = some payload) := by
  obtain ⟨-, hsorted, hperm, hmore⟩ := collect_spec m_timeoutIter arrivals
  have hof : ∀ q ∈ (collect ⟨false, [], m_timeoutIter⟩ arrivals).m_fragments, q.Of payload := by
    intro q hq
    obtain ⟨a, ha, rfl⟩ := List.mem_map.mp (hperm.mem_iff.mp hq)
    exact (hall a ha).of
  have hfragments : (collect ⟨false, [], m_timeoutIter⟩ arrivals).m_fragments ≠ [] := by
    intro hnil
    rw [hnil] at hperm
    exact hne (List.map_eq_nil_iff.mp hperm.nil_eq.symm)
  have hscan := noGap_iff (fun q hq ↦ (hof q hq).1.trans_lt hpayload) 0
  constructor
  · rw [Fragments.isEntire, Bool.and_eq_true, Bool.and_eq_true, Bool.not_eq_true',
      decide_eq_true_iff, hmore hne, hscan]
    constructor
    · rintro ⟨⟨hends, -⟩, hgap⟩
      refine ⟨?_, hends⟩
      intro i hi
      obtain ⟨before, a, after, heq, hlast, -, -⟩ := hends
      have ha : a ∈ arrivals := heq ▸ List.mem_append_right _ List.mem_cons_self
      rw [← (hall a ha).last.mp hlast] at hi
      obtain ⟨q, hq, hat⟩ := (Piece.gapless_iff hsorted).mp hgap i (Nat.zero_le _)
        ⟨piece a, hperm.mem_iff.mpr (List.mem_map_of_mem ha), hi⟩
      obtain ⟨b, hb, rfl⟩ := List.mem_map.mp (hperm.mem_iff.mp hq)
      exact ⟨b, hb, hat⟩
    · rintro ⟨hcovers, hends⟩
      exact ⟨⟨hends, List.length_pos_of_ne_nil hfragments⟩,
        (hcovers.gapless hsorted hperm hof).1⟩
  · intro hcovers
    obtain ⟨hgap, hreach⟩ := hcovers.gapless hsorted hperm hof
    exact getPacket_eq hof hfragments hpayload hgap hreach

/-! ## All runs -/

/-- A state, and what has arrived for each datagram that waits. -/
structure Collected where
  state : Ipv4L3Protocol
  got : FragmentKey → List Arrival

/-- What has arrived after a step: nothing if the datagram does not wait. -/
def record (got : FragmentKey → List Arrival) (s' : Ipv4L3Protocol) (op : Op) (k : FragmentKey) :
    List Arrival :=
  if (s'.m_fragments k).isSome then
    match op with
    | .processFragment packet ipHeader _ =>
      if ipHeader.key = k then got k ++ [(packet, ipHeader)] else got k
    | _ => got k
  else []

/-- The runs of `machine`, with what has arrived. -/
def collected (m_fragmentExpirationTimeout : ℕ) : Machine Collected Op where
  init := ⟨(machine m_fragmentExpirationTimeout).init, fun _ ↦ []⟩
  next c op := (c.state.next op).map fun s ↦ ⟨s, record c.got s op⟩

/-- The fragments of each datagram that waits are those that have arrived for it. -/
def Holds (s : Ipv4L3Protocol) (got : FragmentKey → List Arrival) : Prop :=
  ∀ k, (∀ f, s.m_fragments k = some f → f = collect ⟨false, [], f.m_timeoutIter⟩ (got k)) ∧
    (s.m_fragments k = none → got k = [])

theorem expire_m_fragments (l : List Timeout) : ∀ {s s' : Ipv4L3Protocol}, s.expire l = some s' →
    ∀ k, s'.m_fragments k = none ∨ s'.m_fragments k = s.m_fragments k := by
  induction l with
  | nil =>
    intro s s' h k
    obtain rfl := Option.some.inj h
    exact .inr rfl
  | cons t rest ih =>
    intro s s' h k
    rw [expire] at h
    split_ifs at h with htime
    · rw [Option.bind_eq_bind, Option.bind_eq_some_iff] at h
      obtain ⟨s₁, hhandle, hrest⟩ := h
      rw [handleFragmentsTimeout, Option.bind_eq_bind, Option.bind_eq_some_iff] at hhandle
      obtain ⟨fragments, -, hhandle⟩ := hhandle
      rw [Option.bind_eq_bind, Option.bind_eq_some_iff] at hhandle
      obtain ⟨packet, -, hhandle⟩ := hhandle
      obtain rfl := Option.some.inj hhandle
      rcases ih hrest k with hnone | hsame
      · exact .inl hnone
      · rw [hsame]
        by_cases hkey : k = t.key
        · subst hkey
          exact .inl (Function.update_self ..)
        · exact .inr (Function.update_of_ne hkey ..)
    · obtain rfl := Option.some.inj h
      exact .inr rfl

theorem handleTimeout_m_fragments (h : s.handleTimeout = some s') (k : FragmentKey) :
    s'.m_fragments k = none ∨ s'.m_fragments k = s.m_fragments k := by
  rw [Ipv4L3Protocol.handleTimeout, Option.bind_eq_bind, Option.bind_eq_some_iff] at h
  obtain ⟨s₁, hexpire, h⟩ := h
  have hs₁ := expire_m_fragments _ hexpire k
  split at h
  · obtain rfl := Option.some.inj h
    exact hs₁
  · rw [Option.ite_none_left_eq_some] at h
    obtain rfl := Option.some.inj h.2
    exact hs₁

namespace Holds

variable {got : FragmentKey → List Arrival}

theorem stored_eq (hh : Holds s got) (packet : List UInt8) (ipHeader : Ipv4Header) :
    s.stored packet ipHeader = collect ⟨false, [], (s.stored packet ipHeader).m_timeoutIter⟩
      (got ipHeader.key ++ [(packet, ipHeader)]) := by
  rw [collect_concat, stored]
  cases hkey : s.m_fragments ipHeader.key with
  | none =>
    rw [(hh ipHeader.key).2 hkey]
    rfl
  | some f =>
    rw [Option.getD_some]
    have hf := (hh ipHeader.key).1 f hkey
    exact congrArg (fun f ↦ Fragments.addFragment f _ _ _) hf

theorem of_shrinks (hh : Holds s got)
    (h : ∀ k, s'.m_fragments k = none ∨ s'.m_fragments k = s.m_fragments k) :
    Holds s' fun k ↦ if (s'.m_fragments k).isSome then got k else [] := by
  intro k
  constructor
  · intro f hf
    dsimp only
    rw [hf, if_pos Option.isSome_some]
    rcases h k with hnone | hsame
    · exact absurd (hnone.symm.trans hf) (Option.some_ne_none _).symm
    · exact (hh k).1 f (hsame.symm.trans hf)
  · intro hnone
    dsimp only
    rw [hnone]
    exact if_neg Bool.false_ne_true

theorem processFragment (hh : Holds s got) (packet : List UInt8) (ipHeader : Ipv4Header) (iif : ℕ) :
    Holds (s.processFragment packet ipHeader iif).1
      (record got (s.processFragment packet ipHeader iif).1 (.processFragment packet ipHeader iif)) := by
  intro k
  constructor
  · intro f hf
    rw [record, hf, if_pos Option.isSome_some]
    rw [processFragment_m_fragments] at hf
    by_cases hkey : ipHeader.key = k
    · subst hkey
      rw [Function.update_self, Option.ite_none_left_eq_some, Option.some_inj] at hf
      rw [if_pos rfl, ← hf.2]
      exact hh.stored_eq packet ipHeader
    · rw [Function.update_of_ne (Ne.symm hkey)] at hf
      rw [if_neg hkey]
      exact (hh k).1 f hf
  · intro hnone
    rw [record, hnone]
    exact if_neg Bool.false_ne_true

theorem next (hh : Holds s got) {op : Op} (hs : s.next op = some s') :
    Holds s' (record got s' op) := by
  cases op with
  | processFragment packet ipHeader iif =>
    rw [Ipv4L3Protocol.next, Option.some_inj] at hs
    subst hs
    exact hh.processFragment packet ipHeader iif
  | handleTimeout =>
    rw [Ipv4L3Protocol.next, Option.ite_none_right_eq_some] at hs
    have hshrinks := handleTimeout_m_fragments (s := { s with events := s.events.erase s.now }) hs.2
    exact hh.of_shrinks hshrinks
  | wait time =>
    rw [Ipv4L3Protocol.next, Option.ite_none_right_eq_some, Option.some_inj] at hs
    obtain ⟨-, rfl⟩ := hs
    exact hh.of_shrinks fun k ↦ .inr rfl

end Holds

theorem holds_of_run {m_fragmentExpirationTimeout : ℕ} {as : List Op} {c : Collected}
    (hr : (collected m_fragmentExpirationTimeout).Run Machine.unguarded as c) :
    Holds c.state c.got := by
  refine hr.invariant (I := fun c ↦ Holds c.state c.got) ?_ ?_
  · exact fun k ↦ ⟨fun f hf ↦ absurd hf (Option.some_ne_none _).symm, fun _ ↦ rfl⟩
  · intro c op c' hh _ hs
    obtain ⟨s', hs', rfl⟩ := Option.map_eq_some_iff.mp hs
    exact hh.next hs'

/-- **What `ProcessFragment` reports.** In all runs, a datagram is entire just when all bytes of its
payload have come and the greatest offset, where it has come last, has come with a last fragment. -/
theorem processFragment_eq_ite {m_fragmentExpirationTimeout : ℕ} {as : List Op} {c : Collected}
    (hr : (collected m_fragmentExpirationTimeout).Run Machine.unguarded as c)
    (hpayload : payload.length ≤ 65515) (hoffset : header.m_fragmentOffset = 0)
    (hlast : header.isLastFragment = true) (a : Arrival) (iif : ℕ)
    (hsplit : ∀ b ∈ c.got a.2.key ++ [a], Split payload header b) :
    ((c.state.processFragment a.1 a.2 iif).2.isSome ↔
      Covers (c.got a.2.key ++ [a]) payload ∧ EndsLast (c.got a.2.key ++ [a])) ∧
    ∀ p, (c.state.processFragment a.1 a.2 iif).2 = some p → p = payload := by
  have hstored := (holds_of_run hr).stored_eq a.1 a.2
  have hne : c.got a.2.key ++ [a] ≠ [] := List.append_ne_nil_of_right_ne_nil _ (List.cons_ne_nil _ _)
  obtain ⟨hentire, hpacket⟩ := collect_isEntire hne
    (fun b hb ↦ (hsplit b hb).isFragment hpayload hoffset hlast) (by omega)
    (c.state.stored a.1 a.2).m_timeoutIter
  rw [← hstored] at hentire hpacket
  rw [processFragment_eq]
  split_ifs with h
  · have hcovers := (hentire.mp h).1
    refine ⟨iff_of_true ?_ (hentire.mp h), ?_⟩
    · dsimp only
      rw [hpacket hcovers]
      rfl
    · intro p hp
      exact (Option.some.inj ((hpacket hcovers).symm.trans hp)).symm
  · refine ⟨iff_of_false Bool.false_ne_true (mt hentire.mpr h), ?_⟩
    intro p hp
    exact hp.elim

/-! ## When a datagram is reported -/

/-- `ProcessFragment` reports the arrival `a` as it should: nothing but the payload, and that as soon
as all its bytes have arrived. -/
def Reassembles (s : Ipv4L3Protocol) (arrivals : List Arrival) (a : Arrival) (iif : ℕ)
    (payload : List UInt8) : Prop :=
  (∀ p, (s.processFragment a.1 a.2 iif).2 = some p → p = payload) ∧
    (Covers arrivals payload → (s.processFragment a.1 a.2 iif).2.isSome)

/-- **Reassembly is right just when the greatest offset ends with a last fragment.** In all runs, the
fragments of a datagram, however they have been split, duplicated and reordered, are reassembled to its
payload as soon as they cover it, if and only if of the fragments with the greatest offset the one
that came last is a last fragment. -/
theorem reassembles_iff {m_fragmentExpirationTimeout : ℕ} {as : List Op} {c : Collected}
    (hr : (collected m_fragmentExpirationTimeout).Run Machine.unguarded as c)
    (hpayload : payload.length ≤ 65515) (hoffset : header.m_fragmentOffset = 0)
    (hlast : header.isLastFragment = true) (a : Arrival) (iif : ℕ)
    (hsplit : ∀ b ∈ c.got a.2.key ++ [a], Split payload header b) :
    Reassembles c.state (c.got a.2.key ++ [a]) a iif payload ↔
      (Covers (c.got a.2.key ++ [a]) payload → EndsLast (c.got a.2.key ++ [a])) := by
  obtain ⟨hsome, hpacket⟩ := processFragment_eq_ite hr hpayload hoffset hlast a iif hsplit
  rw [Reassembles, and_iff_right hpacket, hsome]
  constructor
  · intro h hcovers
    exact (h hcovers).2
  · intro h hcovers
    exact ⟨hcovers, h hcovers⟩

/-- A datagram of 200 bytes. -/
def header200 : Ipv4Header := ⟨1, 2, 1, 17, 200, 0, false⟩

/-- The first and the last fragment of `header200` for an MTU of 124. -/
def first124 : Arrival := (List.replicate 104 0, ⟨1, 2, 1, 17, 104, 0, true⟩)

@[inherit_doc first124]
def last124 : Arrival := (List.replicate 96 0, ⟨1, 2, 1, 17, 96, 104, false⟩)

/-- The first fragment of `last124` for an MTU of 68. -/
def first68 : Arrival := (List.replicate 48 0, ⟨1, 2, 1, 17, 48, 104, true⟩)

theorem doFragmentation_header200 : doFragmentation (List.replicate 200 0) header200 124 =
    some [first124, last124] := by
  decide +kernel

theorem split_first124 : Split (List.replicate 200 0) header200 first124 :=
  .fragment .datagram (by decide) (by decide) doFragmentation_header200 List.mem_cons_self

theorem split_last124 : Split (List.replicate 200 0) header200 last124 :=
  .fragment .datagram (by decide) (by decide) doFragmentation_header200
    (List.mem_cons_of_mem _ List.mem_cons_self)

theorem split_first68 : Split (List.replicate 200 0) header200 first68 := by
  have hfragments : doFragmentation last124.1 last124.2 68 =
      some [first68, (List.replicate 48 0, ⟨1, 2, 1, 17, 48, 152, false⟩)] := by decide +kernel
  exact .fragment split_last124 le_rfl (by decide) hfragments List.mem_cons_self

theorem covers200 {arrivals : List Arrival} (hfirst : first124 ∈ arrivals)
    (hlast : last124 ∈ arrivals) : Covers arrivals (List.replicate 200 0) := by
  intro i hi
  rw [List.length_replicate] at hi
  by_cases hlt : i < 104
  · exact ⟨first124, hfirst, Nat.zero_le _, hlt⟩
  · exact ⟨last124, hlast, not_lt.mp hlt, hi⟩

/-- Two fragments in the wrong order make their datagram. -/
theorem reassembles_iff_two : ∃ c, (collected 30).Run Machine.unguarded
    [.processFragment last124.1 last124.2 0] c ∧
      Reassembles c.state [last124, first124] first124 0 (List.replicate 200 0) := by
  refine Machine.exists_run_and (p := fun c ↦ c.got first124.2.key = [last124]) (by decide +kernel)
    fun c hr hgot ↦ ?_
  have hsplit : ∀ b ∈ c.got first124.2.key ++ [first124],
      Split (List.replicate 200 0) header200 b := by
    rw [hgot]
    intro b hb
    rcases List.mem_cons.mp hb with rfl | hb
    · exact split_last124
    · rw [List.mem_singleton.mp hb]
      exact split_first124
  have hiff := reassembles_iff hr (by decide +kernel) rfl rfl first124 0 hsplit
  rw [hgot] at hiff
  refine hiff.mpr ?_
  intro _
  refine ⟨[], last124, [first124], rfl, rfl, fun b hb ↦ absurd hb List.not_mem_nil, ?_⟩
  intro b hb
  rw [List.mem_singleton.mp hb]
  decide

/-- The bytes of the last fragment have come, and then the first half of it again: then the first
fragment does not make the datagram entire. -/
theorem not_reassembles : ∃ c, (collected 30).Run Machine.unguarded
    [.processFragment last124.1 last124.2 0, .processFragment first68.1 first68.2 0] c ∧
      (∀ b ∈ c.got first124.2.key ++ [first124], Split (List.replicate 200 0) header200 b) ∧
      ¬ Reassembles c.state (c.got first124.2.key ++ [first124]) first124 0
        (List.replicate 200 0) := by
  refine Machine.exists_run_and
    (p := fun c ↦ c.got first124.2.key = [last124, first68] ∧
      (c.state.processFragment first124.1 first124.2 0).2 = none)
    (by decide +kernel) fun c hr ⟨hgot, hnone⟩ ↦ ?_
  refine ⟨?_, ?_⟩
  · rw [hgot]
    intro b hb
    rcases List.mem_cons.mp hb with rfl | hb
    · exact split_last124
    · rcases List.mem_cons.mp hb with rfl | hb
      · exact split_first68
      · rw [List.mem_singleton.mp hb]
        exact split_first124
  · rintro ⟨-, hcovers⟩
    rw [hgot, hnone] at hcovers
    refine Bool.false_ne_true (hcovers (covers200 ?_ List.mem_cons_self))
    exact List.mem_append_right _ List.mem_cons_self

end Ipv4L3Protocol

end Ns3
