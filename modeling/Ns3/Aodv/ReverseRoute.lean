import Ns3.Aodv.RouteRequest

/-!
# When the reverse route is usable

After a route request was handled, the table has a valid route to its originator over the neighbour it
came from, or it has none that is valid. Which of the two is decided by what was there before: the entry of
the originator, the hop count of the request, and the neighbours whose links are about to be reported.

The argument runs in both directions through the stages of the handler. A valid entry in the end was there
before each stage; and an entry with time left over the neighbour is kept by each stage, as long as no
link is reported that it depends on.
-/

namespace Ns3

namespace Aodv

namespace Routing

variable {c : Attributes} {now : ℤ} {a : Arrival} {k : Ipv4Address} {e : RoutingTableEntry}

/-! ## Links that are reported -/

section Links

variable {s : RerrSender} {l l' : List Neighbor} {r : RerrSender × List SentRerr} {o : RerrLocals}
  {p : Option RoutingTableEntry → Prop}

theorem reportLinks_cons {n : Neighbor} (h : reportLinks now (n :: l) s = some r) :
    ∃ o r', sendRerrWhenBreaksLinkToNextHop now s n.m_neighborAddress = some o ∧
      reportLinks now l o.sender = some r' ∧ r.1 = r'.1 := by
  obtain ⟨o, ho, h⟩ := Option.bind_eq_some_iff.mp h
  obtain ⟨r', hr', h⟩ := Option.bind_eq_some_iff.mp h
  exact ⟨o, r', ho, hr', by rw [← Option.some_inj.mp h]⟩

theorem reportLinks_append (h : reportLinks now (l ++ l') s = some r) :
    ∃ r₁ r₂, reportLinks now l s = some r₁ ∧ reportLinks now l' r₁.1 = some r₂ ∧ r.1 = r₂.1 := by
  induction l generalizing s r with
  | nil => exact ⟨(s, []), r, rfl, h, rfl⟩
  | cons n l ih =>
    obtain ⟨o, r', ho, hr', heq⟩ := reportLinks_cons h
    obtain ⟨r₁, r₂, h₁, h₂, heq'⟩ := ih hr'
    refine ⟨(r₁.1, o.sent ++ r₁.2), r₂, ?_, h₂, heq.trans heq'⟩
    exact Option.bind_eq_some_iff.mpr ⟨o, ho, Option.bind_eq_some_iff.mpr ⟨r₁, h₁, rfl⟩⟩

theorem badLinkLifetime_of_reportLinks (h : reportLinks now l s = some r) :
    r.1.m_routingTable.m_badLinkLifetime = s.m_routingTable.m_badLinkLifetime := by
  induction l generalizing s r with
  | nil => rw [← Option.some_inj.mp h]
  | cons n l ih =>
    obtain ⟨o, r', ho, hr', heq⟩ := reportLinks_cons h
    rw [heq, ih hr']
    exact badLinkLifetime_of_sendRerrWhenBreaksLinkToNextHop ho

theorem find_of_valid_reportLinks (h : reportLinks now l s = some r)
    (he : r.1.m_routingTable.find k = some e) (hvalid : e.m_flag = .VALID) :
    s.m_routingTable.find k = some e := by
  induction l generalizing s r with
  | nil =>
    rw [← Option.some_inj.mp h] at he
    exact he
  | cons n l ih =>
    obtain ⟨o, r', ho, hr', heq⟩ := reportLinks_cons h
    rw [heq] at he
    exact find_of_valid_sendRerrWhenBreaksLinkToNextHop ho (ih hr' he) hvalid

theorem not_valid_of_reportLinks (h : reportLinks now l s = some r)
    (he : r.1.m_routingTable.find k = some e) (hk : ∃ n ∈ l, n.m_neighborAddress = k) :
    e.m_flag ≠ .VALID := by
  intro hvalid
  induction l generalizing s r with
  | nil => exact absurd hk (by simp)
  | cons n l ih =>
    obtain ⟨o, r', ho, hr', heq⟩ := reportLinks_cons h
    rw [heq] at he
    obtain ⟨m, hm, rfl⟩ := hk
    rcases List.mem_cons.mp hm with rfl | hm
    · exact not_valid_of_sendRerrWhenBreaksLinkToNextHop ho (find_of_valid_reportLinks hr' he hvalid)
        (Or.inl rfl) hvalid
    · exact ih hr' he ⟨m, hm, rfl⟩

theorem keeps_of_sendRerrWhenBreaksLinkToNextHop {nextHop : Ipv4Address}
    (h : sendRerrWhenBreaksLinkToNextHop now s nextHop = some o)
    (hp : ∀ x, p x → p (x.bind (RoutingTableEntry.purge s.m_routingTable.m_badLinkLifetime now)))
    (hk : k ≠ nextHop) (hvia : ∀ e, s.m_routingTable.find k = some e → e.getNextHop ≠ nextHop)
    (hpurge : p ((s.m_routingTable.purge now).find k)) : p (o.sender.m_routingTable.find k) := by
  obtain ⟨t, ht, hfind⟩ := find_of_sendRerrWhenBreaksLinkToNextHop h hk hvia
  rw [hfind]
  exact ht.keeps hp hpurge

theorem keeps_of_reportLinks (h : reportLinks now l s = some r)
    (hp : ∀ x, p x → p (x.bind (RoutingTableEntry.purge s.m_routingTable.m_badLinkLifetime now)))
    (hk : ∀ n ∈ l, k ≠ n.m_neighborAddress)
    (hvia : ∀ n ∈ l, ∀ e, p (some e) → e.getNextHop ≠ n.m_neighborAddress)
    (hstart : p (s.m_routingTable.find k)) : p (r.1.m_routingTable.find k) := by
  induction l generalizing s r with
  | nil =>
    rw [← Option.some_inj.mp h]
    exact hstart
  | cons n l ih =>
    obtain ⟨o, r', ho, hr', heq⟩ := reportLinks_cons h
    rw [heq]
    refine ih hr' ?_ (fun m hm ↦ hk m (List.mem_cons_of_mem _ hm))
      (fun m hm ↦ hvia m (List.mem_cons_of_mem _ hm)) ?_
    · rw [badLinkLifetime_of_sendRerrWhenBreaksLinkToNextHop ho]
      exact hp
    · refine keeps_of_sendRerrWhenBreaksLinkToNextHop ho hp (hk n List.mem_cons_self) ?_ ?_
      · exact fun e he ↦ hvia n List.mem_cons_self e (he ▸ hstart)
      · rw [RoutingTable.find_purge]
        exact hp _ hstart

/-- An entry over its own destination that a purge leaves in the table. -/
def Survives (badLinkLifetime now : ℤ) (src : Ipv4Address) (x : Option RoutingTableEntry) : Prop :=
  ∃ e, x = some e ∧ e.getNextHop = src ∧
    (0 ≤ e.getLifeTime now ∨ e.m_flag = .VALID ∧ 0 ≤ badLinkLifetime)

theorem Survives.purge {badLinkLifetime : ℤ} {src : Ipv4Address} {x : Option RoutingTableEntry}
    (h : Survives badLinkLifetime now src x) :
    Survives badLinkLifetime now src (x.bind (RoutingTableEntry.purge badLinkLifetime now)) := by
  obtain ⟨e, rfl, hvia, hlive | ⟨hvalid, hbad⟩⟩ := h
  · exact ⟨e, RoutingTableEntry.purge_of_live hlive, hvia, Or.inl hlive⟩
  · obtain ⟨e', he', hvia', ⟨rfl, hlive⟩ | ⟨-, hlife⟩⟩ :=
      RoutingTableEntry.exists_purge_of_valid badLinkLifetime now hvalid
    · exact ⟨e', he', hvia, Or.inl hlive⟩
    · exact ⟨e', he', hvia'.trans hvia, Or.inl (hbad.trans_eq hlife.symm)⟩

/-- An entry over its own destination that the next purge removes, if it is still there. -/
def Fades (now : ℤ) (src : Ipv4Address) (x : Option RoutingTableEntry) : Prop :=
  ∀ e, x = some e → e.getNextHop = src ∧ e.m_flag = .INVALID ∧ e.getLifeTime now < 0

theorem Fades.purge {badLinkLifetime : ℤ} {src : Ipv4Address} {x : Option RoutingTableEntry}
    (h : Fades now src x) : x.bind (RoutingTableEntry.purge badLinkLifetime now) = none := by
  cases x with
  | none => rfl
  | some e =>
    obtain ⟨-, hflag, hlife⟩ := h e rfl
    rw [Option.bind_some, RoutingTableEntry.purge, if_pos hlife, hflag]

/-- **The neighbour's entry is gone when the link to the neighbour is reported** if and only if lifetimes
are negative and another link was reported before. -/
theorem find_neighbor_eq_none_iff {src : Ipv4Address} (h : reportLinks now l s = some r)
    (hne : ∀ n ∈ l, n.m_neighborAddress ≠ src) (he : s.m_routingTable.find src = some e)
    (hvia : e.getNextHop = src) (hvalid : e.m_flag = .VALID) :
    (r.1.m_routingTable.purge now).find src = none ↔
      e.getLifeTime now < 0 ∧ s.m_routingTable.m_badLinkLifetime < 0 ∧ l ≠ [] := by
  have hbad := badLinkLifetime_of_reportLinks h
  rw [RoutingTable.find_purge, hbad]
  by_cases hsurvives : 0 ≤ e.getLifeTime now ∨ 0 ≤ s.m_routingTable.m_badLinkLifetime
  · refine iff_of_false ?_ fun hall ↦ hsurvives.elim hall.1.not_ge hall.2.1.not_ge
    have hstart : Survives s.m_routingTable.m_badLinkLifetime now src (s.m_routingTable.find src) :=
      ⟨e, he, hvia, hsurvives.imp_right fun hbad ↦ ⟨hvalid, hbad⟩⟩
    have hend := keeps_of_reportLinks h (fun _ ↦ Survives.purge) (fun n hn ↦ (hne n hn).symm)
      (fun n hn e he ↦ ?_) hstart
    · obtain ⟨e', he', -⟩ := hend.purge
      rw [he']
      exact Option.some_ne_none _
    · obtain ⟨_, heq, hvia, -⟩ := he
      rw [Option.some_inj.mp heq, hvia]
      exact (hne n hn).symm
  rw [not_or, not_le, not_le] at hsurvives
  cases l with
  | nil =>
    refine iff_of_false ?_ fun hall ↦ hall.2.2 rfl
    obtain ⟨e', he', -⟩ :=
      RoutingTableEntry.exists_purge_of_valid s.m_routingTable.m_badLinkLifetime now hvalid
    rw [← Option.some_inj.mp h, he, Option.bind_some, he']
    exact Option.some_ne_none _
  | cons n l =>
    refine iff_of_true ?_ ⟨hsurvives.1, hsurvives.2, List.cons_ne_nil _ _⟩
    obtain ⟨o, r', ho, hr', heq⟩ := reportLinks_cons h
    -- the first report purges the table, and the entry fades
    have hpurge : Fades now src ((s.m_routingTable.purge now).find src) := by
      obtain ⟨e', he', hvia', ⟨rfl, hlive⟩ | ⟨hflag, hlife⟩⟩ :=
        RoutingTableEntry.exists_purge_of_valid s.m_routingTable.m_badLinkLifetime now hvalid
      · exact absurd hlive hsurvives.1.not_ge
      · rw [RoutingTable.find_purge, he, Option.bind_some, he']
        rintro e'' heq
        rw [← Option.some_inj.mp heq]
        exact ⟨hvia'.trans hvia, hflag, hlife.trans_lt hsurvives.2⟩
    have hfades : ∀ x, Fades now src x → ∀ badLinkLifetime,
        Fades now src (x.bind (RoutingTableEntry.purge badLinkLifetime now)) := by
      intro x hx badLinkLifetime e' he'
      rw [hx.purge] at he'
      exact absurd he' (Option.some_ne_none _).symm
    have hfirst : Fades now src (o.sender.m_routingTable.find src) := by
      refine keeps_of_sendRerrWhenBreaksLinkToNextHop ho (fun x hx ↦ hfades x hx _)
        (hne n List.mem_cons_self).symm ?_ hpurge
      rintro e' he'
      rw [← Option.some_inj.mp (he.symm.trans he'), hvia]
      exact (hne n List.mem_cons_self).symm
    have hend := keeps_of_reportLinks (p := Fades now src) hr' (fun x hx ↦ hfades x hx _)
      (fun m hm ↦ (hne m (List.mem_cons_of_mem _ hm)).symm) ?_ hfirst
    · rw [heq]
      exact hend.purge
    · rintro m hm e' he'
      rw [(he' e' rfl).1]
      exact (hne m (List.mem_cons_of_mem _ hm)).symm

end Links

/-! ## The neighbour is recorded -/

section Neighbors

variable {s : RoutingProtocol} {expire : ℤ} {r : RoutingProtocol × List SentRerr} {S : RoutingTableEntry}

/-- No link is reported that a route to the originator over the neighbour depends on: the neighbour was
known, or neither the originator's link is reported nor the neighbour's own while it has an entry. -/
def LinksStay (now : ℤ) (s : RoutingProtocol) (src origin : Ipv4Address) (lifeTime expire : ℤ) : Prop :=
  src ∈ s.m_nb.map Neighbor.m_neighborAddress ∨
    (∀ n ∈ s.m_nb, n.Closed now → n.m_neighborAddress ≠ origin) ∧
      (expire < 0 → lifeTime < 0 ∧ s.m_routingTable.m_badLinkLifetime < 0 ∧ ∃ n ∈ s.m_nb, n.Closed now)

theorem table_of_updateNeighbors {src : Ipv4Address} (h : updateNeighbors now s src expire = some r)
    (hnew : src ∉ s.m_nb.map Neighbor.m_neighborAddress) :
    ∃ r₁ r₂, reportLinks now (s.m_nb.filter fun n ↦ n.Closed now) s.toRerrSender = some r₁ ∧
      reportLinks now (if expire < 0 then [⟨src, expire + now, false⟩] else []) r₁.1 = some r₂ ∧
      r.1.m_routingTable = r₂.1.m_routingTable := by
  rw [updateNeighbors, if_neg hnew] at h
  obtain ⟨r', hr', h⟩ := Option.bind_eq_some_iff.mp h
  rw [List.filter_append] at hr'
  obtain ⟨r₁, r₂, h₁, h₂, heq⟩ := reportLinks_append hr'
  refine ⟨r₁, r₂, h₁, ?_, ?_⟩
  · have hlast : ([⟨src, expire + now, false⟩] : List Neighbor).filter (fun n ↦ n.Closed now) =
        if expire < 0 then [⟨src, expire + now, false⟩] else [] := by
      have hclosed : Neighbor.Closed now ⟨src, expire + now, false⟩ ↔ expire < 0 := by
        rw [Neighbor.Closed, or_iff_left Bool.false_ne_true]
        exact add_lt_iff_neg_right now
      rw [List.filter_singleton]
      by_cases hexpire : expire < 0
      · rw [if_pos hexpire, decide_eq_true (hclosed.mpr hexpire)]
        rfl
      · rw [if_neg hexpire, decide_eq_false fun h ↦ hexpire (hclosed.mp h)]
        rfl
    rw [← hlast]
    exact h₂
  · rw [← Option.some_inj.mp h, ← heq]

theorem ne_of_mem_closed {src : Ipv4Address} (hnew : src ∉ s.m_nb.map Neighbor.m_neighborAddress) :
    ∀ n ∈ s.m_nb.filter (fun n ↦ n.Closed now), n.m_neighborAddress ≠ src :=
  fun _ hn heq ↦ hnew (List.mem_map.mpr ⟨_, List.mem_of_mem_filter hn, heq⟩)

theorem filter_closed_ne_nil : (s.m_nb.filter fun n ↦ n.Closed now) ≠ [] ↔ ∃ n ∈ s.m_nb, n.Closed now := by
  rw [Ne, List.filter_eq_nil_iff]
  push Not
  exact exists_congr fun n ↦ and_congr_right fun _ ↦ decide_eq_true_iff

/-- **An entry that depends on no reported link is kept.** -/
theorem find_of_updateNeighbors (h : updateNeighbors now s a.src expire = some r)
    (hS : s.m_routingTable.find a.src = some S) (hSvia : S.getNextHop = a.src) (hSvalid : S.m_flag = .VALID)
    (he : s.m_routingTable.find k = some e) (hvia : e.getNextHop = a.src) (hlive : 0 ≤ e.getLifeTime now)
    (hstay : LinksStay now s a.src k (S.getLifeTime now) expire) :
    r.1.m_routingTable.find k = some e := by
  by_cases hnew : a.src ∈ s.m_nb.map Neighbor.m_neighborAddress
  · rw [updateNeighbors, if_pos hnew] at h
    rw [← Option.some_inj.mp h]
    exact he
  obtain ⟨horigin, hlast⟩ := hstay.resolve_left hnew
  obtain ⟨r₁, r₂, h₁, h₂, htable⟩ := table_of_updateNeighbors h hnew
  have hfirst : r₁.1.m_routingTable.find k = some e := by
    refine keeps_of_reportLinks (p := (· = some e)) h₁ ?_ ?_ ?_ he
    · rintro _ rfl
      exact RoutingTableEntry.purge_of_live hlive
    · exact fun n hn heq ↦ horigin n (List.mem_of_mem_filter hn)
        (of_decide_eq_true (List.mem_filter.mp hn).2) heq.symm
    · rintro n hn _ heq
      rw [Option.some_inj.mp heq, hvia]
      exact (ne_of_mem_closed hnew n hn).symm
  rw [htable]
  by_cases hexpire : expire < 0
  · -- the neighbour's entry is gone when its own link is reported
    rw [if_pos hexpire] at h₂
    obtain ⟨o, r', ho, hr', heq⟩ := reportLinks_cons h₂
    obtain ⟨hlife, hbad, hsome⟩ := hlast hexpire
    have hgone := (find_neighbor_eq_none_iff h₁ (ne_of_mem_closed hnew) hS hSvia hSvalid).mpr
      ⟨hlife, hbad, filter_closed_ne_nil.mpr hsome⟩
    rw [heq, ← Option.some_inj.mp hr']
    obtain ⟨htable', -⟩ | ⟨_, _, _, hfound, _⟩ := table_of_sendRerrWhenBreaksLinkToNextHop ho
    · rw [htable', RoutingTable.find_purge, hfirst]
      exact RoutingTableEntry.purge_of_live hlive
    · exact absurd (hgone.symm.trans hfound) (Option.some_ne_none _).symm
  · rw [if_neg hexpire] at h₂
    rw [← Option.some_inj.mp h₂]
    exact hfirst

/-- **A valid entry in the end was there before, and no link was reported that it depends on.** -/
theorem of_valid_updateNeighbors (h : updateNeighbors now s a.src expire = some r)
    (hS : s.m_routingTable.find a.src = some S) (hSvia : S.getNextHop = a.src) (hSvalid : S.m_flag = .VALID)
    (hvia : ∀ e, s.m_routingTable.find k = some e → e.getNextHop = a.src)
    (he : r.1.m_routingTable.find k = some e) (hvalid : e.m_flag = .VALID) :
    s.m_routingTable.find k = some e ∧ LinksStay now s a.src k (S.getLifeTime now) expire := by
  by_cases hnew : a.src ∈ s.m_nb.map Neighbor.m_neighborAddress
  · rw [updateNeighbors, if_pos hnew] at h
    rw [← Option.some_inj.mp h] at he
    exact ⟨he, Or.inl hnew⟩
  obtain ⟨r₁, r₂, h₁, h₂, htable⟩ := table_of_updateNeighbors h hnew
  rw [htable] at he
  have he₁ := find_of_valid_reportLinks h₂ he hvalid
  have he₀ := find_of_valid_reportLinks h₁ he₁ hvalid
  refine ⟨he₀, Or.inr ⟨fun n hn hclosed heq ↦ ?_, fun hexpire ↦ ?_⟩⟩
  · exact not_valid_of_reportLinks h₁ he₁
      ⟨n, List.mem_filter.mpr ⟨hn, decide_eq_true hclosed⟩, heq⟩ hvalid
  · rw [if_pos hexpire] at h₂
    obtain ⟨o, r', ho, hr', heq⟩ := reportLinks_cons h₂
    rw [heq, ← Option.some_inj.mp hr'] at he
    have hgone : (r₁.1.m_routingTable.purge now).find a.src = none := by
      by_contra hfound
      exact not_valid_of_sendRerrWhenBreaksLinkToNextHop ho he (Or.inr ⟨hvia e he₀, hfound⟩) hvalid
    obtain ⟨hlife, hbad, hsome⟩ :=
      (find_neighbor_eq_none_iff h₁ (ne_of_mem_closed hnew) hS hSvia hSvalid).mp hgone
    exact ⟨hlife, hbad, filter_closed_ne_nil.mp hsome⟩

end Neighbors

/-! ## The routes back -/

section Routes

variable {t : RoutingTable} {rreqHeader : RreqHeader}

theorem getDestination_reverseEntry :
    (reverseEntry c now a rreqHeader ((t.purge now).find rreqHeader.m_origin)).getDestination =
      rreqHeader.m_origin := by
  cases hfound : (t.purge now).find rreqHeader.m_origin with
  | none => rfl
  | some toOrigin =>
    show toOrigin.getDestination = _
    exact RoutingTable.getDestination_of_find hfound

theorem find_reverseRoute :
    (reverseRoute c now a t rreqHeader).1.find rreqHeader.m_origin =
      some (reverseEntry c now a rreqHeader ((t.purge now).find rreqHeader.m_origin)).resetRreqCnt := by
  have hdest := @getDestination_reverseEntry c now a t rreqHeader
  rw [reverseRoute]
  rw [show (t.lookupRoute rreqHeader.m_origin now).2 = (t.purge now).find rreqHeader.m_origin from rfl]
  cases hfound : (t.purge now).find rreqHeader.m_origin with
  | none =>
    rw [hfound] at hdest
    exact (RoutingTable.find_addRoute ((congrArg (t.purge now).find hdest).trans hfound)).trans
      (if_pos hdest.symm)
  | some toOrigin =>
    rw [hfound] at hdest
    exact RoutingTable.find_update.trans
      (if_pos ⟨hdest.symm, (congrArg Option.isSome hfound).trans rfl⟩)

theorem badLinkLifetime_reverseRoute :
    (reverseRoute c now a t rreqHeader).1.m_badLinkLifetime = t.m_badLinkLifetime := by
  rw [reverseRoute]
  cases (t.lookupRoute rreqHeader.m_origin now).2 with
  | none => exact RoutingTable.addRoute_badLinkLifetime
  | some toOrigin => exact RoutingTable.update_badLinkLifetime

theorem getDestination_neighborEntry :
    (neighborEntry c now a rreqHeader ((t.purge now).find a.src)).getDestination = a.src := by
  cases hfound : (t.purge now).find a.src with
  | none => rfl
  | some toNeighbor =>
    show toNeighbor.getDestination = _
    exact RoutingTable.getDestination_of_find hfound

theorem find_routeToNeighbor :
    (∃ S, (routeToNeighbor c now a t rreqHeader).find a.src = some S ∧ S.getNextHop = a.src ∧
      S.m_flag = .VALID ∧ S.getLifeTime now = c.m_activeRouteTimeout) ∧
    ∀ k ≠ a.src, ∃ t', (t.purge now).PurgedTo now t' ∧
      (routeToNeighbor c now a t rreqHeader).find k = t'.find k := by
  have hdest := @getDestination_neighborEntry c now a t rreqHeader
  rw [routeToNeighbor]
  rw [show (t.lookupRoute a.src now).2 = (t.purge now).find a.src from rfl]
  cases hfound : (t.purge now).find a.src with
  | none =>
    rw [hfound] at hdest
    have hadd : ∀ k, ((t.purge now).addRoute (neighborEntry c now a rreqHeader none) now).1.find k = _ :=
      fun k ↦ RoutingTable.find_addRoute ((congrArg (t.purge now).find hdest).trans hfound)
    refine ⟨⟨_, (hadd _).trans (if_pos hdest.symm), rfl, rfl, ?_⟩, fun k hk ↦ ?_⟩
    · exact add_sub_cancel_right _ _
    · exact ⟨_, .purge _ now, (hadd k).trans (if_neg fun h ↦ hk (h.trans hdest))⟩
  | some toNeighbor =>
    rw [hfound] at hdest
    have hupdate : ∀ k,
        ((t.purge now).update (neighborEntry c now a rreqHeader (some toNeighbor))).1.find k = _ :=
      fun k ↦ RoutingTable.find_update
    have hsome := (congrArg Option.isSome hfound).trans rfl
    refine ⟨⟨_, (hupdate _).trans (if_pos ⟨hdest.symm, hsome⟩), rfl, rfl, ?_⟩, fun k hk ↦ ?_⟩
    · exact add_sub_cancel_right _ _
    · exact ⟨_, .refl _ now, (hupdate k).trans (if_neg fun h ↦ hk (h.1.trans hdest))⟩

theorem badLinkLifetime_routeToNeighbor :
    (routeToNeighbor c now a t rreqHeader).m_badLinkLifetime = t.m_badLinkLifetime := by
  rw [routeToNeighbor]
  cases (t.lookupRoute a.src now).2 with
  | none => exact RoutingTable.addRoute_badLinkLifetime
  | some toNeighbor => exact RoutingTable.update_badLinkLifetime

end Routes

/-! ## The answer -/

section Answer

variable {s : RoutingProtocol} {rreqHeader : RreqHeader} {toOrigin : RoutingTableEntry}
  {r : RoutingProtocol × List Sent}

/-- The entries are the same but for the precursors and the count of requests. -/
def SameRoute (e e' : RoutingTableEntry) : Prop :=
  e' = { e with m_precursorList := e'.m_precursorList, m_reqCount := e'.m_reqCount }

theorem sameRoute_insertPrecursor (e : RoutingTableEntry) (id : Ipv4Address) :
    SameRoute e (e.insertPrecursor id).resetRreqCnt := by
  rw [RoutingTableEntry.insertPrecursor, RoutingTableEntry.resetRreqCnt]
  split_ifs <;> rfl

theorem getDestination_insertPrecursor (e : RoutingTableEntry) (id : Ipv4Address) :
    (e.insertPrecursor id).getDestination = e.getDestination := by
  rw [RoutingTableEntry.insertPrecursor]
  split_ifs <;> rfl

theorem table_of_sendReply (h : sendReply c s rreqHeader toOrigin = some r) :
    r.1.m_routingTable = s.m_routingTable := by
  rw [sendReply] at h
  by_cases hsocket : toOrigin.m_iface ∈ s.m_socketAddresses
  · rw [if_pos hsocket] at h
    rw [← Option.some_inj.mp h]
  · rw [if_neg hsocket] at h
    exact absurd h (Option.some_ne_none _).symm

theorem table_of_sendReplyByIntermediateNode {toDst : RoutingTableEntry} {gratRep : Bool}
    (h : sendReplyByIntermediateNode now s toDst toOrigin gratRep = some r) :
    ∃ t, s.m_routingTable.PurgedTo now t ∧
      r.1.m_routingTable = ((t.update (toDst.insertPrecursor toOrigin.getNextHop)).1.update
        (toOrigin.insertPrecursor toDst.getNextHop)).1 := by
  rw [sendReplyByIntermediateNode] at h
  by_cases hsocket : toOrigin.m_iface ∈ s.m_socketAddresses ∧
      (gratRep → toDst.m_iface ∈ s.m_socketAddresses)
  · rw [if_pos hsocket] at h
    refine ⟨_, ?_, congrArg (fun r ↦ r.1.m_routingTable) (Option.some_inj.mp h).symm⟩
    split_ifs
    · exact RoutingTable.lookupRoute_purgedTo _ _ _
    · exact .refl _ _
  · rw [if_neg hsocket] at h
    exact absurd h (Option.some_ne_none _).symm

/-- **What the answer does to the table**: it is purged, and an intermediate node's reply stores two
entries with their precursors. -/
theorem table_of_answerRequest (h : answerRequest c now a s rreqHeader toOrigin = some r) :
    s.m_routingTable.PurgedTo now r.1.m_routingTable ∨
      ∃ t t' toDst id id', s.m_routingTable.PurgedTo now t ∧ t.PurgedTo now t' ∧
        r.1.m_routingTable = ((t'.update (RoutingTableEntry.insertPrecursor toDst id)).1.update
          (RoutingTableEntry.insertPrecursor ((t.find rreqHeader.m_origin).getD toOrigin) id')).1 := by
  have hpurge := RoutingTable.PurgedTo.purge s.m_routingTable now
  rw [answerRequest] at h
  split_ifs at h
  · rw [table_of_sendReply h]
    exact Or.inl hpurge
  · cases hfound : (s.m_routingTable.lookupRoute rreqHeader.m_dst now).2 with
    | none =>
      simp only [hfound] at h
      rw [← Option.some_inj.mp h]
      exact Or.inl hpurge
    | some toDst =>
      simp only [hfound] at h
      split_ifs at h
      · rw [← Option.some_inj.mp h]
        exact Or.inl hpurge
      · obtain ⟨t', ht', htable⟩ := table_of_sendReplyByIntermediateNode h
        exact Or.inr ⟨_, t', toDst, _, _, hpurge.trans (.purge _ now), ht', htable⟩
      · rw [← Option.some_inj.mp h]
        exact Or.inl hpurge
      · rw [← Option.some_inj.mp h]
        exact Or.inl hpurge

theorem find_of_answerRequest (h : answerRequest c now a s rreqHeader toOrigin = some r)
    (he : s.m_routingTable.find rreqHeader.m_origin = some e) (hlive : 0 ≤ e.getLifeTime now) :
    ∃ e', r.1.m_routingTable.find rreqHeader.m_origin = some e' ∧ SameRoute e e' := by
  obtain hpurged | ⟨t, t', toDst, id, id', ht, ht', htable⟩ := table_of_answerRequest h
  · exact ⟨e, hpurged.find_of_live he hlive, rfl⟩
  · have hfind := ht.find_of_live he hlive
    have hsome : ((t'.update (toDst.insertPrecursor id)).1.find rreqHeader.m_origin).isSome := by
      rw [RoutingTable.find_update]
      split_ifs
      · rfl
      · rw [ht'.find_of_live hfind hlive, Option.isSome_some]
    have hdest : rreqHeader.m_origin = (e.insertPrecursor id').getDestination :=
      ((getDestination_insertPrecursor e id').trans (RoutingTable.getDestination_of_find he)).symm
    refine ⟨_, ?_, sameRoute_insertPrecursor e id'⟩
    rw [htable, hfind, Option.getD_some, RoutingTable.find_update, if_pos ⟨hdest, hsome⟩]

theorem of_valid_answerRequest (h : answerRequest c now a s rreqHeader toOrigin = some r)
    (he : r.1.m_routingTable.find rreqHeader.m_origin = some e) (hvalid : e.m_flag = .VALID) :
    ∃ e₀, s.m_routingTable.find rreqHeader.m_origin = some e₀ ∧ e₀.m_flag = .VALID := by
  obtain hpurged | ⟨t, t', toDst, id, id', ht, ht', htable⟩ := table_of_answerRequest h
  · exact ⟨e, hpurged.find_of_valid he hvalid, hvalid⟩
  rw [htable, RoutingTable.find_update] at he
  cases hfound : t.find rreqHeader.m_origin with
  | none =>
    -- an entry that is gone is not stored again
    have hnone : (t'.update (toDst.insertPrecursor id)).1.find rreqHeader.m_origin = none := by
      rw [RoutingTable.find_update, ht'.find_none hfound, if_neg (not_and_of_not_right _ (by decide))]
    rw [hnone, if_neg (not_and_of_not_right _ (by decide))] at he
    exact absurd he (Option.some_ne_none _).symm
  | some e₀ =>
    have hdest : rreqHeader.m_origin = (e₀.insertPrecursor id').getDestination :=
      ((getDestination_insertPrecursor e₀ id').trans (RoutingTable.getDestination_of_find hfound)).symm
    rw [hfound, Option.getD_some] at he
    by_cases hsome : ((t'.update (toDst.insertPrecursor id)).1.find rreqHeader.m_origin).isSome
    · rw [if_pos ⟨hdest, hsome⟩] at he
      have hvalid₀ : e₀.m_flag = .VALID := by
        have hsame := sameRoute_insertPrecursor e₀ id'
        rw [Option.some_inj.mp he] at hsame
        exact (congrArg RoutingTableEntry.m_flag hsame).symm.trans hvalid
      exact ⟨e₀, ht.find_of_valid hfound hvalid₀, hvalid₀⟩
    · rw [if_neg (not_and_of_not_right _ hsome)] at he
      exact absurd (Option.isSome_iff_exists.mpr ⟨e, he⟩) hsome

end Answer

/-! ## The reverse route -/

section Reverse

variable {s : RoutingProtocol} {rreqHeader : RreqHeader} {previous : Option RoutingTableEntry}
  {e' : RoutingTableEntry}

theorem not_newer_self (n : UInt32) : ¬ Newer n n := by
  rw [Newer, Int32.sub_self]
  exact Int32.lt_irrefl

theorem Newer.not_newer {m n : UInt32} (h : Newer m n) : ¬ Newer n m := by
  rw [Newer, Int32.lt_iff_toInt_lt, Int32.toInt_sub] at h ⊢
  have hm := m.toInt32.le_toInt
  have hn := n.toInt32.toInt_lt
  have hm' := m.toInt32.toInt_lt
  have hn' := n.toInt32.le_toInt
  simp only [Int32.toInt_zero, Int.bmod_def] at h ⊢
  omega

/-- The request, with its hop count incremented. -/
def RreqHeader.oneHopMore (rreqHeader : RreqHeader) : RreqHeader :=
  { rreqHeader with m_hopCount := rreqHeader.m_hopCount + 1 }

/-- A usable reverse route over the neighbour. -/
structure UsableReverseRoute (src : Ipv4Address) (rreqHeader : RreqHeader)
    (previous : Option RoutingTableEntry) (e : RoutingTableEntry) : Prop where
  valid : e.m_flag = .VALID
  nextHop : e.getNextHop = src
  hops : e.m_hops.toNat = rreqHeader.m_hopCount.toNat + 1
  validSeqNo : e.m_validSeqNo = true
  seqNo : ¬ Newer rreqHeader.m_originSeqNo e.m_seqNo
  previousSeqNo : ∀ p, previous = some p → p.m_validSeqNo = true → ¬ Newer p.m_seqNo e.m_seqNo

/-- What has to be there before: an entry that is valid already, or none and a lifetime for a new one. -/
def EntryReady (c : Attributes) (rreqHeader : RreqHeader) : Option RoutingTableEntry → Prop
  | none => 0 ≤ reverseLifeTime c (rreqHeader.m_hopCount + 1)
  | some e => e.m_flag = .VALID

instance (c : Attributes) (rreqHeader : RreqHeader) : DecidablePred (EntryReady c rreqHeader)
  | none => inferInstanceAs (Decidable (_ ≤ _))
  | some _ => inferInstanceAs (Decidable (_ = _))

/-- **The condition for a usable reverse route**, on the state before. -/
structure KeepsReverseRoute (c : Attributes) (now : ℤ) (a : Arrival) (s : RoutingProtocol)
    (rreqHeader : RreqHeader) : Prop where
  hops : rreqHeader.m_hopCount < 255
  comparable : rreqHeader.ComparableWith ((s.seen now).find rreqHeader.m_origin)
  entry : EntryReady c rreqHeader ((s.seen now).find rreqHeader.m_origin)
  links : LinksStay now s a.src rreqHeader.m_origin c.m_activeRouteTimeout
    (c.m_allowedHelloLoss.toNat * c.m_helloInterval)

theorem SameRoute.trans {e₁ e₂ e₃ : RoutingTableEntry} (h : SameRoute e₁ e₂) (h' : SameRoute e₂ e₃) :
    SameRoute e₁ e₃ := by
  rw [SameRoute, h', h]

theorem sameRoute_resetRreqCnt (e : RoutingTableEntry) : SameRoute e e.resetRreqCnt := by
  rw [RoutingTableEntry.resetRreqCnt]
  split_ifs <;> rfl

theorem reverseEntry_hops :
    (reverseEntry c now a rreqHeader.oneHopMore previous).m_hops.toNat =
      (rreqHeader.m_hopCount.toNat + 1) % 256 := by
  cases previous <;> exact UInt8.toNat_add _ _

theorem reverseEntry_nextHop : (reverseEntry c now a rreqHeader previous).getNextHop = a.src := by
  cases previous <;> rfl

theorem reverseEntry_ready_iff
    (hlive : ∀ e, previous = some e → e.m_flag = .VALID → 0 ≤ e.getLifeTime now) :
    (reverseEntry c now a rreqHeader.oneHopMore previous).m_flag = .VALID ∧
        0 ≤ (reverseEntry c now a rreqHeader.oneHopMore previous).getLifeTime now ↔
      EntryReady c rreqHeader previous := by
  cases previous with
  | none =>
    rw [show (reverseEntry c now a rreqHeader.oneHopMore none).getLifeTime now =
      reverseLifeTime c (rreqHeader.m_hopCount + 1) from add_sub_cancel_right _ _]
    exact and_iff_right rfl
  | some e =>
    have hlife : (reverseEntry c now a rreqHeader.oneHopMore (some e)).getLifeTime now =
      max (reverseLifeTime c (rreqHeader.m_hopCount + 1)) (e.getLifeTime now) := add_sub_cancel_right _ _
    rw [hlife]
    exact and_iff_left_of_imp fun hvalid ↦ le_max_of_le_right (hlive e rfl hvalid)

/-- **The sequence number of the entry** is not older than the request's, nor than a valid one before. -/
theorem reverseEntry_seqNo :
    ¬ Newer rreqHeader.m_originSeqNo (reverseEntry c now a rreqHeader previous).m_seqNo ∧
      ∀ p, previous = some p → p.m_validSeqNo = true →
        ¬ Newer p.m_seqNo (reverseEntry c now a rreqHeader previous).m_seqNo := by
  cases previous with
  | none => exact ⟨not_newer_self _, fun p hp ↦ absurd hp (Option.some_ne_none p).symm⟩
  | some e =>
    by_cases hold : e.m_validSeqNo = true ∧ ¬ Newer rreqHeader.m_originSeqNo e.m_seqNo
    · rw [show (reverseEntry c now a rreqHeader (some e)).m_seqNo = e.m_seqNo from if_pos hold]
      refine ⟨hold.2, fun p hp _ ↦ ?_⟩
      rw [Option.some_inj.mp hp]
      exact not_newer_self _
    · rw [show (reverseEntry c now a rreqHeader (some e)).m_seqNo = rreqHeader.m_originSeqNo from
        if_neg hold]
      refine ⟨not_newer_self _, fun p hp hvalid ↦ ?_⟩
      rw [← Option.some_inj.mp hp] at hvalid ⊢
      exact (not_not.mp (not_and.mp hold hvalid)).not_newer

theorem usable_iff_of_sameRoute
    (h : SameRoute (reverseEntry c now a rreqHeader.oneHopMore previous) e')
    (hvalid : (reverseEntry c now a rreqHeader.oneHopMore previous).m_flag = .VALID) :
    UsableReverseRoute a.src rreqHeader previous e' ↔ rreqHeader.m_hopCount < 255 := by
  have hhops : e'.m_hops.toNat = (rreqHeader.m_hopCount.toNat + 1) % 256 := by
    rw [h]
    exact reverseEntry_hops
  have hlt : rreqHeader.m_hopCount < 255 ↔ rreqHeader.m_hopCount.toNat < 255 := UInt8.lt_iff_toNat_lt
  have hseqNo : e'.m_seqNo = (reverseEntry c now a rreqHeader.oneHopMore previous).m_seqNo := by rw [h]
  obtain ⟨hnew, hold⟩ := @reverseEntry_seqNo c now a rreqHeader.oneHopMore previous
  constructor
  · intro husable
    have heq := husable.hops
    have hbound := rreqHeader.m_hopCount.toNat_lt
    rw [hlt]
    omega
  · intro hsmall
    refine ⟨?_, ?_, ?_, ?_, ?_, ?_⟩
    · rw [h]
      exact hvalid
    · rw [h]
      exact reverseEntry_nextHop
    · rw [hlt] at hsmall
      rw [hhops, Nat.mod_eq_of_lt (by omega)]
    · rw [h]
      cases previous <;> rfl
    · rw [hseqNo]
      exact hnew
    · rw [hseqNo]
      exact hold

theorem recvRequest_stages {r : Received} (h : recvRequest c now a s rreqHeader = some r)
    (hdiscarded : r.discarded = false) :
    rreqHeader.ComparableWith ((s.seen now).find rreqHeader.m_origin) ∧
    ∃ s₁ n r' toOrigin, s₁.m_nb = s.m_nb ∧
      s₁.m_routingTable = routeToNeighbor c now a
        (reverseRoute c now a (s.m_routingTable.purge now) rreqHeader.oneHopMore).1 rreqHeader.oneHopMore ∧
      updateNeighbors now s₁ a.src (c.m_allowedHelloLoss.toNat * c.m_helloInterval) = some n ∧
      answerRequest c now a n.1 rreqHeader.oneHopMore toOrigin = some r' ∧ r.node = r'.1 := by
  rw [recvRequest] at h
  dsimp only at h
  split_ifs at h
  · rw [← Option.some_inj.mp h] at hdiscarded
    exact absurd hdiscarded.symm Bool.false_ne_true
  · rw [← Option.some_inj.mp h] at hdiscarded
    exact absurd hdiscarded.symm Bool.false_ne_true
  · rename_i hcomparable
    obtain ⟨n, hn, h⟩ := Option.bind_eq_some_iff.mp h
    obtain ⟨r', hr', h⟩ := Option.bind_eq_some_iff.mp h
    refine ⟨hcomparable, _, n, r', _, ?_, ?_, hn, hr', ?_⟩
    · rfl
    · rfl
    · rw [← Option.some_inj.mp h]

/-- The entry of the originator through the stages: it is kept if it has time left and its links stay, and
if a valid one is there in the end, it is the one that was entered. -/
theorem recvRequest_entry {r : Received} (hne : rreqHeader.m_origin ≠ a.src)
    (h : recvRequest c now a s rreqHeader = some r) (hdiscarded : r.discarded = false) :
    let E := reverseEntry c now a rreqHeader.oneHopMore ((s.seen now).find rreqHeader.m_origin)
    let Stay := LinksStay now s a.src rreqHeader.m_origin c.m_activeRouteTimeout
      (c.m_allowedHelloLoss.toNat * c.m_helloInterval)
    (0 ≤ E.getLifeTime now → Stay →
      ∃ e, r.node.m_routingTable.find rreqHeader.m_origin = some e ∧ SameRoute E e) ∧
    ∀ e, r.node.m_routingTable.find rreqHeader.m_origin = some e → e.m_flag = .VALID →
      E.m_flag = .VALID ∧ 0 ≤ E.getLifeTime now ∧ Stay := by
  intro E Stay
  obtain ⟨-, s₁, n, r', toOrigin, hnb, htable, hn, hr', hnode⟩ := recvRequest_stages h hdiscarded
  -- the entries of the originator and of the neighbour, before the neighbour is recorded
  have hback : (reverseRoute c now a (s.m_routingTable.purge now) rreqHeader.oneHopMore).1.find
      rreqHeader.m_origin = some E.resetRreqCnt := find_reverseRoute
  have hsame := sameRoute_resetRreqCnt E
  have hlife : E.resetRreqCnt.getLifeTime now = E.getLifeTime now := by rw [hsame]; rfl
  have hvia : E.resetRreqCnt.getNextHop = a.src := by rw [hsame]; exact reverseEntry_nextHop
  obtain ⟨⟨S, hS, hSvia, hSvalid, hSlife⟩, hothers⟩ := @find_routeToNeighbor c now a
    (reverseRoute c now a (s.m_routingTable.purge now) rreqHeader.oneHopMore).1 rreqHeader.oneHopMore
  obtain ⟨t, ht, hfind⟩ := hothers rreqHeader.m_origin hne
  have ht' := (RoutingTable.PurgedTo.purge _ now).trans ht
  rw [← htable] at hS hfind
  have hbad : s₁.m_routingTable.m_badLinkLifetime = s.m_routingTable.m_badLinkLifetime := by
    rw [htable, badLinkLifetime_routeToNeighbor, badLinkLifetime_reverseRoute]
    rfl
  have hstay : LinksStay now s₁ a.src rreqHeader.m_origin (S.getLifeTime now)
      (c.m_allowedHelloLoss.toNat * c.m_helloInterval) ↔ Stay := by
    rw [LinksStay, hnb, hbad, hSlife]
    exact Iff.rfl
  rw [hnode]
  refine ⟨fun hlive hlinks ↦ ?_, fun e he hvalid ↦ ?_⟩
  · have hlive' : 0 ≤ E.resetRreqCnt.getLifeTime now := hlive.trans_eq hlife.symm
    have hfirst := hfind.trans (ht'.find_of_live hback hlive')
    have hsecond : n.1.m_routingTable.find rreqHeader.oneHopMore.m_origin = some E.resetRreqCnt :=
      find_of_updateNeighbors hn hS hSvia hSvalid hfirst hvia hlive' (hstay.mpr hlinks)
    obtain ⟨e, he, hsame'⟩ := find_of_answerRequest hr' hsecond hlive'
    exact ⟨e, he, hsame.trans hsame'⟩
  · have he : r'.1.m_routingTable.find rreqHeader.oneHopMore.m_origin = some e := he
    obtain ⟨e₁, he₁, hvalid₁⟩ := of_valid_answerRequest hr' he hvalid
    have hvia₁ : ∀ e, s₁.m_routingTable.find rreqHeader.m_origin = some e → e.getNextHop = a.src := by
      intro e he
      rw [hfind] at he
      obtain ⟨e₀, he₀, heq⟩ := ht'.nextHop_of_find he
      rw [← heq, ← Option.some_inj.mp (hback.symm.trans he₀), hvia]
    obtain ⟨he₂, hlinks⟩ := of_valid_updateNeighbors hn hS hSvia hSvalid hvia₁ he₁ hvalid₁
    rw [hfind] at he₂
    have he₃ := ht.find_of_valid he₂ hvalid₁
    rw [RoutingTable.find_purge, hback] at he₃
    obtain ⟨heq, hlive⟩ := RoutingTableEntry.of_purge_valid he₃ hvalid₁
    refine ⟨?_, hlive.trans_eq hlife, hstay.mp hlinks⟩
    rw [heq, RoutingTableEntry.resetRreqCnt_flag] at hvalid₁
    exact hvalid₁

/-- **A received request leaves a usable reverse route** if and only if its hop count can be incremented,
its sequence number is comparable, the entry was valid before, or is new with a lifetime, and no link is
reported that the route depends on. -/
theorem recvRequest_usable_iff (hne : rreqHeader.m_origin ≠ a.src)
    (hreturns : rreqHeader.ComparableWith ((s.seen now).find rreqHeader.m_origin) →
      (recvRequest c now a s rreqHeader).isSome)
    (hdiscarded : ∀ r, recvRequest c now a s rreqHeader = some r → r.discarded = false) :
    (∃ r, recvRequest c now a s rreqHeader = some r ∧
      ∃ e, r.node.m_routingTable.find rreqHeader.m_origin = some e ∧
        UsableReverseRoute a.src rreqHeader ((s.seen now).find rreqHeader.m_origin) e) ↔
    KeepsReverseRoute c now a s rreqHeader := by
  have hready := @reverseEntry_ready_iff c now a rreqHeader ((s.seen now).find rreqHeader.m_origin) <| by
    intro e he hvalid
    rw [RerrSender.seen, RoutingTable.find_purge] at he
    obtain ⟨e₀, -, hpurge⟩ := Option.bind_eq_some_iff.mp he
    obtain ⟨rfl, hlive⟩ := RoutingTableEntry.of_purge_valid hpurge hvalid
    exact hlive
  constructor
  · rintro ⟨r, h, e, he, husable⟩
    obtain ⟨hkept, hvalid⟩ := recvRequest_entry hne h (hdiscarded r h)
    obtain ⟨hflag, hlive, hlinks⟩ := hvalid e he husable.valid
    obtain ⟨e', he', hsame⟩ := hkept hlive hlinks
    rw [← Option.some_inj.mp (he.symm.trans he')] at hsame
    exact ⟨(usable_iff_of_sameRoute hsame hflag).mp husable, (recvRequest_stages h (hdiscarded r h)).1,
      hready.mp ⟨hflag, hlive⟩, hlinks⟩
  · rintro ⟨hhops, hcomparable, hentry, hlinks⟩
    obtain ⟨r, h⟩ := Option.isSome_iff_exists.mp (hreturns hcomparable)
    obtain ⟨hkept, -⟩ := recvRequest_entry hne h (hdiscarded r h)
    obtain ⟨hflag, hlive⟩ := hready.mpr hentry
    obtain ⟨e, he, hsame⟩ := hkept hlive hlinks
    exact ⟨r, h, e, he, (usable_iff_of_sameRoute hsame hflag).mpr hhops⟩

end Reverse

/-! ## An entry that was valid, and one that was not -/

/-- Intervals in milliseconds. -/
def attributes : Attributes := ⟨2800, 40, 3000, 11200, 1000, 2, 5600⟩

/-- A request for 50 from the originator 7, after three hops. -/
def request : RreqHeader := ⟨false, false, true, 3, 1, 50, 0, 7, 20⟩

/-- It comes from the neighbour 2. -/
def arrival : Arrival := ⟨2, 0, wlan 0, 5⟩

/-- A node that knows its neighbour 2, with one entry. -/
def nodeWith (e : RoutingTableEntry) : RoutingProtocol where
  toRerrSender := senderOf (tableOf [e] (List.pairwise_singleton _ _))
  m_seqNo := 0
  m_rreqIdCache := []
  m_nb := [⟨2, 100, false⟩]

theorem recvRequest_usable_iff_valid : ∃ r,
    recvRequest attributes 0 arrival (nodeWith (entryVia 7 9 11)) request = some r ∧
      ∃ e, r.node.m_routingTable.find 7 = some e ∧
        UsableReverseRoute 2 request (((nodeWith (entryVia 7 9 11)).seen 0).find 7) e := by
  have hrun : (recvRequest attributes 0 arrival (nodeWith (entryVia 7 9 11)) request).map
      Received.discarded = some false := by decide
  obtain ⟨r, hr, hdiscarded⟩ := Option.map_eq_some_iff.mp hrun
  refine (recvRequest_usable_iff (by decide) (fun _ ↦ hr ▸ rfl) fun r' hr' ↦ ?_).mpr
    ⟨by decide, by decide, by decide, Or.inl (by decide)⟩
  rw [← Option.some_inj.mp (hr.symm.trans hr'), hdiscarded]

/-- **An invalid entry is updated and stays invalid.** -/
theorem not_recvRequest_usable : ∃ r,
    recvRequest attributes 0 arrival (nodeWith ((entryVia 7 9 11).invalidate 15 0)) request = some r ∧
      r.discarded = false ∧
      ¬ ∃ e, r.node.m_routingTable.find 7 = some e ∧ UsableReverseRoute 2 request
        (((nodeWith ((entryVia 7 9 11).invalidate 15 0)).seen 0).find 7) e := by
  have hrun : (recvRequest attributes 0 arrival (nodeWith ((entryVia 7 9 11).invalidate 15 0)) request).map
      (fun r ↦ (r.discarded, (r.node.m_routingTable.find 7).map RoutingTableEntry.m_flag)) =
        some (false, some .INVALID) := by decide
  obtain ⟨r, hr, hpair⟩ := Option.map_eq_some_iff.mp hrun
  obtain ⟨hdiscarded, hflag⟩ := Prod.mk.inj hpair
  refine ⟨r, hr, hdiscarded, ?_⟩
  rintro ⟨e, he, husable⟩
  rw [he, Option.map_some, Option.some_inj, husable.valid] at hflag
  exact absurd hflag (by decide)

end Routing

end Aodv

end Ns3
