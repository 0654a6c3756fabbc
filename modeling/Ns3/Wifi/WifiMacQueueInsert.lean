import Ns3.Wifi.MacLow

/-!
# Insertion into a queue of MPDUs, with its positions

`WifiMacQueue::Insert` is given a position in a `std::list`, that is, a node of it or its end. If the
queue is full, it removes an item first, and it must not insert at that node any more. The scan for
stale items looks after this; the removal of the oldest item does not.

Here the nodes are explicit, and whatever uses a node that is not in the list has no result.
-/

namespace Ns3

namespace Wifi

/-- A `WifiMacQueueItem` on the sending side, with its retry flag and its time stamp. -/
structure OutgoingItem (α : Type*) extends WifiMacQueueItem α where
  retry : Bool
  timeStamp : ℕ
  deriving DecidableEq, Repr

/-- `WifiMacQueue::DropPolicy`. -/
inductive DropPolicy
  | dropNewest
  | dropOldest
  deriving DecidableEq, Repr

/-- A node of the list, with the size of its item. -/
structure Node (α : Type*) where
  address : ℕ
  item : OutgoingItem α
  size : ℕ
  deriving DecidableEq

/-- `ConstIterator`: a node, or the end. -/
abbrev ConstIterator := Option ℕ

/-- A `WifiMacQueue`, with its list and its counters. -/
structure PacketQueue (α : Type*) where
  m_packets : List (Node α)
  m_nPackets : ℕ
  m_nBytes : ℕ
  m_maxSize : ℕ
  m_maxDelay : ℕ
  m_dropPolicy : DropPolicy

namespace PacketQueue

variable {α : Type*} (q : PacketQueue α) (now : ℕ)

/-- The iterator to the first node of a list. -/
def first (l : List (Node α)) : ConstIterator := l.head?.map (·.address)

/-- `std::list::insert`. -/
def insertBefore : List (Node α) → ConstIterator → Node α → Option (List (Node α))
  | [], none, node => some [node]
  | [], some _, _ => none
  | x :: l, pos, node =>
    if pos = some x.address then some (node :: x :: l)
    else (insertBefore l pos node).map (x :: ·)

/-- `Queue::DoEnqueue`. -/
def doEnqueue (pos : ConstIterator) (node : Node α) : Option (Bool × PacketQueue α) :=
  if (q.m_nPackets + 1) % 2 ^ 32 > q.m_maxSize then some (false, q)
  else
    (insertBefore q.m_packets pos node).map fun l ↦ (true, { q with
      m_packets := l
      m_nBytes := (q.m_nBytes + node.size) % 2 ^ 32
      m_nPackets := (q.m_nPackets + 1) % 2 ^ 32 })

/-- `Queue::DoRemove`. -/
def doRemove (pos : ConstIterator) : Option (PacketQueue α) :=
  if q.m_nPackets = 0 then some q
  else
    (q.m_packets.find? fun x ↦ decide (pos = some x.address)).bind fun x ↦
      if x.size ≤ q.m_nBytes then some { q with
        m_packets := q.m_packets.eraseP fun x ↦ decide (pos = some x.address)
        m_nBytes := q.m_nBytes - x.size
        m_nPackets := q.m_nPackets - 1 }
      else none

/-- Whether the lifetime of an item has expired. -/
def expired (x : Node α) : Bool := decide (x.item.timeStamp + q.m_maxDelay < now)

/-- `TtlExceeded` of the node `x` that comes before `next`: the result, the iterator, and the queue. -/
def ttlExceeded (x : Node α) (next : ConstIterator) :
    Option (Bool × ConstIterator × PacketQueue α) :=
  if q.expired now x then (q.doRemove (some x.address)).map fun q ↦ (true, next, q)
  else some (false, some x.address, q)

/-- The scan of `Insert` from a node on. -/
def scan (pos : ConstIterator) (node : Node α) :
    List (Node α) → Option (Option (Bool × PacketQueue α))
  | [] => some none
  | x :: l =>
    (if some x.address = pos then q.ttlExceeded now x (first l)
      else some (false, some x.address, q)).bind fun r ↦
        if r.1 then (r.2.2.doEnqueue r.2.1 node).map some
        else
          (q.ttlExceeded now x (first l)).bind fun r ↦
            if r.1 then (r.2.2.doEnqueue pos node).map some else scan pos node l

def insert (pos : ConstIterator) (node : Node α) : Option (Bool × PacketQueue α) :=
  if q.m_nPackets < q.m_maxSize then q.doEnqueue pos node
  else
    (q.scan now pos node q.m_packets).bind fun r ↦
      match r with
      | some r => some r
      | none =>
        (if q.m_dropPolicy = .dropOldest then q.doRemove (first q.m_packets) else some q).bind
          fun q ↦ q.doEnqueue pos node

/-! ## What is claimed -/

/-- The nodes are distinct, the counters are those of the contents, and there are no more items than
there may be. -/
structure Consistent : Prop where
  nodup : (q.m_packets.map (·.address)).Nodup
  nPackets : q.m_nPackets = q.m_packets.length
  nBytes : q.m_nBytes = (q.m_packets.map (·.size)).sum
  nBytes_lt : q.m_nBytes < 2 ^ 32
  le_maxSize : q.m_packets.length ≤ q.m_maxSize
  maxSize_pos : 0 < q.m_maxSize
  maxSize_lt : q.m_maxSize < 2 ^ 32

/-- The item that makes room: a stale one if there is one, else the oldest, if it is to be dropped. -/
def dropped : Option ℕ :=
  if q.m_packets.length < q.m_maxSize then none
  else
    match q.m_packets.find? (q.expired now) with
    | some x => some x.address
    | none =>
      match q.m_dropPolicy with
      | .dropOldest => first q.m_packets
      | .dropNewest => none

/-- Whether the new item is stored. -/
def stored : Bool := decide (q.m_packets.length < q.m_maxSize) || (q.dropped now).isSome

/-- The contents afterwards, where the position is between `before` and `after`. -/
def contents (before after : List (Node α)) (node : Node α) : List (Node α) :=
  if q.stored now then
    before.filter (fun x ↦ decide (some x.address ≠ q.dropped now)) ++
      node :: after.filter fun x ↦ decide (some x.address ≠ q.dropped now)
  else before ++ after

/-- `Insert` only uses nodes that are in the list, the contents are as they should be, and so are the
counters. -/
def Safe (before after : List (Node α)) (node : Node α) : Prop :=
  ∃ q', q.insert now (first after) node = some (q.stored now, q') ∧
    q'.m_packets = q.contents now before after node ∧ q'.m_nPackets = q'.m_packets.length ∧
    q'.m_nBytes = (q'.m_packets.map (·.size)).sum

/-- The position is not the head of a full queue without stale items when the oldest one is dropped;
and nothing is counted in more than 32 bits. -/
def Allowed (before after : List (Node α)) (node : Node α) : Prop :=
  (q.m_packets.length = q.m_maxSize → (∀ x ∈ q.m_packets, q.expired now x = false) →
    (q.m_dropPolicy = .dropOldest → before ≠ []) ∧
      (q.m_dropPolicy = .dropNewest → q.m_maxSize + 1 < 2 ^ 32)) ∧
    ((q.contents now before after node).map (·.size)).sum < 2 ^ 32

/-! ## Lists -/

section Lists

variable {before after : List (Node α)} {node x : Node α}

theorem insertBefore_append (hnodup : ((before ++ after).map (·.address)).Nodup) :
    insertBefore (before ++ after) (first after) node = some (before ++ node :: after) := by
  induction before with
  | nil =>
    cases after with
    | nil => rfl
    | cons y l => exact if_pos rfl
  | cons y l ih =>
    rw [List.cons_append, List.map_cons, List.nodup_cons] at hnodup
    have hne : first after ≠ some y.address := by
      intro h
      obtain ⟨z, hz, heq⟩ := Option.map_eq_some_iff.mp h
      refine hnodup.1 (List.mem_map.mpr ⟨z, List.mem_append_right _ (List.mem_of_head? hz), heq⟩)
    rw [List.cons_append, insertBefore, if_neg hne, ih hnodup.2]
    rfl

theorem insertBefore_eq_none {l : List (Node α)} {a : ℕ} (ha : a ∉ l.map (·.address)) :
    insertBefore l (some a) node = none := by
  induction l with
  | nil => rfl
  | cons y l ih =>
    rw [List.map_cons, List.mem_cons, not_or] at ha
    rw [insertBefore, if_neg fun h ↦ ha.1 (Option.some.inj h), ih ha.2]
    rfl

theorem filter_ne {l : List (Node α)} {a : ℕ} (ha : a ∉ l.map (·.address)) :
    l.filter (fun y ↦ decide (some y.address ≠ some a)) = l := by
  rw [List.filter_eq_self]
  intro y hy
  rw [decide_eq_true_iff]
  exact fun h ↦ ha (List.mem_map.mpr ⟨y, hy, Option.some.inj h⟩)

theorem filter_ne_middle {l₁ l₂ : List (Node α)} (h₁ : x.address ∉ l₁.map (·.address))
    (h₂ : x.address ∉ l₂.map (·.address)) :
    (l₁ ++ x :: l₂).filter (fun y ↦ decide (some y.address ≠ some x.address)) = l₁ ++ l₂ := by
  rw [List.filter_append, filter_ne h₁, List.filter_cons_of_neg (by simp), filter_ne h₂]

theorem not_mem_of_nodup {l₁ l₂ : List (Node α)}
    (h : ((l₁ ++ x :: l₂).map (·.address)).Nodup) :
    x.address ∉ l₁.map (·.address) ∧ x.address ∉ l₂.map (·.address) := by
  rw [List.map_append, List.map_cons, List.nodup_middle, List.nodup_cons, List.mem_append,
    not_or] at h
  exact h.1

end Lists

/-! ## Removal and insertion -/

section Steps

variable {q} {now} {before after : List (Node α)} {node x : Node α}

/-- **`DoRemove`** of a node of the list. -/
theorem doRemove_eq (hq : q.Consistent) (heq : q.m_packets = before ++ x :: after) :
    q.doRemove (some x.address) = some { q with
      m_packets := before ++ after
      m_nBytes := q.m_nBytes - x.size
      m_nPackets := q.m_nPackets - 1 } := by
  have hnodup := hq.nodup
  rw [heq] at hnodup
  obtain ⟨hbefore, hafter⟩ := not_mem_of_nodup hnodup
  have hskip : ∀ y ∈ before, ¬decide (some x.address = some y.address) = true := by
    intro y hy
    rw [decide_eq_true_iff]
    exact fun h ↦ hbefore (List.mem_map.mpr ⟨y, hy, (Option.some.inj h).symm⟩)
  have hself : (fun y : Node α ↦ decide (some x.address = some y.address)) x = true :=
    decide_eq_true rfl
  have hfind : q.m_packets.find? (fun y ↦ decide (some x.address = some y.address)) = some x := by
    rw [heq, List.find?_append, List.find?_eq_none.mpr hskip, Option.none_or]
    exact List.find?_cons_of_pos hself
  have herase : q.m_packets.eraseP (fun y ↦ decide (some x.address = some y.address)) =
      before ++ after := by
    rw [heq, List.eraseP_append_right _ hskip]
    exact congrArg (before ++ ·) (List.eraseP_cons_of_pos hself)
  have hpos : q.m_nPackets ≠ 0 := by
    rw [hq.nPackets, heq, List.length_append, List.length_cons]
    omega
  have hsize : x.size ≤ q.m_nBytes := by
    rw [hq.nBytes, heq, List.map_append, List.sum_append, List.map_cons, List.sum_cons]
    omega
  rw [doRemove, if_neg hpos, hfind, Option.bind_some, if_pos hsize, herase]

theorem Consistent.doRemove (hq : q.Consistent) (heq : q.m_packets = before ++ x :: after) :
    Consistent { q with
      m_packets := before ++ after
      m_nBytes := q.m_nBytes - x.size
      m_nPackets := q.m_nPackets - 1 } := by
  have hnodup := hq.nodup
  have hpackets := hq.nPackets
  have hbytes := hq.nBytes
  have hle := hq.le_maxSize
  rw [heq] at hnodup hpackets hbytes hle
  rw [List.map_append, List.map_cons, List.nodup_middle, List.nodup_cons] at hnodup
  rw [List.length_append, List.length_cons] at hpackets hle
  rw [List.map_append, List.sum_append, List.map_cons, List.sum_cons] at hbytes
  refine ⟨?_, ?_, ?_, (Nat.sub_le _ _).trans_lt hq.nBytes_lt, ?_, hq.maxSize_pos, hq.maxSize_lt⟩
  · rw [List.map_append]
    exact hnodup.2
  · rw [List.length_append, hpackets]
    exact Nat.add_sub_cancel _ 1
  · rw [List.map_append, List.sum_append]
    dsimp only
    omega
  · rw [List.length_append]
    exact (Nat.le_succ _).trans hle

/-- **`DoEnqueue`** at a position of the list, if there is room. -/
theorem doEnqueue_eq (hq : q.Consistent) (heq : q.m_packets = before ++ after)
    (hroom : q.m_packets.length < q.m_maxSize) :
    q.doEnqueue (first after) node = some (true, { q with
      m_packets := before ++ node :: after
      m_nBytes := (q.m_nBytes + node.size) % 2 ^ 32
      m_nPackets := q.m_nPackets + 1 }) := by
  have hmax := hq.maxSize_lt
  have hcount : (q.m_nPackets + 1) % 2 ^ 32 = q.m_nPackets + 1 := by
    apply Nat.mod_eq_of_lt
    rw [hq.nPackets]
    omega
  have hnodup := hq.nodup
  rw [heq] at hnodup
  have hle : ¬q.m_nPackets + 1 > q.m_maxSize := by
    rw [hq.nPackets]
    omega
  rw [doEnqueue, hcount, if_neg hle, heq, insertBefore_append hnodup]
  rfl

theorem counters_iff (hq : q.Consistent) (heq : q.m_packets = before ++ after) :
    (q.m_nPackets + 1 = (before ++ node :: after).length ∧
      (q.m_nBytes + node.size) % 2 ^ 32 = ((before ++ node :: after).map (·.size)).sum) ↔
    ((before ++ node :: after).map (·.size)).sum < 2 ^ 32 := by
  have hpackets := hq.nPackets
  have hbytes := hq.nBytes
  rw [heq] at hpackets hbytes
  rw [List.length_append] at hpackets
  rw [List.map_append, List.sum_append] at hbytes
  rw [List.length_append, List.length_cons, List.map_append, List.sum_append, List.map_cons,
    List.sum_cons]
  omega

theorem scan_eq_none {pos : ConstIterator} {l : List (Node α)}
    (h : ∀ y ∈ l, q.expired now y = false) : q.scan now pos node l = some none := by
  induction l with
  | nil => rfl
  | cons y l ih =>
    rw [List.forall_mem_cons] at h
    have httl : ∀ next, q.ttlExceeded now y next = some (false, some y.address, q) := fun next ↦ by
      rw [ttlExceeded, h.1, if_neg Bool.false_ne_true]
    rw [scan, httl, ite_self, Option.bind_some, if_neg Bool.false_ne_true, Option.bind_some,
      if_neg Bool.false_ne_true, ih h.2]

theorem scan_eq_some {pos : ConstIterator} {l₁ l₂ : List (Node α)}
    (h : ∀ y ∈ l₁, q.expired now y = false) (hx : q.expired now x = true) :
    q.scan now pos node (l₁ ++ x :: l₂) = (q.doRemove (some x.address)).bind fun q' ↦
      (q'.doEnqueue (if some x.address = pos then first l₂ else pos) node).map some := by
  induction l₁ with
  | nil =>
    have httl : q.ttlExceeded now x (first l₂) =
        (q.doRemove (some x.address)).map fun q ↦ (true, first l₂, q) := by
      rw [ttlExceeded, hx, if_pos rfl]
    rw [List.nil_append, scan, httl]
    by_cases hpos : some x.address = pos
    · rw [if_pos hpos, if_pos hpos]
      cases q.doRemove (some x.address) with
      | none => rfl
      | some q' => rfl
    · rw [if_neg hpos, if_neg hpos, Option.bind_some, if_neg Bool.false_ne_true]
      cases q.doRemove (some x.address) with
      | none => rfl
      | some q' => rfl
  | cons y l₁ ih =>
    rw [List.forall_mem_cons] at h
    have httl : ∀ next, q.ttlExceeded now y next = some (false, some y.address, q) := fun next ↦ by
      rw [ttlExceeded, h.1, if_neg Bool.false_ne_true]
    rw [List.cons_append, scan, httl, ite_self, Option.bind_some, if_neg Bool.false_ne_true,
      Option.bind_some, if_neg Bool.false_ne_true, ih h.2]

/-! ## The cases of `Insert` -/

/-- `Insert` stores the item between `b` and `a`, which are left of the list. -/
theorem safe_iff_of_stored {q₁ : PacketQueue α} {b a : List (Node α)} (hq₁ : q₁.Consistent)
    (heq : q₁.m_packets = b ++ a) (hroom : q₁.m_packets.length < q₁.m_maxSize)
    (hinsert : q.insert now (first after) node = q₁.doEnqueue (first a) node)
    (hstored : q.stored now = true) (hcontents : q.contents now before after node = b ++ node :: a) :
    q.Safe now before after node ↔
      ((q.contents now before after node).map (·.size)).sum < 2 ^ 32 := by
  rw [Safe, hinsert, doEnqueue_eq hq₁ heq hroom, hstored, hcontents]
  constructor
  · rintro ⟨q', hq', -, hpackets, hbytes⟩
    obtain rfl := (Prod.mk.inj (Option.some.inj hq')).2
    exact (counters_iff hq₁ heq).mp ⟨hpackets, hbytes⟩
  · intro hlt
    obtain ⟨hpackets, hbytes⟩ := (counters_iff hq₁ heq).mpr hlt
    exact ⟨_, rfl, rfl, hpackets, hbytes⟩

theorem safe_iff_of_room (hq : q.Consistent) (heq : q.m_packets = before ++ after)
    (hroom : q.m_packets.length < q.m_maxSize) :
    q.Safe now before after node ↔ q.Allowed now before after node := by
  have hdropped : q.dropped now = none := if_pos hroom
  have hstored : q.stored now = true := by rw [stored, decide_eq_true hroom, Bool.true_or]
  have hall : ∀ l : List (Node α), l.filter (fun x ↦ decide (some x.address ≠ none)) = l :=
    fun l ↦ List.filter_eq_self.mpr fun x _ ↦ rfl
  have hcontents : q.contents now before after node = before ++ node :: after := by
    rw [contents, hstored, if_pos rfl, hdropped, hall, hall]
  have hinsert : q.insert now (first after) node = q.doEnqueue (first after) node := by
    rw [insert, if_pos (by rw [hq.nPackets]; exact hroom)]
  rw [safe_iff_of_stored hq heq hroom hinsert hstored hcontents, Allowed]
  exact (and_iff_right fun hfull ↦ absurd hfull hroom.ne).symm

theorem exists_sides {l₁ l₂ : List (Node α)} (hnodup : ((before ++ after).map (·.address)).Nodup)
    (heq : before ++ after = l₁ ++ x :: l₂) :
    ∃ b a, l₁ ++ l₂ = b ++ a ∧
      before.filter (fun y ↦ decide (some y.address ≠ some x.address)) = b ∧
      after.filter (fun y ↦ decide (some y.address ≠ some x.address)) = a ∧
      (if some x.address = first after then first l₂ else first after) = first a := by
  rcases List.append_eq_append_iff.mp heq with ⟨c, rfl, hafter⟩ | ⟨c, rfl, hafter⟩
  · subst hafter
    obtain ⟨hbefore, hl₂⟩ := not_mem_of_nodup (by rwa [← List.append_assoc] at hnodup)
    rw [List.map_append, List.mem_append, not_or] at hbefore
    refine ⟨before, c ++ l₂, List.append_assoc _ _ _, filter_ne hbefore.1,
      filter_ne_middle hbefore.2 hl₂, ?_⟩
    cases c with
    | nil => exact if_pos rfl
    | cons y c =>
      refine if_neg fun h ↦ ?_
      have hy : x.address = y.address := Option.some.inj h
      exact hbefore.2 (List.mem_map.mpr ⟨y, List.mem_cons_self, hy.symm⟩)
  · cases c with
    | nil =>
      obtain rfl : x :: l₂ = after := hafter
      rw [List.append_nil] at hnodup ⊢
      obtain ⟨hl₁, hl₂⟩ := not_mem_of_nodup hnodup
      refine ⟨l₁, l₂, rfl, filter_ne hl₁, ?_, if_pos rfl⟩
      exact @filter_ne_middle α x [] l₂ List.not_mem_nil hl₂
    | cons z c =>
      rw [List.cons_append, List.cons.injEq] at hafter
      obtain ⟨rfl, rfl⟩ := hafter
      rw [List.append_assoc, List.cons_append] at hnodup
      obtain ⟨hl₁, hrest⟩ := not_mem_of_nodup hnodup
      rw [List.map_append, List.mem_append, not_or] at hrest
      refine ⟨l₁ ++ c, after, (List.append_assoc _ _ _).symm, filter_ne_middle hl₁ hrest.1,
        filter_ne hrest.2, if_neg fun h ↦ ?_⟩
      obtain ⟨y, hy, hyx⟩ := Option.map_eq_some_iff.mp h.symm
      exact hrest.2 (List.mem_map.mpr ⟨y, List.mem_of_head? hy, hyx⟩)

theorem safe_iff_of_expired (hq : q.Consistent) (heq : q.m_packets = before ++ after)
    (hfull : q.m_packets.length = q.m_maxSize)
    (hx : q.m_packets.find? (q.expired now) = some x) :
    q.Safe now before after node ↔ q.Allowed now before after node := by
  obtain ⟨hexpired, l₁, l₂, hsplit, hl₁⟩ := List.find?_eq_some_iff_append.mp hx
  have hnodup := hq.nodup
  rw [heq] at hnodup
  obtain ⟨b, a, hrest, hb, ha, hpos⟩ := exists_sides hnodup (heq.symm.trans hsplit)
  have hroom : ¬q.m_packets.length < q.m_maxSize := hfull.not_lt
  have hdropped : q.dropped now = some x.address := by
    rw [dropped, if_neg hroom, hx]
  have hstored : q.stored now = true := by rw [stored, hdropped, Option.isSome_some, Bool.or_true]
  have hcontents : q.contents now before after node = b ++ node :: a := by
    rw [contents, hstored, if_pos rfl, hdropped, hb, ha]
  have hq₁ := hq.doRemove hsplit
  have hlive : ∀ y ∈ l₁, q.expired now y = false := fun y hy ↦ by
    have hy' := hl₁ y hy
    rwa [Bool.not_eq_true'] at hy'
  have hinsert : q.insert now (first after) node = PacketQueue.doEnqueue { q with
      m_packets := l₁ ++ l₂
      m_nBytes := q.m_nBytes - x.size
      m_nPackets := q.m_nPackets - 1 } (first a) node := by
    rw [insert, if_neg (by rw [hq.nPackets]; exact hroom)]
    conv_lhs => rw [hsplit]
    rw [scan_eq_some hlive hexpired, doRemove_eq hq hsplit, Option.bind_some, hpos]
    cases PacketQueue.doEnqueue { q with
      m_packets := l₁ ++ l₂
      m_nBytes := q.m_nBytes - x.size
      m_nPackets := q.m_nPackets - 1 } (first a) node with
    | none => rfl
    | some r => rfl
  have hlength : (l₁ ++ l₂).length < q.m_maxSize := by
    rw [← hfull, hsplit, List.length_append, List.length_append, List.length_cons]
    exact Nat.lt_succ_self _
  rw [safe_iff_of_stored hq₁ hrest hlength hinsert hstored hcontents, Allowed]
  refine (and_iff_right fun _ hall ↦ ?_).symm
  exact absurd hexpired (by rw [hall x (List.mem_of_find?_eq_some hx)]; exact Bool.false_ne_true)

theorem safe_iff_of_dropNewest (hq : q.Consistent) (heq : q.m_packets = before ++ after)
    (hfull : q.m_packets.length = q.m_maxSize) (hlive : ∀ y ∈ q.m_packets, q.expired now y = false)
    (hpolicy : q.m_dropPolicy = .dropNewest) :
    q.Safe now before after node ↔ q.Allowed now before after node := by
  have hroom : ¬q.m_packets.length < q.m_maxSize := hfull.not_lt
  have hnone : q.m_packets.find? (q.expired now) = none :=
    List.find?_eq_none.mpr fun y hy ↦ by rw [hlive y hy]; exact Bool.false_ne_true
  have hdropped : q.dropped now = none := by rw [dropped, if_neg hroom, hnone, hpolicy]
  have hstored : q.stored now = false := by
    rw [stored, decide_eq_false hroom, hdropped]
    rfl
  have hcontents : q.contents now before after node = q.m_packets := by
    rw [contents, hstored, if_neg Bool.false_ne_true, heq]
  have hinsert : q.insert now (first after) node = q.doEnqueue (first after) node := by
    rw [insert, if_neg (by rw [hq.nPackets]; exact hroom), scan_eq_none hlive, Option.bind_some]
    dsimp only
    rw [if_neg (by rw [hpolicy]; exact DropPolicy.noConfusion), Option.bind_some]
  have hmax := hq.maxSize_lt
  have hallowed : q.Allowed now before after node ↔ q.m_maxSize + 1 < 2 ^ 32 := by
    rw [Allowed, hcontents, ← hq.nBytes]
    constructor
    · exact fun h ↦ (h.1 hfull hlive).2 hpolicy
    · refine fun h ↦ ⟨fun _ _ ↦ ⟨fun hold ↦ ?_, fun _ ↦ h⟩, hq.nBytes_lt⟩
      exact absurd (hold.symm.trans hpolicy) DropPolicy.noConfusion
  rw [hallowed, Safe, hinsert, hstored, hcontents, doEnqueue, hq.nPackets, hfull]
  by_cases hlt : q.m_maxSize + 1 < 2 ^ 32
  · rw [Nat.mod_eq_of_lt hlt, if_pos (Nat.lt_succ_self _)]
    exact ⟨fun _ ↦ hlt, fun _ ↦ ⟨q, rfl, rfl, hq.nPackets, hq.nBytes⟩⟩
  · have hwrap : (q.m_maxSize + 1) % 2 ^ 32 = 0 := by
      rw [show q.m_maxSize + 1 = 2 ^ 32 by omega, Nat.mod_self]
    rw [hwrap, if_neg (Nat.not_lt_zero _)]
    refine ⟨?_, fun h ↦ absurd h hlt⟩
    rintro ⟨q', hq', -⟩
    obtain ⟨l, -, hl⟩ := Option.map_eq_some_iff.mp hq'
    exact absurd (Prod.mk.inj hl).1 Bool.true_eq_false.mp

theorem safe_iff_of_dropOldest (hq : q.Consistent) (heq : q.m_packets = before ++ after)
    (hfull : q.m_packets.length = q.m_maxSize) (hlive : ∀ y ∈ q.m_packets, q.expired now y = false)
    (hpolicy : q.m_dropPolicy = .dropOldest) :
    q.Safe now before after node ↔ q.Allowed now before after node := by
  have hroom : ¬q.m_packets.length < q.m_maxSize := hfull.not_lt
  have hnone : q.m_packets.find? (q.expired now) = none :=
    List.find?_eq_none.mpr fun y hy ↦ by rw [hlive y hy]; exact Bool.false_ne_true
  obtain ⟨x, l, hx⟩ := List.exists_cons_of_length_pos (hfull ▸ hq.maxSize_pos)
  have hdropped : q.dropped now = some x.address := by
    rw [dropped, if_neg hroom, hnone, hpolicy]
    dsimp only
    rw [hx]
    rfl
  have hstored : q.stored now = true := by rw [stored, hdropped, Option.isSome_some, Bool.or_true]
  have hinsert : q.insert now (first after) node = PacketQueue.doEnqueue { q with
      m_packets := l
      m_nBytes := q.m_nBytes - x.size
      m_nPackets := q.m_nPackets - 1 } (first after) node := by
    have hremove := @doRemove_eq α q [] l x hq hx
    rw [List.nil_append] at hremove
    rw [insert, if_neg (by rw [hq.nPackets]; exact hroom), scan_eq_none hlive, Option.bind_some]
    dsimp only
    rw [if_pos hpolicy, hx]
    exact (congrArg (Option.bind · _) hremove).trans (Option.bind_some _ _)
  have hq₁ := @Consistent.doRemove α q [] l x hq hx
  have hnodup := hq.nodup
  rw [hx] at hnodup
  have hxl := (@not_mem_of_nodup α x [] l hnodup).2
  have hlength : l.length < q.m_maxSize := by
    rw [← hfull, hx]
    exact Nat.lt_succ_self _
  cases before with
  | nil =>
    obtain rfl : after = x :: l := by rw [← hx, heq, List.nil_append]
    have hmax := hq.maxSize_lt
    have hcount : ¬(q.m_nPackets - 1 + 1) % 2 ^ 32 > q.m_maxSize := by
      rw [hq.nPackets, hfull]
      omega
    have hundefined : q.insert now (first (x :: l)) node = none := by
      rw [hinsert, doEnqueue, if_neg hcount]
      exact congrArg (Option.map _) (insertBefore_eq_none hxl)
    constructor
    · rintro ⟨q', hq', -⟩
      exact absurd (hundefined.symm.trans hq') (Option.some_ne_none _).symm
    · exact fun h ↦ absurd rfl ((h.1 hfull hlive).1 hpolicy)
  | cons y b =>
    rw [hx, List.cons_append, List.cons.injEq] at heq
    obtain ⟨rfl, rfl⟩ := heq
    rw [List.map_append, List.mem_append, not_or] at hxl
    have hcontents : q.contents now (x :: b) after node = b ++ node :: after := by
      rw [contents, hstored, if_pos rfl, hdropped, filter_ne hxl.2]
      exact congrArg (· ++ _) (@filter_ne_middle α x [] b List.not_mem_nil hxl.1)
    rw [safe_iff_of_stored (b := b) (a := after) hq₁ rfl hlength hinsert hstored hcontents, Allowed]
    refine (and_iff_right fun _ _ ↦ ⟨fun _ ↦ List.cons_ne_nil x b, fun hnew ↦ ?_⟩).symm
    exact absurd (hpolicy.symm.trans hnew) DropPolicy.noConfusion

end Steps

variable {q} {now}

/-- **`Insert` is safe** just if it is not given the head of a full queue of live items of which the
oldest is dropped, and nothing is counted in more than 32 bits. -/
theorem safe_iff (hq : q.Consistent) {before after : List (Node α)}
    (hpos : q.m_packets = before ++ after) (node : Node α) :
    q.Safe now before after node ↔ q.Allowed now before after node := by
  rcases hq.le_maxSize.lt_or_eq with hroom | hfull
  · exact safe_iff_of_room hq hpos hroom
  · cases hfind : q.m_packets.find? (q.expired now) with
    | some x => exact safe_iff_of_expired hq hpos hfull hfind
    | none =>
      have hlive : ∀ y ∈ q.m_packets, q.expired now y = false := fun y hy ↦
        Bool.eq_false_iff.mpr (List.find?_eq_none.mp hfind y hy)
      cases hpolicy : q.m_dropPolicy with
      | dropNewest => exact safe_iff_of_dropNewest hq hpos hfull hlive hpolicy
      | dropOldest => exact safe_iff_of_dropOldest hq hpos hfull hlive hpolicy

/-- A full queue of one live item. -/
def full (policy : DropPolicy) : PacketQueue Unit :=
  ⟨[⟨1, ⟨⟨0, 0, false, ()⟩, false, 0⟩, 100⟩], 1, 100, 1, 500, policy⟩

theorem full_consistent (policy : DropPolicy) : (full policy).Consistent :=
  ⟨List.nodup_singleton 1, rfl, rfl, (by decide : 100 < 2 ^ 32), le_rfl, Nat.zero_lt_one,
    (by decide : 1 < 2 ^ 32)⟩

/-- The oldest item makes room for one at the end. -/
theorem safe_at_end : (full .dropOldest).Safe 0 (full .dropOldest).m_packets []
    ⟨2, ⟨⟨0, 0, false, ()⟩, false, 0⟩, 100⟩ :=
  (safe_iff (full_consistent .dropOldest) (List.append_nil _).symm _).mpr
    ⟨fun _ _ ↦ ⟨fun _ ↦ List.cons_ne_nil _ _, fun _ ↦ by decide⟩, by decide⟩

/-- An insertion at the head uses the node that has been removed. -/
theorem not_safe_at_head : ¬(full .dropOldest).Safe 0 [] (full .dropOldest).m_packets
    ⟨2, ⟨⟨0, 0, false, ()⟩, false, 0⟩, 100⟩ := by
  rintro ⟨q', hq', -⟩
  have hnone : (full .dropOldest).insert 0 (first (full .dropOldest).m_packets)
      ⟨2, ⟨⟨0, 0, false, ()⟩, false, 0⟩, 100⟩ = none := rfl
  exact absurd (hnone.symm.trans hq') (Option.some_ne_none _).symm

end PacketQueue

end Wifi

end Ns3
