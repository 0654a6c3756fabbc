import Ns3.Library.Machine
import Ns3.Library.Merged

/-!
# Object aggregation

Every `Object` belongs to an aggregate, whose members share one buffer. `AggregateObject` merges two
aggregates, `GetObject` finds the member of a given type, and `Initialize` and `Dispose` call each
member once. A lookup moves the object it finds towards the front, so that the buffer is sorted by
the number of accesses.

`Aggregation.machine` runs a program on the objects. `DoInitialize`, `DoDispose` and
`NotifyNewAggregate` are user code, which may create, aggregate and look up objects: a call of one is
a frame of the stack, its body is whatever happens until `ret`, and then the loop that called it goes
on. Freed buffers are kept: the loops over old buffers in `AggregateObject` read them, and nothing
else does.

## The invariant

The buffer of an object lists the class of the object under all pairs aggregated so far, each once
and sorted by access count. What a lookup returns depends on the types: `AggregateObject` rejects an
object if the aggregate already has a member of its type or of a type derived from it, but not if the
aggregate has a member of a type that it is derived from. Both members then answer a lookup of the
base type, and which of them is first depends on the access counts. `Orderly` excludes this
aggregation, and the overflow of the 32-bit access count.
-/

namespace Ns3

namespace Aggregation

/-! ## Types -/

/-- The type ids of objects: each has a parent, and `depth` steps lead to `ns3::Object`. -/
structure TypeHierarchy (T : Type*) where
  getParent : T → T
  object : T
  depth : T → ℕ
  depth_object : depth object = 0
  depth_parent : ∀ t, t ≠ object → depth t = depth (getParent t) + 1

namespace TypeHierarchy

variable {T : Type*} [DecidableEq T] (h : TypeHierarchy T)

/-- The search of `DoGetObject` from `cur` towards `ns3::Object`, with as much fuel as there are
steps. -/
def climb (tid : T) : ℕ → T → T
  | 0, cur => cur
  | n + 1, cur => if cur ≠ tid ∧ cur ≠ h.object then climb tid n (h.getParent cur) else cur

/-- Whether `DoGetObject` takes an object of type `t` for one of type `tid`. -/
def isA (t tid : T) : Bool := decide (h.climb tid (h.depth t) t = tid)

end TypeHierarchy

/-! ## Objects and aggregates -/

/-- `Initialize` and `Dispose`, which run the same loop, by the method they call. -/
inductive Pass
  | doInitialize
  | doDispose
  deriving DecidableEq, Repr

/-- The data of an `Object`; `m_aggregates` is the address of a buffer. -/
structure Object (T : Type*) where
  m_tid : T
  m_disposed : Bool
  m_initialized : Bool
  m_aggregates : ℕ
  m_getObjectCount : ℕ

/-- The flag that a pass sets. -/
def Object.flag {T : Type*} (o : Object T) : Pass → Bool
  | .doInitialize => o.m_initialized
  | .doDispose => o.m_disposed

def Object.setFlag {T : Type*} (o : Object T) : Pass → Object T
  | .doInitialize => { o with m_initialized := true }
  | .doDispose => { o with m_disposed := true }

/-- A running call of user code. -/
inductive Frame
  /-- `DoInitialize` or `DoDispose` of `current`, called by the pass on `x`. -/
  | pass (k : Pass) (x current : ℕ)
  /-- `NotifyNewAggregate` of object `i` in the old buffers `a` and `b`. -/
  | notify (a b i : ℕ)
  deriving DecidableEq, Repr

/-- The object that a call of a pass is running for. -/
def Frame.current? (k : Pass) : Frame → Option ℕ
  | .pass k' _ current => if k' = k then some current else none
  | .notify _ _ _ => none

/-- The objects and buffers allocated so far, and the calls that are running. -/
structure Store (T : Type*) where
  object : ℕ → Object T
  /-- Number of objects created; they have the addresses before it. -/
  created : ℕ
  buffer : ℕ → List ℕ
  /-- Number of buffers allocated. -/
  allocated : ℕ
  stack : List Frame
  /-- The pairs of accepted calls of `AggregateObject`. -/
  joined : List (ℕ × ℕ)
  /-- How often `DoInitialize` and `DoDispose` of an object have been called. -/
  calls : Pass → ℕ → ℕ
  /-- The pass that has just returned, with its object. -/
  returned : Option (Pass × ℕ)

/-- The loop of `UpdateSortedArray`, at index `j`. -/
def updateSortedArray (count : ℕ → ℕ) (buffer : List ℕ) : ℕ → List ℕ
  | 0 => buffer
  | j + 1 =>
    let tmp := buffer.getD j 0
    let current := buffer.getD (j + 1) 0
    if count tmp < count current then
      updateSortedArray count ((buffer.set j current).set (j + 1) tmp) j
    else buffer

namespace Store

variable {T : Type*} [DecidableEq T] (h : TypeHierarchy T) (s : Store T)

/-- The buffer of the aggregate of `x`. -/
def members (x : ℕ) : List ℕ := s.buffer (s.object x).m_aggregates

/-- The objects for which a pass is running. -/
def running (k : Pass) : List ℕ := s.stack.filterMap (Frame.current? k)

def count (y : ℕ) : ℕ := (s.object y).m_getObjectCount

def tid (y : ℕ) : T := (s.object y).m_tid

def createObject (t : T) : Store T :=
  { s with
    object := fun y ↦ if y = s.created then ⟨t, false, false, s.allocated, 0⟩ else s.object y
    created := s.created + 1
    buffer := fun r ↦ if r = s.allocated then [s.created] else s.buffer r
    allocated := s.allocated + 1
    returned := none }

/-- The object that `DoGetObject` finds, with the access count incremented and the buffer sorted. -/
def access (x i : ℕ) : Store T :=
  let current := (s.members x).getD i 0
  let count : ℕ → ℕ := fun y ↦ if y = current then (s.count y + 1) % 2 ^ 32 else s.count y
  { s with
    object := fun y ↦ { s.object y with m_getObjectCount := count y }
    buffer := fun r ↦
      if r = (s.object x).m_aggregates then updateSortedArray count (s.members x) i
      else s.buffer r
    returned := none }

def doGetObject (x : ℕ) (tid : T) : Option ℕ × Store T :=
  match (s.members x).findIdx? fun y ↦ h.isA (s.tid y) tid with
  | some i => (some ((s.members x).getD i 0), s.access x i)
  | none => (none, { s with returned := none })

/-- The loop of `AggregateObject` that appends the other buffer; it fails when a member has the type
of an appended object. -/
def append (x : ℕ) : List ℕ → List ℕ → Option (List ℕ)
  | [], buffer => some buffer
  | y :: rest, buffer =>
    if (s.doGetObject h x (s.tid y)).1.isSome = true then none
    else append x rest (updateSortedArray s.count (buffer ++ [y]) buffer.length)

/-- The loops of `AggregateObject` that notify the members, at index `i` of the old buffers. -/
def notify (a b i : ℕ) : Store T :=
  if i < (s.buffer a ++ s.buffer b).length then
    { s with stack := .notify a b i :: s.stack, returned := none }
  else { s with returned := none }

/-- `AggregateObject`; there is no result when it is rejected. -/
def aggregateObject (x o : ℕ) : Option (Store T) :=
  (s.append h x (s.members o) (s.members x)).map fun buffer ↦
    let aggregates := s.allocated
    let s' : Store T := { s with
      object := fun y ↦
        if y ∈ buffer then { s.object y with m_aggregates := aggregates } else s.object y
      buffer := fun r ↦ if r = aggregates then buffer else s.buffer r
      allocated := s.allocated + 1
      joined := (x, o) :: s.joined }
    s'.notify (s.object x).m_aggregates (s.object o).m_aggregates 0

/-- The loop of `Initialize` and `Dispose`, from `restart`. -/
def restart (k : Pass) (x : ℕ) : Store T :=
  match (s.members x).find? fun y ↦ !(s.object y).flag k with
  | some current =>
    { s with
      stack := .pass k x current :: s.stack
      calls := fun k' y ↦ if k' = k ∧ y = current then s.calls k' y + 1 else s.calls k' y
      returned := none }
  | none => { s with returned := some (k, x) }

/-- `DoInitialize` or `DoDispose` of `current` has returned. -/
def setFlag (k : Pass) (current : ℕ) : Store T :=
  { s with object := fun y ↦ if y = current then (s.object y).setFlag k else s.object y }

end Store

/-- What the program and the user code do. -/
inductive Op (T : Type*)
  | createObject (t : T)
  | aggregateObject (x o : ℕ)
  | getObject (x : ℕ) (t : T)
  /-- `Initialize` or `Dispose`, not by the user code that it calls. -/
  | pass (k : Pass) (x : ℕ)
  /-- The user code of the innermost call returns. -/
  | ret
  deriving DecidableEq, Repr

/-- The runs of a program. -/
def machine {T : Type*} [DecidableEq T] (h : TypeHierarchy T) : Machine (Store T) (Op T) where
  init := ⟨fun _ ↦ ⟨h.object, false, false, 0, 0⟩, 0, fun _ ↦ [], 0, [], [], fun _ _ ↦ 0, none⟩
  next s
    | .createObject t => some (s.createObject t)
    | .aggregateObject x o =>
      if x < s.created ∧ o < s.created then s.aggregateObject h x o else none
    | .getObject x t => if x < s.created then some (s.doGetObject h x t).2 else none
    | .pass k x => if s.running k = [] ∧ x < s.created then some (s.restart k x) else none
    | .ret =>
      match s.stack with
      | [] => none
      | .pass k x current :: stack =>
        some (Store.restart ({ s with stack := stack }.setFlag k current) k x)
      | .notify a b i :: stack => some (Store.notify { s with stack := stack } a b (i + 1))

/-! ## Sound aggregation -/

/-- The buffer of every object lists its aggregate, each member once and in order of access counts;
a pass calls each member at most once, and exactly once when it has returned; and each member answers
the lookup of its own type. -/
structure Sound {T : Type*} [DecidableEq T] (h : TypeHierarchy T) (s : Store T) : Prop where
  lists : ∀ x < s.created, ∀ y, y ∈ s.members x ↔ Merged s.joined x y
  shared : ∀ x < s.created, ∀ y ∈ s.members x,
    (s.object y).m_aggregates = (s.object x).m_aggregates
  nodup : ∀ x < s.created, (s.members x).Nodup
  sorted : ∀ x < s.created, (s.members x).Pairwise fun y z ↦ s.count z ≤ s.count y
  atMostOnce : ∀ k x, s.calls k x ≤ 1
  exactlyOnce : ∀ k x, s.returned = some (k, x) → ∀ y ∈ s.members x, s.calls k y = 1
  getObject : ∀ x < s.created, ∀ y ∈ s.members x, (s.doGetObject h x (s.tid y)).1 = some y

/-- The steps that keep aggregates in order: nothing is aggregated that is of a type derived from the
type of a member, and no access count overflows. -/
def Orderly {T : Type*} [DecidableEq T] (h : TypeHierarchy T) (s : Store T) : Op T → Prop
  | .aggregateObject x o =>
    ∀ y ∈ s.members x, ∀ z ∈ s.members o, h.isA (s.tid z) (s.tid y) = false
  | .getObject x t =>
    ∀ y ∈ s.members x, h.isA (s.tid y) t = true → s.count y < 2 ^ 32 - 1
  | _ => True

/-! ## Searching a type -/

section Types

variable {T : Type*} [DecidableEq T] (h : TypeHierarchy T)

theorem TypeHierarchy.isA_refl (t : T) : h.isA t t = true := by
  have hclimb : ∀ n, h.climb t n t = t := by
    rintro (_ | n)
    · rfl
    · rw [climb, if_neg fun hcur ↦ hcur.1 rfl]
  exact decide_eq_true (hclimb _)

end Types

/-! ## Sorting -/

theorem updateSortedArray_append_singleton (count : ℕ → ℕ) (l post : List ℕ) (x y : ℕ) :
    updateSortedArray count (l ++ [y] ++ x :: post) (l.length + 1) =
      if count y < count x then updateSortedArray count (l ++ x :: y :: post) l.length
      else l ++ [y] ++ x :: post := by
  have htmp : (l ++ [y] ++ x :: post).getD l.length 0 = y := by simp
  have hcur : (l ++ [y] ++ x :: post).getD (l.length + 1) 0 = x := by
    simp [List.getD_eq_getElem?_getD, List.getElem?_append_right]
  have hset : ((l ++ [y] ++ x :: post).set l.length x).set (l.length + 1) y =
      l ++ x :: y :: post := by simp
  rw [updateSortedArray, htmp, hcur, hset]

theorem updateSortedArray_perm (count : ℕ → ℕ) (x : ℕ) (l post : List ℕ) :
    (updateSortedArray count (l ++ x :: post) l.length).Perm (l ++ x :: post) := by
  induction l using List.reverseRecOn generalizing post with
  | nil => rfl
  | append_singleton l y ih =>
    rw [List.length_append, List.length_singleton, updateSortedArray_append_singleton]
    split_ifs
    · refine (ih (y :: post)).trans ?_
      rw [List.append_assoc]
      exact (List.Perm.swap y x post).append_left l
    · rfl

/-- **The loop sorts the element at its index into the elements before it.** -/
theorem updateSortedArray_sorted {count : ℕ → ℕ} {x : ℕ} {l post : List ℕ}
    (hl : l.Pairwise fun y z ↦ count z ≤ count y)
    (hpost : post.Pairwise fun y z ↦ count z ≤ count y)
    (hcross : ∀ y ∈ l, ∀ z ∈ post, count z ≤ count y) (hx : ∀ z ∈ post, count z ≤ count x) :
    (updateSortedArray count (l ++ x :: post) l.length).Pairwise
      fun y z ↦ count z ≤ count y := by
  induction l using List.reverseRecOn generalizing post with
  | nil => exact List.pairwise_cons.mpr ⟨hx, hpost⟩
  | append_singleton l y ih =>
    obtain ⟨hl', -, hy⟩ := List.pairwise_append.mp hl
    rw [List.length_append, List.length_singleton, updateSortedArray_append_singleton]
    split_ifs with hlt
    · -- `x` moves in front of `y`
      apply ih hl'
      · exact List.pairwise_cons.mpr ⟨fun z hz ↦ hcross y (by simp) z hz, hpost⟩
      · intro w hw z hz
        rcases List.mem_cons.mp hz with rfl | hz
        · exact hy w hw z List.mem_cons_self
        · exact hcross w (List.mem_append_left _ hw) z hz
      · intro z hz
        rcases List.mem_cons.mp hz with rfl | hz
        · exact hlt.le
        · exact hx z hz
    · refine List.pairwise_append.mpr ⟨hl, List.pairwise_cons.mpr ⟨hx, hpost⟩, ?_⟩
      intro w hw z hz
      rcases List.mem_cons.mp hz with rfl | hz
      · rcases List.mem_append.mp hw with hw | hw
        · exact (not_lt.mp hlt).trans (hy w hw y List.mem_cons_self)
        · rw [List.mem_singleton.mp hw]
          exact not_lt.mp hlt
      · exact hcross w hw z hz

/-! ## Lookups and merges -/

section Lookups

variable {T : Type*} [DecidableEq T] {h : TypeHierarchy T} {s : Store T} {x y : ℕ} {t : T}

theorem findIdx?_eq_some_split {α : Type*} {p : α → Bool} {l : List α} {i : ℕ} {d : α}
    (hi : l.findIdx? p = some i) :
    p (l.getD i d) = true ∧ l = l.take i ++ l.getD i d :: l.drop (i + 1) ∧ (l.take i).length = i := by
  obtain ⟨hlt, hp, -⟩ := List.findIdx?_eq_some_iff_getElem.mp hi
  rw [List.getD_eq_getElem _ _ hlt]
  refine ⟨hp, ?_, List.length_take_of_le hlt.le⟩
  rw [List.getElem_cons_drop, List.take_append_drop]

/-- What `DoGetObject` does: it finds nothing, or moves the object it finds. -/
theorem Store.doGetObject_cases (h : TypeHierarchy T) (s : Store T) (x : ℕ) (t : T) :
    (s.doGetObject h x t = (none, { s with returned := none }) ∧
      ∀ y ∈ s.members x, h.isA (s.tid y) t = false) ∨
    ∃ l y post, s.members x = l ++ y :: post ∧ h.isA (s.tid y) t = true ∧
      s.doGetObject h x t = (some y, s.access x l.length) := by
  rw [doGetObject]
  cases hi : (s.members x).findIdx? fun y ↦ h.isA (s.tid y) t with
  | none =>
    refine .inl ⟨rfl, fun y hy ↦ ?_⟩
    exact List.findIdx?_eq_none_iff.mp hi y hy
  | some i =>
    obtain ⟨hp, hsplit, hlen⟩ := findIdx?_eq_some_split (d := 0) hi
    refine .inr ⟨_, _, _, hsplit, hp, ?_⟩
    dsimp only
    rw [hlen]

theorem Store.doGetObject_eq_none (hn : (s.doGetObject h x t).1 = none) :
    ∀ y ∈ s.members x, h.isA (s.tid y) t = false := by
  rcases s.doGetObject_cases h x t with ⟨-, hy⟩ | ⟨l, y, post, -, -, heq⟩
  · exact hy
  · rw [heq] at hn
    exact absurd hn (Option.some_ne_none y)

theorem Store.doGetObject_eq_some (hs : (s.doGetObject h x t).1 = some y) :
    y ∈ s.members x ∧ h.isA (s.tid y) t = true := by
  rcases s.doGetObject_cases h x t with ⟨heq, -⟩ | ⟨l, z, post, hsplit, hz, heq⟩
  · rw [heq] at hs
    exact absurd hs.symm (Option.some_ne_none y)
  · rw [heq] at hs
    obtain rfl := Option.some.inj hs
    rw [hsplit]
    exact ⟨List.mem_append_right _ List.mem_cons_self, hz⟩

/-- An accepted merge appends the other buffer, sorted in; no member has the type of an appended
object or a type derived from it. -/
theorem Store.append_spec {rest buffer result : List ℕ}
    (hs : s.append h x rest buffer = some result) :
    (∀ y ∈ rest, ∀ z ∈ s.members x, h.isA (s.tid z) (s.tid y) = false) ∧
      result.Perm (buffer ++ rest) ∧
      ((buffer.Pairwise fun y z ↦ s.count z ≤ s.count y) →
        result.Pairwise fun y z ↦ s.count z ≤ s.count y) := by
  induction rest generalizing buffer with
  | nil =>
    obtain rfl := Option.some.inj hs
    rw [List.append_nil]
    exact ⟨fun y hy ↦ absurd hy List.not_mem_nil, .refl _, id⟩
  | cons y rest ih =>
    rw [append] at hs
    split_ifs at hs with hfound
    have hnone := doGetObject_eq_none (Option.not_isSome_iff_eq_none.mp hfound)
    obtain ⟨hrest, hperm, hsorted⟩ := ih hs
    refine ⟨fun z hz ↦ ?_, ?_, fun hb ↦ hsorted ?_⟩
    · rcases List.mem_cons.mp hz with rfl | hz
      · exact hnone
      · exact hrest z hz
    · have hins := updateSortedArray_perm s.count y buffer []
      rw [List.append_cons]
      exact hperm.trans (hins.append_right rest)
    · exact updateSortedArray_sorted hb .nil (fun _ _ _ hz ↦ absurd hz List.not_mem_nil)
        fun _ hz ↦ absurd hz List.not_mem_nil

end Lookups

/-! ## The invariant -/

/-- Every buffer lists a class of objects, none of which is taken for another. -/
structure Listed {T : Type*} [DecidableEq T] (h : TypeHierarchy T) (s : Store T) : Prop where
  lists : ∀ x < s.created, ∀ y, y ∈ s.members x ↔ Merged s.joined x y
  shared : ∀ x < s.created, ∀ y ∈ s.members x,
    (s.object y).m_aggregates = (s.object x).m_aggregates
  nodup : ∀ x < s.created, (s.members x).Nodup
  sorted : ∀ x < s.created, (s.members x).Pairwise fun y z ↦ s.count z ≤ s.count y
  apart : ∀ x < s.created, ∀ y ∈ s.members x, ∀ z ∈ s.members x, y ≠ z →
    h.isA (s.tid y) (s.tid z) = false
  joined_lt : ∀ e ∈ s.joined, e.1 < s.created ∧ e.2 < s.created
  allocated : ∀ x < s.created, (s.object x).m_aggregates < s.allocated

/-- The flag of an object is set when its call has returned, and a pass runs one call at a time. -/
structure Called {T : Type*} [DecidableEq T] (s : Store T) : Prop where
  calls : ∀ k y, s.calls k y = ((s.object y).flag k).toNat + (s.running k).count y
  running_le : ∀ k, (s.running k).length ≤ 1
  running_lt : ∀ k, ∀ y ∈ s.running k, y < s.created
  running_flag : ∀ k, ∀ y ∈ s.running k, (s.object y).flag k = false
  fresh : ∀ k x, s.created ≤ x → (s.object x).flag k = false

/-- The invariant. -/
structure Inv {T : Type*} [DecidableEq T] (h : TypeHierarchy T) (s : Store T) : Prop where
  listed : Listed h s
  called : Called s
  stack_lt : ∀ k x y, .pass k x y ∈ s.stack → x < s.created
  returned : ∀ k x, s.returned = some (k, x) → ∀ y ∈ s.members x, (s.object y).flag k = true

section Steps

variable {T : Type*} [DecidableEq T] {h : TypeHierarchy T} {s s' : Store T} {x y o : ℕ} {t : T}
  {k : Pass}

theorem Listed.congr (hl : Listed h s) (hc : s'.created = s.created) (hb : s'.buffer = s.buffer)
    (ha : s'.allocated = s.allocated) (hj : s'.joined = s.joined)
    (hobj : ∀ y, (s'.object y).m_tid = (s.object y).m_tid ∧
      (s'.object y).m_aggregates = (s.object y).m_aggregates ∧
      (s'.object y).m_getObjectCount = (s.object y).m_getObjectCount) : Listed h s' := by
  have hm : s'.members = s.members := funext fun y ↦ by
    rw [Store.members, Store.members, hb, (hobj y).2.1]
  have ht : s'.tid = s.tid := funext fun y ↦ (hobj y).1
  have hcount : s'.count = s.count := funext fun y ↦ (hobj y).2.2
  refine ⟨?_, ?_, ?_, ?_, ?_, ?_, ?_⟩
  · rw [hc, hm, hj]
    exact hl.lists
  · intro x hx y hy
    rw [(hobj y).2.1, (hobj x).2.1]
    rw [hc] at hx
    rw [hm] at hy
    exact hl.shared x hx y hy
  · rw [hc, hm]
    exact hl.nodup
  · rw [hc, hm, hcount]
    exact hl.sorted
  · rw [hc, hm, ht]
    exact hl.apart
  · rw [hc, hj]
    exact hl.joined_lt
  · intro x hx
    rw [(hobj x).2.1, ha]
    rw [hc] at hx
    exact hl.allocated x hx

theorem Listed.lt_of_merged (hl : Listed h s) (hx : x < s.created) (hy : Merged s.joined x y) :
    y < s.created := by
  rcases hy.eq_or_mem with rfl | ⟨-, c, hc | hc⟩
  · exact hx
  · exact (hl.joined_lt _ hc).1
  · exact (hl.joined_lt _ hc).2

theorem Listed.lt (hl : Listed h s) (hx : x < s.created) (hy : y ∈ s.members x) :
    y < s.created :=
  hl.lt_of_merged hx ((hl.lists x hx y).mp hy)

theorem Listed.doGetObject_tid (hl : Listed h s) (hx : x < s.created) (hy : y ∈ s.members x) :
    (s.doGetObject h x (s.tid y)).1 = some y := by
  cases hz : (s.doGetObject h x (s.tid y)).1 with
  | none =>
    have := Store.doGetObject_eq_none hz y hy
    rw [h.isA_refl] at this
    exact absurd this.symm Bool.false_ne_true
  | some z =>
    obtain ⟨hmem, hisA⟩ := Store.doGetObject_eq_some hz
    by_contra hne
    have := hl.apart x hx z hmem y hy fun heq ↦ hne (congrArg some heq)
    exact Bool.false_ne_true (this.symm.trans hisA)

/-! ### Creation -/

theorem Listed.createObject (hl : Listed h s) (t : T) : Listed h (s.createObject t) := by
  have hold : ∀ y < s.created, (s.createObject t).object y = s.object y := fun y hy ↦
    if_neg hy.ne
  have hnew : (s.createObject t).object s.created = ⟨t, false, false, s.allocated, 0⟩ := if_pos rfl
  have hm : ∀ y < s.created, (s.createObject t).members y = s.members y := fun y hy ↦ by
    rw [Store.members, hold y hy]
    exact if_neg (hl.allocated y hy).ne
  have hmnew : (s.createObject t).members s.created = [s.created] := by
    rw [Store.members, hnew]
    exact if_pos rfl
  have hcases : ∀ y < (s.createObject t).created, y < s.created ∨ y = s.created := fun y hy ↦
    Nat.lt_succ_iff_lt_or_eq.mp hy
  refine ⟨fun y hy z ↦ ?_, fun y hy z hz ↦ ?_, fun y hy ↦ ?_, fun y hy ↦ ?_,
    fun y hy z hz w hw hne ↦ ?_, fun e he ↦ ?_, fun y hy ↦ ?_⟩
  · rcases hcases y hy with hy | rfl
    · rw [hm y hy]
      exact hl.lists y hy z
    · rw [hmnew, List.mem_singleton]
      constructor
      · rintro rfl
        exact .refl _
      · intro hz
        rcases hz.eq_or_mem with heq | ⟨⟨c, hc | hc⟩, -⟩
        · exact heq.symm
        · exact absurd (hl.joined_lt _ hc).1 (lt_irrefl _)
        · exact absurd (hl.joined_lt _ hc).2 (lt_irrefl _)
  · rcases hcases y hy with hy | rfl
    · rw [hm y hy] at hz
      rw [hold y hy, hold z (hl.lt hy hz)]
      exact hl.shared y hy z hz
    · rw [hmnew, List.mem_singleton] at hz
      rw [hz]
  · rcases hcases y hy with hy | rfl
    · rw [hm y hy]
      exact hl.nodup y hy
    · rw [hmnew]
      exact List.nodup_singleton _
  · rcases hcases y hy with hy | rfl
    · rw [hm y hy]
      refine (hl.sorted y hy).imp_of_mem fun {a b} ha hb hab ↦ ?_
      rwa [Store.count, Store.count, hold a (hl.lt hy ha), hold b (hl.lt hy hb)]
    · rw [hmnew]
      exact List.pairwise_singleton _ _
  · rcases hcases y hy with hy | rfl
    · rw [hm y hy] at hz hw
      rw [Store.tid, Store.tid, hold z (hl.lt hy hz), hold w (hl.lt hy hw)]
      exact hl.apart y hy z hz w hw hne
    · rw [hmnew, List.mem_singleton] at hz hw
      exact absurd (hz.trans hw.symm) hne
  · exact (hl.joined_lt e he).imp (Nat.lt_succ_of_lt) (Nat.lt_succ_of_lt)
  · rcases hcases y hy with hy | rfl
    · rw [hold y hy]
      exact Nat.lt_succ_of_lt (hl.allocated y hy)
    · rw [hnew]
      exact Nat.lt_succ_self _

/-! ### Lookup -/

theorem pairwise_updateSortedArray {count count' : ℕ → ℕ} {l post : List ℕ}
    (hnodup : (l ++ y :: post).Nodup)
    (hsorted : (l ++ y :: post).Pairwise fun z w ↦ count w ≤ count z)
    (hne : ∀ z, z ≠ y → count' z = count z) (hle : count y ≤ count' y) :
    (updateSortedArray count' (l ++ y :: post) l.length).Pairwise
      fun z w ↦ count' w ≤ count' z := by
  have hy := List.nodup_middle.mp hnodup
  have hnotin : ∀ z ∈ l ++ post, z ≠ y := fun z hz heq ↦
    (List.nodup_cons.mp hy).1 (heq ▸ hz)
  have hl : ∀ z ∈ l, count' z = count z := fun z hz ↦
    hne z (hnotin z (List.mem_append_left _ hz))
  have hpost : ∀ z ∈ post, count' z = count z := fun z hz ↦
    hne z (hnotin z (List.mem_append_right _ hz))
  obtain ⟨hsl, hsy, hcross⟩ := List.pairwise_append.mp hsorted
  obtain ⟨hsy, hspost⟩ := List.pairwise_cons.mp hsy
  apply updateSortedArray_sorted
  · refine hsl.imp_of_mem fun ha hb hab ↦ ?_
    rwa [hl _ ha, hl _ hb]
  · refine hspost.imp_of_mem fun ha hb hab ↦ ?_
    rwa [hpost _ ha, hpost _ hb]
  · intro z hz w hw
    rw [hl z hz, hpost w hw]
    exact hcross z hz w (List.mem_cons_of_mem _ hw)
  · intro z hz
    rw [hpost z hz]
    exact (hsy z hz).trans hle

theorem Store.access_object {l post : List ℕ} (hsplit : s.members x = l ++ y :: post) (z : ℕ) :
    (s.access x l.length).object z = { s.object z with
      m_getObjectCount := if z = y then (s.count z + 1) % 2 ^ 32 else s.count z } := by
  have hcur : (s.members x).getD l.length 0 = y := by rw [hsplit]; simp
  rw [access, hcur]

theorem Store.access_members {l post : List ℕ} (hsplit : s.members x = l ++ y :: post) (z : ℕ) :
    (s.access x l.length).members z =
      if (s.object z).m_aggregates = (s.object x).m_aggregates then
        updateSortedArray (s.access x l.length).count (s.members x) l.length
      else s.members z := by
  have hcount : (s.access x l.length).count = fun z ↦
      if z = (s.members x).getD l.length 0 then (s.count z + 1) % 2 ^ 32 else s.count z := rfl
  rw [members, hcount, Store.access_object hsplit]
  rfl

theorem Listed.access (hl : Listed h s) (hx : x < s.created) {l post : List ℕ}
    (hsplit : s.members x = l ++ y :: post) (hlt : s.count y < 2 ^ 32 - 1) :
    Listed h (s.access x l.length) := by
  have hobj := Store.access_object hsplit
  have hne : ∀ z, z ≠ y → (s.access x l.length).count z = s.count z := fun z hz ↦ by
    rw [Store.count, hobj]
    exact if_neg hz
  have hself : s.count y ≤ (s.access x l.length).count y := by
    rw [Store.count, Store.count, hobj]
    refine le_of_le_of_eq (Nat.le_succ _) ((if_pos rfl).trans (Nat.mod_eq_of_lt ?_)).symm
    exact Nat.add_lt_of_lt_sub hlt
  have hperm : ∀ z, ((s.access x l.length).members z).Perm (s.members z) := fun z ↦ by
    rw [Store.access_members hsplit]
    split_ifs with hagg
    · have hz : s.members z = s.members x := congrArg s.buffer hagg
      rw [hz, hsplit]
      exact updateSortedArray_perm _ _ _ _
    · rfl
  have hagg : ∀ z, ((s.access x l.length).object z).m_aggregates = (s.object z).m_aggregates :=
    fun z ↦ by rw [hobj]
  have htid : (s.access x l.length).tid = s.tid := funext fun z ↦ by
    rw [Store.tid, hobj]
    rfl
  refine ⟨fun z hz w ↦ ?_, fun z hz w hw ↦ ?_, fun z hz ↦ ?_, fun z hz ↦ ?_,
    fun z hz w hw v hv hwv ↦ ?_, hl.joined_lt, fun z hz ↦ ?_⟩
  · rw [(hperm z).mem_iff]
    exact hl.lists z hz w
  · rw [hagg, hagg]
    exact hl.shared z hz w ((hperm z).mem_iff.mp hw)
  · exact (hperm z).nodup_iff.mpr (hl.nodup z hz)
  · rw [Store.access_members hsplit]
    split_ifs with hzx
    · rw [hsplit]
      refine pairwise_updateSortedArray ?_ ?_ hne hself
      · rw [← hsplit]
        exact hl.nodup x hx
      · rw [← hsplit]
        exact hl.sorted x hx
    · -- `y` is in another buffer
      have hzy : ∀ w ∈ s.members z, w ≠ y := by
        rintro w hw rfl
        have hwx : w ∈ s.members x := by rw [hsplit]; simp
        exact hzx ((hl.shared z hz w hw).symm.trans (hl.shared x hx w hwx))
      refine (hl.sorted z hz).imp_of_mem fun ha hb hab ↦ ?_
      rwa [hne _ (hzy _ ha), hne _ (hzy _ hb)]
  · rw [htid]
    exact hl.apart z hz w ((hperm z).mem_iff.mp hw) v ((hperm z).mem_iff.mp hv) hwv
  · rw [hagg]
    exact hl.allocated z hz

/-! ### Aggregation -/

/-- A merge keeps the order, when the merged buffer is one that `append` returns. -/
theorem Listed.merge (hl : Listed h s) (hx : x < s.created) (ho : o < s.created) {buffer : List ℕ}
    (hs : s.append h x (s.members o) (s.members x) = some buffer)
    (hok : ∀ y ∈ s.members x, ∀ z ∈ s.members o, h.isA (s.tid z) (s.tid y) = false) :
    Listed h { s with
      object := fun y ↦
        if y ∈ buffer then { s.object y with m_aggregates := s.allocated } else s.object y
      buffer := fun r ↦ if r = s.allocated then buffer else s.buffer r
      allocated := s.allocated + 1
      joined := (x, o) :: s.joined } := by
  obtain ⟨hreject, hperm, hsorted⟩ := Store.append_spec hs
  have hmem : ∀ w, w ∈ buffer ↔ Merged s.joined x w ∨ Merged s.joined o w := fun w ↦ by
    rw [hperm.mem_iff, List.mem_append, hl.lists x hx, hl.lists o ho]
  have hdisj : (s.members x).Disjoint (s.members o) := fun w hwx hwo ↦ by
    have := hreject w hwo w hwx
    rw [h.isA_refl] at this
    exact Bool.false_ne_true this.symm
  set s' : Store T := { s with
    object := fun y ↦
      if y ∈ buffer then { s.object y with m_aggregates := s.allocated } else s.object y
    buffer := fun r ↦ if r = s.allocated then buffer else s.buffer r
    allocated := s.allocated + 1
    joined := (x, o) :: s.joined } with hs'
  have hagg : ∀ z, (s'.object z).m_aggregates =
      if z ∈ buffer then s.allocated else (s.object z).m_aggregates := fun z ↦ by
    rw [hs']
    dsimp only
    split_ifs <;> rfl
  have htid : s'.tid = s.tid := funext fun z ↦ by
    rw [Store.tid, hs']
    dsimp only
    split_ifs <;> rfl
  have hcount : s'.count = s.count := funext fun z ↦ by
    rw [Store.count, hs']
    dsimp only
    split_ifs <;> rfl
  have hin : ∀ z ∈ buffer, s'.members z = buffer := fun z hz ↦ by
    rw [Store.members, hagg, if_pos hz]
    exact if_pos rfl
  have hout : ∀ z < s.created, z ∉ buffer → s'.members z = s.members z := fun z hz hzb ↦ by
    rw [Store.members, hagg, if_neg hzb]
    exact if_neg (hl.allocated z hz).ne
  refine ⟨fun z hz w ↦ ?_, fun z hz w hw ↦ ?_, fun z hz ↦ ?_, fun z hz ↦ ?_,
    fun z hz w hw v hv hwv ↦ ?_, fun e he ↦ ?_, fun z hz ↦ ?_⟩
  · change _ ↔ Merged ((x, o) :: s.joined) z w
    rw [merged_cons_iff]
    by_cases hzb : z ∈ buffer
    · rw [hin z hzb, hmem]
      rcases (hmem z).mp hzb with hxz | hoz
      · constructor
        · rintro (hw | hw)
          · exact .inl (hxz.symm.trans hw)
          · exact .inr (.inl ⟨hxz.symm, hw⟩)
        · rintro (hw | ⟨-, hw⟩ | ⟨-, hw⟩)
          · exact .inl (hxz.trans hw)
          · exact .inr hw
          · exact .inl hw
      · constructor
        · rintro (hw | hw)
          · exact .inr (.inr ⟨hoz.symm, hw⟩)
          · exact .inl (hoz.symm.trans hw)
        · rintro (hw | ⟨-, hw⟩ | ⟨-, hw⟩)
          · exact .inr (hoz.trans hw)
          · exact .inr hw
          · exact .inl hw
    · rw [hout z hz hzb, hl.lists z hz]
      constructor
      · exact .inl
      · rintro (hw | ⟨hzx, -⟩ | ⟨hzo, -⟩)
        · exact hw
        · exact absurd ((hmem z).mpr (.inl hzx.symm)) hzb
        · exact absurd ((hmem z).mpr (.inr hzo.symm)) hzb
  · by_cases hzb : z ∈ buffer
    · rw [hin z hzb] at hw
      rw [hagg, hagg, if_pos hzb, if_pos hw]
    · rw [hout z hz hzb] at hw
      have hwb : w ∉ buffer := fun hwb ↦ by
        have hzw := (hl.lists z hz w).mp hw
        refine hzb ((hmem z).mpr ?_)
        exact ((hmem w).mp hwb).imp (·.trans hzw.symm) (·.trans hzw.symm)
      rw [hagg, hagg, if_neg hzb, if_neg hwb]
      exact hl.shared z hz w hw
  · by_cases hzb : z ∈ buffer
    · rw [hin z hzb]
      exact hperm.nodup_iff.mpr ((hl.nodup x hx).append (hl.nodup o ho) hdisj)
    · rw [hout z hz hzb]
      exact hl.nodup z hz
  · rw [hcount]
    by_cases hzb : z ∈ buffer
    · rw [hin z hzb]
      exact hsorted (hl.sorted x hx)
    · rw [hout z hz hzb]
      exact hl.sorted z hz
  · rw [htid]
    by_cases hzb : z ∈ buffer
    · rw [hin z hzb, hperm.mem_iff, List.mem_append] at hw hv
      rcases hw with hw | hw <;> rcases hv with hv | hv
      · exact hl.apart x hx w hw v hv hwv
      · exact hreject v hv w hw
      · exact hok v hv w hw
      · exact hl.apart o ho w hw v hv hwv
    · rw [hout z hz hzb] at hw hv
      exact hl.apart z hz w hw v hv hwv
  · rcases List.mem_cons.mp he with rfl | he
    · exact ⟨hx, ho⟩
    · exact hl.joined_lt e he
  · rw [hagg]
    split_ifs
    · exact Nat.lt_succ_self _
    · exact Nat.lt_succ_of_lt (hl.allocated z hz)

/-! ### Passes -/

theorem Called.congr (hc : Called s) (hcreated : s.created ≤ s'.created)
    (hcalls : s'.calls = s.calls) (hrunning : ∀ k, s'.running k = s.running k)
    (hflag : ∀ k y, (s'.object y).flag k = (s.object y).flag k) : Called s' where
  calls k y := by
    rw [hcalls, hrunning, hflag]
    exact hc.calls k y
  running_le k := by
    rw [hrunning]
    exact hc.running_le k
  running_lt k y hy := by
    rw [hrunning] at hy
    exact (hc.running_lt k y hy).trans_le hcreated
  running_flag k y hy := by
    rw [hrunning] at hy
    rw [hflag]
    exact hc.running_flag k y hy
  fresh k x hx := by
    rw [hflag]
    exact hc.fresh k x (hcreated.trans hx)

theorem Called.calls_le (hc : Called s) (k : Pass) (y : ℕ) : s.calls k y ≤ 1 := by
  rw [hc.calls]
  by_cases hy : y ∈ s.running k
  · rw [hc.running_flag k y hy]
    have := hc.running_le k
    have := (s.running k).count_le_length (a := y)
    rw [Bool.toNat_false]
    omega
  · rw [List.count_eq_zero.mpr hy]
    exact Bool.toNat_le _

theorem Called.calls_eq_one (hc : Called s) (hy : (s.object y).flag k = true) :
    s.calls k y = 1 := by
  have hnot : y ∉ s.running k := fun hmem ↦
    Bool.false_ne_true ((hc.running_flag k y hmem).symm.trans hy)
  rw [hc.calls, hy, List.count_eq_zero.mpr hnot]
  rfl

theorem Called.push (hc : Called s) (hk : s.running k = []) (hy : y < s.created)
    (hflag : (s.object y).flag k = false) {r : Option (Pass × ℕ)} : Called { s with
      stack := .pass k x y :: s.stack
      calls := fun k' z ↦ if k' = k ∧ z = y then s.calls k' z + 1 else s.calls k' z
      returned := r } := by
  set s' : Store T := { s with
    stack := .pass k x y :: s.stack
    calls := fun k' z ↦ if k' = k ∧ z = y then s.calls k' z + 1 else s.calls k' z
    returned := r } with hs'
  have hself : s'.running k = [y] := by
    rw [Store.running, List.filterMap_cons, Frame.current?, if_pos rfl]
    exact congrArg (y :: ·) hk
  have hother : ∀ k', k' ≠ k → s'.running k' = s.running k' := fun k' hk' ↦ by
    rw [Store.running, List.filterMap_cons, Frame.current?, if_neg hk'.symm]
    rfl
  refine ⟨fun k' z ↦ ?_, fun k' ↦ ?_, fun k' z hz ↦ ?_, fun k' z hz ↦ ?_, hc.fresh⟩
  · have hcalls := hc.calls k' z
    change (if k' = k ∧ z = y then s.calls k' z + 1 else s.calls k' z) =
      ((s.object z).flag k').toNat + _
    by_cases hk' : k' = k
    · subst hk'
      rw [hk, List.count_nil] at hcalls
      rw [hself, List.count_singleton, hcalls]
      by_cases hz : z = y
      · simp [hz]
      · simp [hz, Ne.symm hz]
    · rw [if_neg fun hand ↦ hk' hand.1, hother k' hk']
      exact hcalls
  · by_cases hk' : k' = k
    · rw [hk', hself]
      exact le_rfl
    · rw [hother k' hk']
      exact hc.running_le k'
  · by_cases hk' : k' = k
    · rw [hk', hself, List.mem_singleton] at hz
      rw [hz]
      exact hy
    · rw [hother k' hk'] at hz
      exact hc.running_lt k' z hz
  · by_cases hk' : k' = k
    · rw [hk', hself, List.mem_singleton] at hz
      rw [hz, hk']
      exact hflag
    · rw [hother k' hk'] at hz
      exact hc.running_flag k' z hz

theorem Called.pop (hc : Called s) {stack : List Frame} (hstack : s.stack = .pass k x y :: stack) :
    Called ({ s with stack := stack }.setFlag k y : Store T) ∧
      ({ s with stack := stack }.setFlag k y : Store T).running k = [] := by
  set s' : Store T := { s with stack := stack }.setFlag k y with hs'
  have hrun : s.running k = y :: s'.running k := by
    rw [Store.running, hstack, List.filterMap_cons, Frame.current?, if_pos rfl]
    rfl
  have hself : s'.running k = [] := by
    have := hc.running_le k
    rw [hrun, List.length_cons] at this
    exact List.length_eq_zero_iff.mp (by omega)
  have hother : ∀ k', k' ≠ k → s'.running k' = s.running k' := fun k' hk' ↦ by
    rw [Store.running, Store.running, hstack, List.filterMap_cons, Frame.current?,
      if_neg hk'.symm]
    rfl
  have hflag : ∀ k' z, (s'.object z).flag k' =
      if k' = k ∧ z = y then true else (s.object z).flag k' := fun k' z ↦ by
    rw [hs', Store.setFlag]
    dsimp only
    split_ifs with hz hand hand
    · rw [hand.1]
      cases k <;> rfl
    · have hk' : k' ≠ k := fun heq ↦ hand ⟨heq, hz⟩
      cases k <;> cases k' <;> first | rfl | exact absurd rfl hk'
    · exact absurd hand.2 hz
    · rfl
  refine ⟨⟨fun k' z ↦ ?_, fun k' ↦ ?_, fun k' z hz ↦ ?_, fun k' z hz ↦ ?_, fun k' z hz ↦ ?_⟩,
    hself⟩
  · have hcalls := hc.calls k' z
    change s.calls k' z = _
    rw [hflag, hcalls]
    by_cases hk' : k' = k
    · subst hk'
      rw [hrun, hself, List.count_singleton, List.count_nil]
      by_cases hz : z = y
      · have hfalse := hc.running_flag k' y (by rw [hrun]; exact List.mem_cons_self)
        simp [hz, hfalse]
      · simp [hz, Ne.symm hz]
    · rw [if_neg fun hand ↦ hk' hand.1, hother k' hk']
  · by_cases hk' : k' = k
    · rw [hk', hself]
      exact Nat.zero_le _
    · rw [hother k' hk']
      exact hc.running_le k'
  · by_cases hk' : k' = k
    · rw [hk', hself] at hz
      exact absurd hz List.not_mem_nil
    · rw [hother k' hk'] at hz
      exact hc.running_lt k' z hz
  · by_cases hk' : k' = k
    · rw [hk', hself] at hz
      exact absurd hz List.not_mem_nil
    · rw [hother k' hk'] at hz
      rw [hflag, if_neg fun hand ↦ hk' hand.1]
      exact hc.running_flag k' z hz
  · have hy : y < s.created := hc.running_lt k y (by rw [hrun]; exact List.mem_cons_self)
    rw [hflag, if_neg fun hand : _ ∧ z = y ↦ hy.not_ge (hand.2 ▸ hz)]
    exact hc.fresh k' z hz

theorem Inv.restart (hl : Listed h s) (hc : Called s)
    (hstack : ∀ k x y, .pass k x y ∈ s.stack → x < s.created) (hx : x < s.created)
    (hk : s.running k = []) : Inv h (s.restart k x) := by
  rw [Store.restart]
  cases hf : (s.members x).find? fun y ↦ !(s.object y).flag k with
  | none =>
    refine ⟨hl.congr rfl rfl rfl rfl fun _ ↦ ⟨rfl, rfl, rfl⟩,
      hc.congr le_rfl rfl (fun _ ↦ rfl) fun _ _ ↦ rfl, hstack,
      fun k' x' heq y hy ↦ ?_⟩
    obtain ⟨rfl, rfl⟩ := Prod.mk.inj (Option.some.inj heq)
    simpa using List.find?_eq_none.mp hf y hy
  | some current =>
    have hflag : (s.object current).flag k = false := by simpa using List.find?_some hf
    refine ⟨hl.congr rfl rfl rfl rfl fun _ ↦ ⟨rfl, rfl, rfl⟩,
      hc.push hk (hl.lt hx (List.mem_of_find?_eq_some hf)) hflag,
      fun k' x' y hmem ↦ ?_, fun k' x' heq ↦ absurd heq.symm (Option.some_ne_none _)⟩
    rcases List.mem_cons.mp hmem with heq | hmem
    · obtain ⟨-, rfl, -⟩ := Frame.pass.inj heq
      exact hx
    · exact hstack k' x' y hmem

/-- Any step from an invariant state that only changes aggregates. -/
theorem Inv.of_listed (hi : Inv h s) (hl : Listed h s') (hcreated : s.created ≤ s'.created)
    (hcalls : s'.calls = s.calls) (hstack : s'.stack = s.stack)
    (hflag : ∀ k y, (s'.object y).flag k = (s.object y).flag k) (hret : s'.returned = none) :
    Inv h s' := by
  refine ⟨hl, hi.called.congr hcreated hcalls (fun k ↦ ?_) hflag, fun k x y hmem ↦ ?_,
    fun k x heq ↦ ?_⟩
  · rw [Store.running, Store.running, hstack]
  · rw [hstack] at hmem
    exact (hi.stack_lt k x y hmem).trans_le hcreated
  · exact absurd (hret.symm.trans heq).symm (Option.some_ne_none _)

theorem Inv.notify (hl : Listed h s) (hc : Called s)
    (hstack : ∀ k x y, .pass k x y ∈ s.stack → x < s.created) (a b i : ℕ) :
    Inv h (s.notify a b i) := by
  rw [Store.notify]
  split_ifs
  · refine ⟨hl.congr rfl rfl rfl rfl fun _ ↦ ⟨rfl, rfl, rfl⟩,
      hc.congr le_rfl rfl (fun _ ↦ rfl) fun _ _ ↦ rfl, fun k' x' y hmem ↦ ?_,
      fun k' x' heq ↦ absurd heq.symm (Option.some_ne_none _)⟩
    rcases List.mem_cons.mp hmem with heq | hmem
    · exact Frame.noConfusion heq
    · exact hstack k' x' y hmem
  · exact ⟨hl.congr rfl rfl rfl rfl fun _ ↦ ⟨rfl, rfl, rfl⟩,
      hc.congr le_rfl rfl (fun _ ↦ rfl) fun _ _ ↦ rfl, hstack,
      fun k' x' heq ↦ absurd heq.symm (Option.some_ne_none _)⟩

theorem Inv.step_createObject (hi : Inv h s) (t : T) : Inv h (s.createObject t) := by
  refine hi.of_listed (hi.listed.createObject t) (Nat.le_succ _) rfl rfl (fun k y ↦ ?_) rfl
  rw [Store.createObject]
  dsimp only
  split_ifs with hy
  · rw [hi.called.fresh k y hy.ge]
    cases k <;> rfl
  · rfl

theorem Inv.step_getObject (hi : Inv h s) (hx : x < s.created)
    (hok : ∀ y ∈ s.members x, h.isA (s.tid y) t = true → s.count y < 2 ^ 32 - 1) :
    Inv h (s.doGetObject h x t).2 := by
  rcases s.doGetObject_cases h x t with ⟨heq, -⟩ | ⟨l, y, post, hsplit, hy, heq⟩
  · rw [heq]
    exact hi.of_listed (hi.listed.congr rfl rfl rfl rfl fun _ ↦ ⟨rfl, rfl, rfl⟩) le_rfl rfl rfl
      (fun _ _ ↦ rfl) rfl
  · have hmem : y ∈ s.members x := by
      rw [hsplit]
      exact List.mem_append_right _ List.mem_cons_self
    rw [heq]
    refine hi.of_listed (hi.listed.access hx hsplit (hok y hmem hy)) le_rfl rfl rfl
      (fun k z ↦ ?_) rfl
    rw [Store.access_object hsplit]
    cases k <;> rfl

theorem Inv.step_aggregateObject (hi : Inv h s) (hx : x < s.created) (ho : o < s.created)
    (hs : s.aggregateObject h x o = some s')
    (hok : ∀ y ∈ s.members x, ∀ z ∈ s.members o, h.isA (s.tid z) (s.tid y) = false) :
    Inv h s' := by
  obtain ⟨buffer, hbuffer, rfl⟩ := Option.map_eq_some_iff.mp hs
  refine Inv.notify (hi.listed.merge hx ho hbuffer hok)
    (hi.called.congr le_rfl rfl (fun _ ↦ rfl) fun k y ↦ ?_) hi.stack_lt _ _ _
  dsimp only
  split_ifs
  · cases k <;> rfl
  · rfl

theorem Inv.step_ret_pass (hi : Inv h s) {stack : List Frame}
    (hstack : s.stack = .pass k x y :: stack) :
    Inv h (Store.restart ({ s with stack := stack }.setFlag k y) k x) := by
  have hx : x < s.created := hi.stack_lt k x y (by rw [hstack]; exact List.mem_cons_self)
  obtain ⟨hcalled, hrunning⟩ := hi.called.pop hstack
  refine Inv.restart ?_ hcalled (fun k' x' y' hmem ↦ ?_) hx hrunning
  · refine hi.listed.congr rfl rfl rfl rfl fun z ↦ ?_
    rw [Store.setFlag]
    dsimp only
    split_ifs
    · cases k <;> exact ⟨rfl, rfl, rfl⟩
    · exact ⟨rfl, rfl, rfl⟩
  · exact hi.stack_lt k' x' y' (by rw [hstack]; exact List.mem_cons_of_mem _ hmem)

theorem Inv.step_ret_notify (hi : Inv h s) {a b i : ℕ} {stack : List Frame}
    (hstack : s.stack = .notify a b i :: stack) :
    Inv h (Store.notify { s with stack := stack } a b (i + 1)) := by
  refine Inv.notify (s := { s with stack := stack })
    (hi.listed.congr rfl rfl rfl rfl fun _ ↦ ⟨rfl, rfl, rfl⟩)
    (hi.called.congr le_rfl rfl (fun k ↦ ?_) fun _ _ ↦ rfl) (fun k x y hmem ↦ ?_) a b (i + 1)
  · rw [Store.running, Store.running, hstack]
    rfl
  · exact hi.stack_lt k x y (by rw [hstack]; exact List.mem_cons_of_mem _ hmem)

/-! ### All steps -/

theorem inv_init (h : TypeHierarchy T) : Inv h (machine h).init where
  listed :=
    { lists := fun _ hx ↦ absurd hx (Nat.not_lt_zero _)
      shared := fun _ hx ↦ absurd hx (Nat.not_lt_zero _)
      nodup := fun _ hx ↦ absurd hx (Nat.not_lt_zero _)
      sorted := fun _ hx ↦ absurd hx (Nat.not_lt_zero _)
      apart := fun _ hx ↦ absurd hx (Nat.not_lt_zero _)
      joined_lt := fun _ he ↦ absurd he List.not_mem_nil
      allocated := fun _ hx ↦ absurd hx (Nat.not_lt_zero _) }
  called :=
    { calls := fun k _ ↦ by cases k <;> rfl
      running_le := fun _ ↦ Nat.zero_le _
      running_lt := fun _ _ hy ↦ absurd hy List.not_mem_nil
      running_flag := fun _ _ hy ↦ absurd hy List.not_mem_nil
      fresh := fun k _ _ ↦ by cases k <;> rfl }
  stack_lt := fun _ _ _ hmem ↦ absurd hmem List.not_mem_nil
  returned := fun _ _ heq ↦ absurd heq.symm (Option.some_ne_none _)

theorem inv_step {op : Op T} (hi : Inv h s) (hok : Orderly h s op)
    (hs : (machine h).next s op = some s') : Inv h s' := by
  cases op with
  | createObject t =>
    simp only [machine, Option.some_inj] at hs
    rw [← hs]
    exact hi.step_createObject t
  | aggregateObject x o =>
    simp only [machine, Option.ite_none_right_eq_some] at hs
    exact hi.step_aggregateObject hs.1.1 hs.1.2 hs.2 hok
  | getObject x t =>
    simp only [machine, Option.ite_none_right_eq_some, Option.some_inj] at hs
    obtain ⟨hx, rfl⟩ := hs
    exact hi.step_getObject hx hok
  | pass k x =>
    simp only [machine, Option.ite_none_right_eq_some, Option.some_inj] at hs
    obtain ⟨⟨hk, hx⟩, rfl⟩ := hs
    exact Inv.restart hi.listed hi.called hi.stack_lt hx hk
  | ret =>
    rcases hstack : s.stack with _ | ⟨⟨k, x, y⟩ | ⟨a, b, i⟩, stack⟩ <;>
      simp only [machine, hstack, reduceCtorEq, Option.some_inj] at hs <;> rw [← hs]
    · exact hi.step_ret_pass hstack
    · exact hi.step_ret_notify hstack

theorem Inv.sound (hi : Inv h s) : Sound h s where
  lists := hi.listed.lists
  shared := hi.listed.shared
  nodup := hi.listed.nodup
  sorted := hi.listed.sorted
  atMostOnce := hi.called.calls_le
  exactlyOnce k x heq y hy := hi.called.calls_eq_one (hi.returned k x heq y hy)
  getObject _ hx _ hy := hi.listed.doGetObject_tid hx hy

end Steps

instance {T : Type*} [DecidableEq T] (h : TypeHierarchy T) (s : Store T) :
    ∀ op, Decidable (Orderly h s op)
  | .aggregateObject _ _ => inferInstanceAs (Decidable (∀ y ∈ s.members _, ∀ z ∈ s.members _, _))
  | .getObject _ _ => inferInstanceAs (Decidable (∀ y ∈ s.members _, _ → _))
  | .createObject _ | .pass _ _ | .ret => isTrue trivial

end Aggregation

end Ns3
