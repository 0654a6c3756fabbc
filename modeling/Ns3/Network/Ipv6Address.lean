import Mathlib

/-!
# Reading IPv6 addresses

An address is written as eight groups of up to four hexadecimal digits between colons, or as fewer groups
with one double colon for the groups of zeros that are missing. The parser reads the characters one by one:
a colon after digits stores a group, a colon after a colon marks where the zeros go. At the end what is
stored behind the mark is moved to the end of the address.

Split at its colons, a text is a list of fields: its groups, and an empty field where two colons meet. The
parser is a walk over the fields. It does not look whether the text ends in a colon, so it accepts a single
colon behind the last group.
-/

namespace Ns3

namespace Ipv6Address

/-! ## The parser -/

def xdigits_l : List Char := "0123456789abcdef".toList

def xdigits_u : List Char := "0123456789ABCDEF".toList

/-- The value of a hexadecimal digit, its place in one of the tables. -/
def xdigit (ch : Char) : Option ℕ := (xdigits_l.idxOf? ch).or (xdigits_u.idxOf? ch)

/-- The state of the parser: the bytes, how many of them are stored, how many were stored at the double
colon, and the number and the value of the digits of the group. -/
structure Scan where
  tmp : List UInt8
  tp : ℕ
  colonp : Option ℕ
  seen_xdigits : ℕ
  val : ℕ
deriving DecidableEq

/-- `memset (tp, 0x00, 16)`. -/
def Scan.start : Scan where
  tmp := List.replicate 16 0
  tp := 0
  colonp := none
  seen_xdigits := 0
  val := 0

/-- A group is stored, if there is room. -/
def Scan.store (s : Scan) : Option Scan :=
  if 16 - s.tp < 2 then none
  else some { s with
    tmp := (s.tmp.set s.tp (UInt8.ofNat (s.val >>> 8))).set (s.tp + 1) (UInt8.ofNat s.val)
    tp := s.tp + 2
    seen_xdigits := 0
    val := 0 }

/-- The body of the loop. -/
def Scan.next (s : Scan) (ch : Char) : Option Scan :=
  match xdigit ch with
  | some d =>
    if s.seen_xdigits + 1 > 4 then none
    else some { s with val := s.val <<< 4 ||| d, seen_xdigits := s.seen_xdigits + 1 }
  | none =>
    if ch = ':' then
      if s.seen_xdigits = 0 then
        if s.colonp.isSome then none else some { s with colonp := some s.tp }
      else s.store
    else none

/-- `for (i = 1; i <= n; i++)`: the bytes behind the double colon are moved to the end. -/
def shiftTail (tmp : List UInt8) (colonp n : ℕ) : List UInt8 :=
  (List.range' 1 n).foldl
    (fun tmp i ↦ (tmp.set (16 - i) (tmp.getD (colonp + n - i) 0)).set (colonp + n - i) 0) tmp

/-- What follows the loop. -/
def Scan.finish (s : Scan) : Option (List UInt8) := do
  let s ← if s.seen_xdigits = 0 then some s else s.store
  match s.colonp with
  | some colonp => if s.tp = 16 then none else some (shiftTail s.tmp colonp (s.tp - colonp))
  | none => if s.tp = 16 then some s.tmp else none

/-- What is read of a text that does not begin with a single colon; of a double one the first colon is
skipped. -/
def scan (address : List Char) : Option (List UInt8) := do
  let s ← address.foldlM Scan.next Scan.start
  s.finish

/-- `AsciiToIpv6Host`, of the characters before the terminator; `none` if it returns false. -/
def asciiToIpv6Host : List Char → Option (List UInt8)
  | ':' :: address => if address.head? = some ':' then scan address else none
  | address => scan address

/-! ## The text form -/

/-- A group: one to four hexadecimal digits. -/
def IsGroup (g : List Char) : Prop := 0 < g.length ∧ g.length ≤ 4 ∧ ∀ c ∈ g, (xdigit c).isSome

/-- The number that a group denotes. -/
def groupValue (g : List Char) : ℕ := g.foldl (fun v c ↦ v * 16 + (xdigit c).getD 0) 0

/-- The two bytes of a number. -/
def wordBytes (v : ℕ) : List UInt8 := [UInt8.ofNat (v / 256), UInt8.ofNat v]

/-- The bytes that groups denote. -/
def groupBytes (gs : List (List Char)) : List UInt8 := gs.flatMap fun g ↦ wordBytes (groupValue g)

/-- Groups between colons. -/
def join (gs : List (List Char)) : List Char := [':'].intercalate gs

/-- **The text forms of an address**: eight groups between colons, or fewer than eight, with one double
colon for those that are missing. -/
inductive Denotes : List Char → List UInt8 → Prop
  | full {gs : List (List Char)} (hgs : ∀ g ∈ gs, IsGroup g) (hlength : gs.length = 8) :
      Denotes (join gs) (groupBytes gs)
  | compressed {l r : List (List Char)} (hl : ∀ g ∈ l, IsGroup g) (hr : ∀ g ∈ r, IsGroup g)
      (hlength : l.length + r.length < 8) :
      Denotes (join l ++ "::".toList ++ join r)
        (groupBytes l ++ List.replicate (2 * (8 - (l.length + r.length))) 0 ++ groupBytes r)

/-! ## The digits of a group -/

theorem xdigit_colon : xdigit ':' = none := by decide

theorem xdigit_lt {c : Char} {d : ℕ} (h : xdigit c = some d) : d < 16 := by
  rw [xdigit, Option.or_eq_some_iff] at h
  rcases h with h | ⟨-, h⟩
  · exact (List.idxOf?_eq_some_iff.mp h).1
  · exact (List.idxOf?_eq_some_iff.mp h).1

theorem val_next (v : ℕ) {d : ℕ} (hd : d < 16) : v <<< 4 ||| d = v * 16 + d := by
  rw [← Nat.shiftLeft_add_eq_or_of_lt (by omega : d < 2 ^ 4), Nat.shiftLeft_eq]

theorem next_digit {s : Scan} {c : Char} {d : ℕ} (hdigit : xdigit c = some d)
    (hroom : s.seen_xdigits + 1 ≤ 4) : s.next c =
      some { s with val := s.val * 16 + d, seen_xdigits := s.seen_xdigits + 1 } := by
  rw [Scan.next, hdigit]
  dsimp only
  rw [if_neg (by omega), val_next _ (xdigit_lt hdigit)]

theorem foldlM_digits {g : List Char} : ∀ {s : Scan}, (∀ c ∈ g, (xdigit c).isSome) →
    s.seen_xdigits + g.length ≤ 4 → g.foldlM Scan.next s = some { s with
      val := g.foldl (fun v c ↦ v * 16 + (xdigit c).getD 0) s.val
      seen_xdigits := s.seen_xdigits + g.length } := by
  induction g with
  | nil => exact fun _ _ ↦ rfl
  | cons c g ih =>
    intro s hdigits hroom
    obtain ⟨d, hd⟩ := Option.isSome_iff_exists.mp (hdigits c List.mem_cons_self)
    rw [List.length_cons] at hroom
    rw [List.foldlM_cons, next_digit hd (by omega), Option.bind_eq_bind, Option.bind_some,
      ih (fun c' hc' ↦ hdigits c' (List.mem_cons_of_mem c hc')) (by dsimp only; omega), List.length_cons,
      List.foldl_cons, hd, Option.getD_some, Nat.add_right_comm, Nat.add_assoc]

theorem digits_of_foldlM {f : List Char} : ∀ {s s' : Scan}, ':' ∉ f → s.seen_xdigits ≤ 4 →
    f.foldlM Scan.next s = some s' →
      (∀ c ∈ f, (xdigit c).isSome) ∧ s.seen_xdigits + f.length ≤ 4 := by
  induction f with
  | nil => exact fun _ hseen _ ↦ ⟨fun c hc ↦ absurd hc List.not_mem_nil, hseen⟩
  | cons c f ih =>
    intro s s' hcolon hseen h
    rw [List.mem_cons, not_or] at hcolon
    rw [List.foldlM_cons, Option.bind_eq_bind, Option.bind_eq_some_iff] at h
    obtain ⟨s₁, hnext, hrest⟩ := h
    rw [Scan.next] at hnext
    rcases hdigit : xdigit c with _ | d
    · rw [hdigit] at hnext
      dsimp only at hnext
      rw [if_neg fun h ↦ hcolon.1 h.symm] at hnext
      cases hnext
    · rw [hdigit] at hnext
      dsimp only at hnext
      split_ifs at hnext with hlong
      cases hnext
      obtain ⟨hall, hlength⟩ := ih hcolon.2 (by dsimp only; omega) hrest
      refine ⟨?_, by rw [List.length_cons]; dsimp only at hlength; omega⟩
      rintro c' hc'
      rcases List.mem_cons.mp hc' with rfl | hc'
      · rw [hdigit, Option.isSome_some]
      · exact hall c' hc'

/-! ## The fields of a text -/

/-- The state after groups, with the double colon behind some of them. -/
def stored (w : List (List Char)) (colon : Option ℕ) : Scan where
  tmp := groupBytes w ++ List.replicate (16 - 2 * w.length) 0
  tp := 2 * w.length
  colonp := colon.map (2 * ·)
  seen_xdigits := 0
  val := 0

theorem start_eq : Scan.start = stored [] none := rfl

theorem length_groupBytes (gs : List (List Char)) : (groupBytes gs).length = 2 * gs.length := by
  induction gs with
  | nil => rfl
  | cons g gs ih =>
    rw [groupBytes, List.flatMap_cons, List.length_append, ← groupBytes, ih, List.length_cons, wordBytes,
      List.length_cons, List.length_singleton]
    omega

theorem groupBytes_append (gs gs' : List (List Char)) :
    groupBytes (gs ++ gs') = groupBytes gs ++ groupBytes gs' := List.flatMap_append

theorem isGroup_ne_nil {g : List Char} (hg : IsGroup g) : g ≠ [] := List.ne_nil_of_length_pos hg.1

theorem colon_not_mem {g : List Char} (hg : IsGroup g) : ':' ∉ g := by
  intro hmem
  have := hg.2.2 ':' hmem
  rw [xdigit_colon] at this
  cases this

/-- The digits of a group, read after others. -/
def digitsRead (w : List (List Char)) (colon : Option ℕ) (g : List Char) : Scan :=
  { stored w colon with val := groupValue g, seen_xdigits := g.length }

theorem foldlM_group {g : List Char} (hg : IsGroup g) (w : List (List Char)) (colon : Option ℕ) :
    g.foldlM Scan.next (stored w colon) = some (digitsRead w colon g) := by
  have hshort := hg.2.1
  have hshort := hg.2.1
  have hshort := hg.2.1
  have hshort := hg.2.1
  have hshort := hg.2.1
  have hshort := hg.2.1
  have hshort := hg.2.1
  have hshort := hg.2.1
  have hshort := hg.2.1
  have hshort := hg.2.1
  rw [foldlM_digits hg.2.2 (by dsimp only [stored]; omega), digitsRead, groupValue]
  dsimp only [stored]
  rw [Nat.zero_add]

theorem store_digitsRead {w : List (List Char)} (hroom : w.length < 8) (colon : Option ℕ) (g : List Char) :
    (digitsRead w colon g).store = some (stored (w ++ [g]) colon) := by
  have hzeros : List.replicate (16 - 2 * w.length) (0 : UInt8) =
      0 :: 0 :: List.replicate (16 - 2 * (w.length + 1)) 0 := by
    rw [← List.replicate_succ, ← List.replicate_succ]
    congr 1
    omega
  have htp : (digitsRead w colon g).tp = (groupBytes w).length := (length_groupBytes w).symm
  rw [Scan.store, if_neg (by rw [htp, length_groupBytes]; omega), Option.some_inj, stored,
    groupBytes_append, List.length_append, List.length_singleton]
  simp only [digitsRead, stored, Scan.mk.injEq, and_true]
  refine ⟨?_, by omega⟩
  rw [hzeros, ← length_groupBytes, List.set_append_right _ _ le_rfl, Nat.sub_self, List.set_cons_zero,
    List.set_append_right _ _ (Nat.le_add_right _ 1), Nat.add_sub_cancel_left, List.set_cons_succ,
    List.set_cons_zero, Nat.shiftRight_eq_div_pow, groupBytes, groupBytes, List.flatMap_singleton, wordBytes,
    List.append_assoc]
  rfl

theorem store_full {w : List (List Char)} (hfull : 8 ≤ w.length) (colon : Option ℕ) (g : List Char) :
    (digitsRead w colon g).store = none := by
  rw [Scan.store, if_pos]
  dsimp only [digitsRead, stored]
  omega

theorem next_colon_digitsRead {g : List Char} (hg : IsGroup g) (w : List (List Char)) (colon : Option ℕ) :
    (digitsRead w colon g).next ':' = (digitsRead w colon g).store := by
  have hseen : (digitsRead w colon g).seen_xdigits ≠ 0 := hg.1.ne'
  rw [Scan.next, xdigit_colon]
  dsimp only
  rw [if_pos rfl, if_neg hseen]

theorem next_colon_stored (w : List (List Char)) (colon : Option ℕ) :
    (stored w colon).next ':' = if colon = none then some (stored w (some w.length)) else none := by
  have hseen : (stored w colon).seen_xdigits = 0 := rfl
  rw [Scan.next, xdigit_colon]
  dsimp only
  rw [if_pos rfl, if_pos hseen]
  rcases colon with _ | k
  · rfl
  · rfl

/-- Fields, each with a colon behind it. -/
def terminated (fs : List (List Char)) : List Char := fs.flatMap fun f ↦ f ++ [':']

theorem terminated_cons (f : List Char) (fs : List (List Char)) :
    terminated (f :: fs) = f ++ ':' :: terminated fs := by
  rw [terminated, List.flatMap_cons, ← terminated, List.append_assoc, List.singleton_append]

theorem terminated_append (fs fs' : List (List Char)) :
    terminated (fs ++ fs') = terminated fs ++ terminated fs' := List.flatMap_append

theorem foldlM_terminated {gs : List (List Char)} : ∀ {w : List (List Char)} {colon : Option ℕ},
    (∀ g ∈ gs, IsGroup g) → w.length + gs.length ≤ 8 →
      (terminated gs).foldlM Scan.next (stored w colon) = some (stored (w ++ gs) colon) := by
  induction gs with
  | nil =>
    intro w colon _ _
    rw [List.append_nil]
    rfl
  | cons g gs ih =>
    intro w colon hgs hroom
    have hg := hgs g List.mem_cons_self
    rw [List.length_cons] at hroom
    rw [terminated_cons, List.foldlM_append, foldlM_group hg, Option.bind_eq_bind, Option.bind_some,
      List.foldlM_cons, next_colon_digitsRead hg, store_digitsRead (by omega), Option.bind_eq_bind,
      Option.bind_some, ih (fun g' hg' ↦ hgs g' (List.mem_cons_of_mem g hg')), List.append_assoc,
      List.singleton_append]
    rw [List.length_append, List.length_singleton]
    omega

theorem foldlM_terminated_nil {gs : List (List Char)} (hgs : ∀ g ∈ gs, IsGroup g)
    (hlength : gs.length ≤ 8) : (terminated gs).foldlM Scan.next (stored [] none) = some (stored gs none) :=
  foldlM_terminated hgs (by simpa using hlength)

theorem foldlM_field {f : List Char} (hf : ':' ∉ f) {w : List (List Char)} {colon : Option ℕ} {s' : Scan}
    (h : (f ++ [':']).foldlM Scan.next (stored w colon) = some s') :
    IsGroup f ∧ w.length < 8 ∧ s' = stored (w ++ [f]) colon ∨
      f = [] ∧ colon = none ∧ s' = stored w (some w.length) := by
  rcases eq_or_ne f [] with rfl | hne
  · rw [List.nil_append, List.foldlM_cons, next_colon_stored] at h
    split_ifs at h with hcolon
    · exact Or.inr ⟨rfl, hcolon, (Option.some.inj h).symm⟩
    · cases h
  left
  rw [List.foldlM_append, Option.bind_eq_bind, Option.bind_eq_some_iff] at h
  obtain ⟨s₁, hdigits, hcolon⟩ := h
  obtain ⟨hall, hshort⟩ := digits_of_foldlM hf (Nat.zero_le 4) hdigits
  have hg : IsGroup f := ⟨List.length_pos_of_ne_nil hne, by simpa [stored] using hshort, hall⟩
  obtain rfl := Option.some.inj ((foldlM_group hg w colon).symm.trans hdigits)
  rw [List.foldlM_cons, next_colon_digitsRead hg] at hcolon
  rcases lt_or_ge w.length 8 with hroom | hfull
  · rw [store_digitsRead hroom] at hcolon
    exact ⟨hg, hroom, (Option.some.inj hcolon).symm⟩
  · rw [store_full hfull] at hcolon
    cases hcolon

/-- The fields that can be read before the last one: groups, and one empty field between them. -/
theorem of_foldlM_terminated {fs : List (List Char)} :
    ∀ {w : List (List Char)} {colon : Option ℕ} {s' : Scan}, (∀ f ∈ fs, ':' ∉ f) → w.length ≤ 8 →
      (terminated fs).foldlM Scan.next (stored w colon) = some s' →
      (∀ f ∈ fs, IsGroup f) ∧ w.length + fs.length ≤ 8 ∧ s' = stored (w ++ fs) colon ∨
      ∃ l r, fs = l ++ [] :: r ∧ (∀ f ∈ l ++ r, IsGroup f) ∧ w.length + (l ++ r).length ≤ 8 ∧
        colon = none ∧ s' = stored (w ++ (l ++ r)) (some (w ++ l).length) := by
  induction fs with
  | nil =>
    intro w colon s' _ hw h
    left
    rw [List.append_nil]
    exact ⟨fun f hf ↦ absurd hf List.not_mem_nil, hw, (Option.some.inj h).symm⟩
  | cons f fs ih =>
    intro w colon s' hfs hw h
    have hfs' : ∀ f' ∈ fs, ':' ∉ f' := fun f' hf' ↦ hfs f' (List.mem_cons_of_mem f hf')
    rw [terminated_cons, ← List.singleton_append, ← List.append_assoc, List.foldlM_append,
      Option.bind_eq_bind, Option.bind_eq_some_iff] at h
    obtain ⟨s₁, hfield, hrest⟩ := h
    rcases foldlM_field (hfs f List.mem_cons_self) hfield with ⟨hg, hroom, rfl⟩ | ⟨rfl, rfl, rfl⟩
    · have hlength : (w ++ [f]).length = w.length + 1 := by rw [List.length_append, List.length_singleton]
      rcases ih hfs' (by omega) hrest with ⟨hall, hfit, rfl⟩ | ⟨l, r, rfl, hall, hfit, hcolon, rfl⟩
      · refine Or.inl ⟨List.forall_mem_cons.mpr ⟨hg, hall⟩, ?_, ?_⟩
        · rw [List.length_cons]
          omega
        · rw [List.append_assoc, List.singleton_append]
      · refine Or.inr ⟨f :: l, r, rfl, List.forall_mem_cons.mpr ⟨hg, hall⟩, ?_, hcolon, ?_⟩
        · rw [List.cons_append, List.length_cons]
          omega
        · rw [List.append_assoc, List.singleton_append, List.append_assoc, List.singleton_append,
            List.cons_append]
    · right
      rcases ih hfs' hw hrest with ⟨hall, hfit, rfl⟩ | ⟨l, r, -, -, -, hcolon, -⟩
      · refine ⟨[], fs, rfl, hall, hfit, rfl, ?_⟩
        rw [List.append_nil, List.nil_append]
      · cases hcolon

/-! ## The end of the text -/

theorem move_byte (a b : List UInt8) (x : UInt8) {z : ℕ} (hz : 0 < z) :
    (((a ++ x :: (List.replicate z 0 ++ b)).set (a.length + z)
        ((a ++ x :: (List.replicate z 0 ++ b)).getD a.length 0)).set a.length 0) =
      a ++ (List.replicate z 0 ++ x :: b) := by
  have hget : (a ++ x :: (List.replicate z 0 ++ b)).getD a.length 0 = x := by simp
  obtain ⟨n, rfl⟩ := Nat.exists_eq_succ_of_ne_zero hz.ne'
  have hsplit : List.replicate (n + 1) (0 : UInt8) ++ b = List.replicate n 0 ++ 0 :: b := by
    rw [List.replicate_succ', List.append_assoc, List.singleton_append]
  rw [hget, hsplit, List.set_append_right _ _ (Nat.le_add_right _ _), Nat.add_sub_cancel_left,
    List.set_cons_succ, List.set_append_right _ _ le_rfl, Nat.sub_self, List.set_cons_zero,
    List.set_append_right _ _ List.length_replicate.le, List.length_replicate, Nat.sub_self,
    List.set_cons_zero, List.replicate_succ, List.cons_append]

/-- The bytes behind the double colon are moved to the end, over the zeros. -/
theorem shiftTail_eq (a b : List UInt8) {z : ℕ} (hz : 0 < z) (hlength : a.length + b.length + z = 16) :
    shiftTail (a ++ b ++ List.replicate z 0) a.length b.length = a ++ List.replicate z 0 ++ b := by
  -- After `k` steps the last `k` bytes are where they belong.
  have key : ∀ k ≤ b.length, (List.range' 1 k).foldl
      (fun tmp i ↦ (tmp.set (16 - i) (tmp.getD (a.length + b.length - i) 0)).set
        (a.length + b.length - i) 0) (a ++ b ++ List.replicate z 0) =
      a ++ b.take (b.length - k) ++ List.replicate z 0 ++ b.drop (b.length - k) := by
    intro k
    induction k with
    | zero =>
      intro _
      rw [Nat.sub_zero, List.take_length, List.drop_length, List.append_nil]
      rfl
    | succ k ih =>
      intro hk
      rw [List.range'_1_concat, List.foldl_append, ih (by omega)]
      -- The byte at place `m` is the next one.
      obtain ⟨m, hm⟩ : ∃ m, b.length - k = m + 1 := ⟨b.length - k - 1, by omega⟩
      have hmb : m < b.length := by omega
      have htake : b.take (m + 1) = b.take m ++ [b[m]] := List.take_succ_eq_append_getElem hmb
      have hdrop : b.drop m = b[m] :: b.drop (m + 1) := List.drop_eq_getElem_cons hmb
      have hsource : a.length + b.length - (1 + k) = (a ++ b.take m).length := by
        rw [List.length_append, List.length_take]
        omega
      have hdest : 16 - (1 + k) = (a ++ b.take m).length + z := by
        rw [List.length_append, List.length_take]
        omega
      have hlist : a ++ b.take (m + 1) ++ List.replicate z 0 ++ b.drop (m + 1) =
          (a ++ b.take m) ++ b[m] :: (List.replicate z 0 ++ b.drop (m + 1)) := by
        rw [htake]
        simp only [List.append_assoc, List.cons_append, List.nil_append]
      have hmove := move_byte (a ++ b.take m) (b.drop (m + 1)) b[m] hz
      rw [List.foldl_cons, List.foldl_nil, hm, hlist, hsource, hdest, hmove,
        show b.length - (k + 1) = m by omega, hdrop, List.append_assoc (a ++ b.take m)]
  have hall := key b.length le_rfl
  rw [Nat.sub_self, List.take_zero, List.drop_zero, List.append_nil] at hall
  exact hall

/-- The bytes of groups with zeros at the double colon. -/
def expand (w : List (List Char)) : Option ℕ → List UInt8
  | none => groupBytes w
  | some k => groupBytes (w.take k) ++ List.replicate (16 - 2 * w.length) 0 ++ groupBytes (w.drop k)

/-- Eight groups, or fewer with a double colon. -/
def Complete (w : List (List Char)) : Option ℕ → Prop
  | none => w.length = 8
  | some _ => w.length < 8

theorem finish_stored {w : List (List Char)} (hw : w.length ≤ 8) {colon : Option ℕ}
    (hcolon : ∀ k ∈ colon, k ≤ w.length) {b : List UInt8} :
    (stored w colon).finish = some b ↔ Complete w colon ∧ b = expand w colon := by
  have hseen : (stored w colon).seen_xdigits = 0 := rfl
  rw [Scan.finish, if_pos hseen, Option.bind_eq_bind, Option.bind_some]
  rcases colon with _ | k
  · change (if 2 * w.length = 16 then some (stored w none).tmp else none) = some b ↔
      w.length = 8 ∧ b = groupBytes w
    by_cases hfull : w.length = 8
    · have htmp : (stored w none).tmp = groupBytes w := by
        rw [stored, hfull]
        exact List.append_nil _
      rw [if_pos (by omega), htmp, Option.some_inj, eq_comm]
      exact ⟨fun h ↦ ⟨hfull, h⟩, fun h ↦ h.2⟩
    · rw [if_neg (by omega)]
      exact ⟨fun h ↦ (Option.some_ne_none b h.symm).elim, fun h ↦ absurd h.1 hfull⟩
  · have hk := hcolon k rfl
    change (if 2 * w.length = 16 then none
      else some (shiftTail (stored w (some k)).tmp (2 * k) (2 * w.length - 2 * k))) = some b ↔
      w.length < 8 ∧ b = expand w (some k)
    by_cases hfull : w.length = 8
    · rw [if_pos (by omega)]
      exact ⟨fun h ↦ (Option.some_ne_none b h.symm).elim, fun h ↦ by omega⟩
    · have hsplit : groupBytes w = groupBytes (w.take k) ++ groupBytes (w.drop k) := by
        rw [← groupBytes_append, List.take_append_drop]
      have hleft : (groupBytes (w.take k)).length = 2 * k := by
        rw [length_groupBytes, List.length_take, min_eq_left hk]
      have hright : (groupBytes (w.drop k)).length = 2 * w.length - 2 * k := by
        rw [length_groupBytes, List.length_drop]
        omega
      have hshift : shiftTail (stored w (some k)).tmp (2 * k) (2 * w.length - 2 * k) =
          expand w (some k) := by
        rw [stored, expand, hsplit, ← hright, ← hleft]
        exact shiftTail_eq _ _ (by omega) (by omega)
      rw [if_neg (by omega), hshift, Option.some_inj, eq_comm]
      exact ⟨fun h ↦ ⟨by omega, h⟩, fun h ↦ h.2⟩

theorem finish_digitsRead {g : List Char} (hg : IsGroup g) {w : List (List Char)} {colon : Option ℕ}
    (hcolon : ∀ k ∈ colon, k ≤ w.length) {b : List UInt8} :
    (digitsRead w colon g).finish = some b ↔
      Complete (w ++ [g]) colon ∧ b = expand (w ++ [g]) colon := by
  have hseen : (digitsRead w colon g).seen_xdigits ≠ 0 := hg.1.ne'
  rw [Scan.finish, if_neg hseen]
  rcases lt_or_ge w.length 8 with hroom | hfull
  · have hlength : (w ++ [g]).length = w.length + 1 := by rw [List.length_append, List.length_singleton]
    have hseen' : (stored (w ++ [g]) colon).seen_xdigits = 0 := rfl
    rw [store_digitsRead hroom, Option.bind_eq_bind, Option.bind_some,
      ← finish_stored (by omega) fun k hk ↦ (hcolon k hk).trans (by omega), Scan.finish, if_pos hseen']
    rfl
  · rw [store_full hfull]
    refine ⟨fun h ↦ (Option.some_ne_none b h.symm).elim, fun h ↦ ?_⟩
    have hnot : ¬ Complete (w ++ [g]) colon := by
      have hlength : (w ++ [g]).length = w.length + 1 := by
        rw [List.length_append, List.length_singleton]
      rcases colon with _ | k
      · rw [Complete]
        omega
      · rw [Complete]
        omega
    exact absurd h.1 hnot

/-! ## What is accepted -/

theorem join_append (fs : List (List Char)) (f : List Char) :
    join (fs ++ [f]) = terminated fs ++ f := by
  induction fs with
  | nil =>
    rw [List.nil_append, join, List.intercalate_singleton, terminated, List.flatMap_nil, List.nil_append]
  | cons f' fs ih =>
    obtain ⟨f₁, fs₁, heq⟩ := List.exists_cons_of_ne_nil (List.concat_ne_nil f fs)
    rw [List.cons_append, heq, join, List.intercalate_cons_cons, ← heq, ← join, ih, terminated_cons]
    simp

/-- Every text is fields with a colon behind them, and one more field. -/
theorem exists_fields (s : List Char) :
    ∃ fs f, s = terminated fs ++ f ∧ (∀ f' ∈ fs, ':' ∉ f') ∧ ':' ∉ f := by
  induction s with
  | nil => exact ⟨[], [], rfl, fun _ h ↦ absurd h List.not_mem_nil, List.not_mem_nil⟩
  | cons c s ih =>
    obtain ⟨fs, f, rfl, hfs, hf⟩ := ih
    rcases eq_or_ne c ':' with rfl | hc
    · refine ⟨[] :: fs, f, ?_, List.forall_mem_cons.mpr ⟨List.not_mem_nil, hfs⟩, hf⟩
      rw [terminated_cons, List.nil_append, List.cons_append]
    rcases fs with _ | ⟨f₁, fs⟩
    · refine ⟨[], c :: f, rfl, hfs, ?_⟩
      rw [List.mem_cons, not_or]
      exact ⟨hc.symm, hf⟩
    · rw [List.forall_mem_cons] at hfs
      refine ⟨(c :: f₁) :: fs, f, ?_, List.forall_mem_cons.mpr ⟨?_, hfs.2⟩, hf⟩
      · rw [terminated_cons, terminated_cons, List.cons_append, List.cons_append]
      · rw [List.mem_cons, not_or]
        exact ⟨hc.symm, hfs.1⟩

/-- How the fields before the last one are read: as groups, or as groups with one empty field. -/
inductive Walk : List (List Char) → List (List Char) → Option ℕ → Prop
  | groups {gs : List (List Char)} (hgs : ∀ g ∈ gs, IsGroup g) (hlength : gs.length ≤ 8) : Walk gs gs none
  | double {l r : List (List Char)} (hgs : ∀ g ∈ l ++ r, IsGroup g) (hlength : (l ++ r).length ≤ 8) :
      Walk (l ++ [] :: r) (l ++ r) (some l.length)

theorem Walk.le {fs w : List (List Char)} {colon : Option ℕ} (h : Walk fs w colon) :
    w.length ≤ 8 ∧ ∀ k ∈ colon, k ≤ w.length := by
  cases h with
  | groups hgs hlength => exact ⟨hlength, fun k hk ↦ by cases hk⟩
  | @double l r hgs hlength =>
    refine ⟨hlength, fun k hk ↦ ?_⟩
    cases hk
    rw [List.length_append]
    exact Nat.le_add_right _ _

theorem foldlM_terminated_iff {fs : List (List Char)} (hfs : ∀ f ∈ fs, ':' ∉ f) {s' : Scan} :
    (terminated fs).foldlM Scan.next Scan.start = some s' ↔
      ∃ w colon, Walk fs w colon ∧ s' = stored w colon := by
  rw [start_eq]
  constructor
  · intro h
    rcases of_foldlM_terminated (w := []) hfs (Nat.zero_le 8) h with
      ⟨hall, hlength, rfl⟩ | ⟨l, r, rfl, hall, hlength, -, rfl⟩
    · exact ⟨fs, none, .groups hall (by simpa using hlength), rfl⟩
    · exact ⟨l ++ r, some l.length, .double hall (by simpa using hlength), rfl⟩
  · rintro ⟨w, colon, hwalk, rfl⟩
    cases hwalk with
    | groups hgs hlength =>
      exact foldlM_terminated_nil hgs hlength
    | @double l r hgs hlength =>
      rw [List.forall_mem_append] at hgs
      rw [List.length_append] at hlength
      have hleft := foldlM_terminated_nil hgs.1 (by omega)
      rw [terminated_append, List.foldlM_append, hleft, Option.bind_eq_bind, Option.bind_some,
        terminated_cons, List.nil_append, List.foldlM_cons, next_colon_stored, if_pos rfl,
        Option.bind_eq_bind, Option.bind_some]
      exact foldlM_terminated hgs.2 hlength

theorem scan_iff {fs : List (List Char)} {f : List Char} (hfs : ∀ f' ∈ fs, ':' ∉ f') (hf : ':' ∉ f)
    {b : List UInt8} : scan (terminated fs ++ f) = some b ↔ ∃ w colon, Walk fs w colon ∧
      (f = [] ∧ Complete w colon ∧ b = expand w colon ∨
        IsGroup f ∧ Complete (w ++ [f]) colon ∧ b = expand (w ++ [f]) colon) := by
  rw [scan, Option.bind_eq_bind, Option.bind_eq_some_iff]
  constructor
  · rintro ⟨s, hs, hfinish⟩
    rw [List.foldlM_append, Option.bind_eq_bind, Option.bind_eq_some_iff] at hs
    obtain ⟨s₁, hread, hlast⟩ := hs
    obtain ⟨w, colon, hwalk, rfl⟩ := (foldlM_terminated_iff hfs).mp hread
    obtain ⟨hw, hcolon⟩ := hwalk.le
    refine ⟨w, colon, hwalk, ?_⟩
    rcases eq_or_ne f [] with rfl | hne
    · obtain rfl := Option.some.inj hlast
      exact Or.inl ⟨rfl, (finish_stored hw hcolon).mp hfinish⟩
    · obtain ⟨hall, hshort⟩ := digits_of_foldlM hf (Nat.zero_le 4) hlast
      have hg : IsGroup f := ⟨List.length_pos_of_ne_nil hne, by simpa [stored] using hshort, hall⟩
      obtain rfl := Option.some.inj ((foldlM_group hg w colon).symm.trans hlast)
      exact Or.inr ⟨hg, (finish_digitsRead hg hcolon).mp hfinish⟩
  · rintro ⟨w, colon, hwalk, hlast⟩
    obtain ⟨hw, hcolon⟩ := hwalk.le
    have hread := (foldlM_terminated_iff hfs).mpr ⟨w, colon, hwalk, rfl⟩
    rcases hlast with ⟨rfl, hdone⟩ | ⟨hg, hdone⟩
    · refine ⟨stored w colon, ?_, (finish_stored hw hcolon).mpr hdone⟩
      rw [List.append_nil, hread]
    · refine ⟨digitsRead w colon f, ?_, (finish_digitsRead hg hcolon).mpr hdone⟩
      rw [List.foldlM_append, hread, Option.bind_eq_bind, Option.bind_some, foldlM_group hg]

/-! ## The beginning of a text -/

theorem asciiToIpv6Host_of_head {s : List Char} (h : s.head? ≠ some ':') : asciiToIpv6Host s = scan s := by
  rw [asciiToIpv6Host.eq_def]
  split
  · exact absurd rfl h
  · rfl

theorem head?_terminated {g : List Char} (hg : IsGroup g) (gs : List (List Char)) (t : List Char) :
    (terminated (g :: gs) ++ t).head? ≠ some ':' := by
  obtain ⟨c, g', rfl⟩ := List.exists_cons_of_ne_nil (isGroup_ne_nil hg)
  rw [terminated_cons, List.cons_append, List.cons_append, List.head?_cons, Ne, Option.some_inj]
  rintro rfl
  exact colon_not_mem hg List.mem_cons_self

theorem join_append_colon {gs : List (List Char)} (hne : gs ≠ []) : join gs ++ [':'] = terminated gs := by
  rcases List.eq_nil_or_concat gs with rfl | ⟨fs, f, rfl⟩
  · exact absurd rfl hne
  · rw [List.concat_eq_append, join_append, terminated_append, List.append_assoc, terminated_cons]
    rfl

theorem join_append_double (l : List (List Char)) (t : List Char) (hne : l ≠ []) :
    join l ++ "::".toList ++ t = terminated (l ++ [[]]) ++ t := by
  have hcolons : "::".toList = [':'] ++ [':'] := rfl
  rw [hcolons, ← List.append_assoc, join_append_colon hne, terminated_append]
  rfl

theorem terminated_double (l r : List (List Char)) (f : List Char) :
    terminated (l ++ [] :: r) ++ f = terminated (l ++ [[]]) ++ (terminated r ++ f) := by
  rw [← List.singleton_append, ← List.append_assoc l, terminated_append, List.append_assoc]

theorem asciiToIpv6Host_double {l : List (List Char)} (hl : ∀ g ∈ l, IsGroup g) (t : List Char) :
    asciiToIpv6Host (join l ++ "::".toList ++ t) = scan (terminated (l ++ [[]]) ++ t) := by
  rcases l with _ | ⟨g, l⟩
  · rfl
  · rw [join_append_double _ _ (List.cons_ne_nil g l), List.cons_append]
    exact asciiToIpv6Host_of_head (head?_terminated (hl g List.mem_cons_self) _ _)

theorem expand_double (l r : List (List Char)) : expand (l ++ r) (some l.length) =
    groupBytes l ++ List.replicate (2 * (8 - (l.length + r.length))) 0 ++ groupBytes r := by
  have hzeros : 16 - 2 * (l.length + r.length) = 2 * (8 - (l.length + r.length)) := by omega
  rw [expand, List.take_left, List.drop_left, List.length_append, hzeros]

/-! ## The texts that are accepted -/

/-- The last character is a digit. -/
def EndsInDigit (s : List Char) : Prop := ∃ c ∈ s.getLast?, (xdigit c).isSome

theorem endsInDigit_append {g : List Char} (hg : IsGroup g) (s : List Char) : EndsInDigit (s ++ g) := by
  have hlast : (s ++ g).getLast? = g.getLast? := List.getLast?_append_of_ne_nil s (isGroup_ne_nil hg)
  obtain ⟨c, hc⟩ := Option.ne_none_iff_exists'.mp (mt List.getLast?_eq_none_iff.mp (isGroup_ne_nil hg))
  exact ⟨c, hlast.trans hc, hg.2.2 c (List.mem_of_getLast? hc)⟩

theorem not_endsInDigit_colon (s : List Char) : ¬ EndsInDigit (s ++ [':']) := by
  rintro ⟨c, hc, hdigit⟩
  rw [List.getLast?_concat, Option.mem_some_iff] at hc
  rw [← hc, xdigit_colon] at hdigit
  cases hdigit

theorem denotes_of_groups {gs : List (List Char)} {f : List Char} {b : List UInt8}
    (hgs : ∀ g ∈ gs, IsGroup g) (h : f = [] ∧ gs.length = 8 ∧ b = groupBytes gs ∨
      IsGroup f ∧ (gs ++ [f]).length = 8 ∧ b = groupBytes (gs ++ [f])) :
    Denotes (terminated gs ++ f) b ∨
      ∃ s', terminated gs ++ f = s' ++ [':'] ∧ Denotes s' b ∧ EndsInDigit s' := by
  rcases h with ⟨rfl, hlength, rfl⟩ | ⟨hf, hlength, rfl⟩
  · -- The last colon is behind the eighth group.
    rcases List.eq_nil_or_concat gs with rfl | ⟨fs, g, rfl⟩
    · cases hlength
    rw [List.concat_eq_append] at hgs hlength ⊢
    refine Or.inr ⟨join (fs ++ [g]), ?_, .full hgs hlength, ?_⟩
    · rw [List.append_nil, join_append_colon (by simp)]
    · rw [join_append]
      exact endsInDigit_append (hgs g (by simp)) _
  · left
    rw [← join_append]
    exact .full (List.forall_mem_append.mpr ⟨hgs, List.forall_mem_singleton.mpr hf⟩) hlength

theorem denotes_of_double {l r : List (List Char)} {f : List Char} {b : List UInt8}
    (hgs : ∀ g ∈ l ++ r, IsGroup g)
    (h : f = [] ∧ (l ++ r).length < 8 ∧ b = expand (l ++ r) (some l.length) ∨
      IsGroup f ∧ (l ++ r ++ [f]).length < 8 ∧ b = expand (l ++ r ++ [f]) (some l.length)) :
    Denotes (join l ++ "::".toList ++ (terminated r ++ f)) b ∨ ∃ s',
      join l ++ "::".toList ++ (terminated r ++ f) = s' ++ [':'] ∧ Denotes s' b ∧ EndsInDigit s' := by
  rw [List.forall_mem_append] at hgs
  rcases h with ⟨rfl, hlength, rfl⟩ | ⟨hf, hlength, rfl⟩
  · rw [List.length_append] at hlength
    rw [expand_double, List.append_nil]
    have hdenotes := Denotes.compressed hgs.1 hgs.2 hlength
    rcases List.eq_nil_or_concat r with rfl | ⟨fs, g, rfl⟩
    · exact Or.inl hdenotes
    · -- The last colon is behind a group.
      rw [List.concat_eq_append] at hgs hdenotes ⊢
      refine Or.inr ⟨_, ?_, hdenotes, ?_⟩
      · rw [← join_append_colon (by simp), ← List.append_assoc]
      · rw [join_append, ← List.append_assoc]
        exact endsInDigit_append (hgs.2 g (by simp)) _
  · left
    rw [List.append_assoc, List.length_append] at hlength
    rw [List.append_assoc l, expand_double, ← join_append]
    exact .compressed hgs.1 (List.forall_mem_append.mpr ⟨hgs.2, List.forall_mem_singleton.mpr hf⟩) hlength

/-- What is accepted denotes the bytes, or does so without a colon at its end. -/
theorem denotes_of_asciiToIpv6Host {s : List Char} {b : List UInt8} (h : asciiToIpv6Host s = some b) :
    Denotes s b ∨ ∃ s', s = s' ++ [':'] ∧ Denotes s' b ∧ EndsInDigit s' := by
  rcases eq_or_ne s.head? (some ':') with hhead | hhead
  · -- The text begins with a double colon.
    obtain ⟨s, rfl⟩ := List.head?_eq_some_iff.mp hhead
    rw [asciiToIpv6Host] at h
    split_ifs at h with hdouble
    obtain ⟨t, rfl⟩ := List.head?_eq_some_iff.mp hdouble
    obtain ⟨fs, f, rfl, hfs, hf⟩ := exists_fields t
    have hscan : scan (terminated ([] :: fs) ++ f) = some b := h
    obtain ⟨w, colon, hwalk, hlast⟩ :=
      (scan_iff (List.forall_mem_cons.mpr ⟨List.not_mem_nil, hfs⟩) hf).mp hscan
    generalize hall : [] :: fs = all at hwalk
    cases hwalk with
    | groups hgs hlength => exact absurd rfl (isGroup_ne_nil (hgs [] (hall ▸ List.mem_cons_self)))
    | @double l r hgs hlength =>
      rcases l with _ | ⟨g, l⟩
      · obtain rfl : fs = r := (List.cons.inj hall).2
        exact denotes_of_double (l := []) hgs hlast
      · obtain rfl : [] = g := (List.cons.inj hall).1
        exact absurd rfl (isGroup_ne_nil (hgs [] List.mem_cons_self))
  · rw [asciiToIpv6Host_of_head hhead] at h
    obtain ⟨fs, f, rfl, hfs, hf⟩ := exists_fields s
    obtain ⟨w, colon, hwalk, hlast⟩ := (scan_iff hfs hf).mp h
    cases hwalk with
    | groups hgs hlength => exact denotes_of_groups hgs hlast
    | @double l r hgs hlength =>
      have hne : l ≠ [] := by
        rintro rfl
        exact hhead rfl
      rw [terminated_double, ← join_append_double l _ hne]
      exact denotes_of_double hgs hlast

/-! ## The texts that have the form -/

theorem Denotes.not_trailing {s : List Char} {b : List UInt8} (h : Denotes s b) :
    ∀ s', s = s' ++ [':'] → ¬ EndsInDigit s' := by
  rintro s' heq hdigit
  cases h with
  | @full gs hgs hlength =>
    rcases List.eq_nil_or_concat gs with rfl | ⟨fs, g, rfl⟩
    · cases hlength
    rw [List.concat_eq_append] at heq hgs
    rw [join_append] at heq
    exact not_endsInDigit_colon s' (heq ▸ endsInDigit_append (hgs g (by simp)) _)
  | @compressed l r hl hr hlength =>
    rcases List.eq_nil_or_concat r with rfl | ⟨fs, g, rfl⟩
    · -- The text ends in two colons.
      have hcolons : join l ++ "::".toList ++ join [] = (join l ++ [':']) ++ [':'] := by
        rw [List.append_assoc, List.append_assoc]
        rfl
      rw [hcolons] at heq
      obtain rfl := List.append_cancel_right heq
      exact not_endsInDigit_colon _ hdigit
    · rw [List.concat_eq_append] at heq hr
      rw [join_append, ← List.append_assoc] at heq
      exact not_endsInDigit_colon s' (heq ▸ endsInDigit_append (hr g (by simp)) _)

theorem no_colon_terminated {gs : List (List Char)} (hgs : ∀ g ∈ gs, IsGroup g) : ∀ f ∈ gs, ':' ∉ f :=
  fun f hf ↦ colon_not_mem (hgs f hf)

theorem asciiToIpv6Host_full {gs : List (List Char)} (hgs : ∀ g ∈ gs, IsGroup g)
    (hlength : gs.length = 8) : asciiToIpv6Host (join gs) = some (groupBytes gs) ∧
      asciiToIpv6Host (join gs ++ [':']) = some (groupBytes gs) := by
  have hne : gs ≠ [] := by
    rintro rfl
    cases hlength
  refine ⟨?_, ?_⟩
  · obtain ⟨fs, f, rfl⟩ : ∃ fs f, gs = fs ++ [f] := ⟨_, _, (List.dropLast_append_getLast hne).symm⟩
    rw [List.forall_mem_append, List.forall_mem_singleton] at hgs
    rw [List.length_append, List.length_singleton] at hlength
    obtain ⟨g, fs', heq⟩ := List.exists_cons_of_length_pos (by omega : 0 < fs.length)
    have hg : IsGroup g := hgs.1 g (heq ▸ List.mem_cons_self)
    rw [join_append, asciiToIpv6Host_of_head (heq ▸ head?_terminated hg _ _)]
    refine (scan_iff (no_colon_terminated hgs.1) (colon_not_mem hgs.2)).mpr
      ⟨fs, none, .groups hgs.1 (by omega), Or.inr ⟨hgs.2, ?_, rfl⟩⟩
    rw [Complete, List.length_append, List.length_singleton]
    exact hlength
  · obtain ⟨g, gs', heq⟩ := List.exists_cons_of_ne_nil hne
    rw [join_append_colon hne, ← List.append_nil (terminated gs),
      asciiToIpv6Host_of_head (heq ▸ head?_terminated (hgs g (heq ▸ List.mem_cons_self)) _ _)]
    exact (scan_iff (no_colon_terminated hgs) List.not_mem_nil).mpr
      ⟨gs, none, .groups hgs hlength.le, Or.inl ⟨rfl, hlength, rfl⟩⟩

theorem no_colon_double {l r : List (List Char)} (hl : ∀ g ∈ l, IsGroup g) (hr : ∀ g ∈ r, IsGroup g) :
    ∀ f ∈ l ++ [] :: r, ':' ∉ f := by
  rw [List.forall_mem_append, List.forall_mem_cons]
  exact ⟨no_colon_terminated hl, List.not_mem_nil, no_colon_terminated hr⟩

/-- Fewer groups with a double colon are read, also with a colon behind the last group. -/
theorem asciiToIpv6Host_compressed {l r : List (List Char)} (hl : ∀ g ∈ l, IsGroup g)
    (hr : ∀ g ∈ r, IsGroup g) (hlength : l.length + r.length < 8) :
    asciiToIpv6Host (join l ++ "::".toList ++ join r) = some (expand (l ++ r) (some l.length)) ∧
      (r ≠ [] → asciiToIpv6Host (join l ++ "::".toList ++ (join r ++ [':'])) =
        some (expand (l ++ r) (some l.length))) := by
  -- The text up to the last colon.
  have hcolon : scan (terminated (l ++ [[]]) ++ (terminated r ++ [])) =
      some (expand (l ++ r) (some l.length)) := by
    rw [← terminated_double]
    refine (scan_iff (no_colon_double hl hr) List.not_mem_nil).mpr
      ⟨_, _, .double (List.forall_mem_append.mpr ⟨hl, hr⟩) ?_, Or.inl ⟨rfl, ?_, rfl⟩⟩
    · rw [List.length_append]
      exact hlength.le
    · rw [Complete, List.length_append]
      exact hlength
  rw [List.append_nil] at hcolon
  refine ⟨?_, fun hne ↦ ?_⟩
  · rw [asciiToIpv6Host_double hl]
    rcases List.eq_nil_or_concat r with rfl | ⟨fs, f, rfl⟩
    · exact hcolon
    · rw [List.concat_eq_append] at hr hlength ⊢
      rw [List.forall_mem_append, List.forall_mem_singleton] at hr
      rw [List.length_append, List.length_singleton] at hlength
      rw [join_append, ← terminated_double]
      refine (scan_iff (no_colon_double hl hr.1) (colon_not_mem hr.2)).mpr
        ⟨_, _, .double (List.forall_mem_append.mpr ⟨hl, hr.1⟩) ?_, Or.inr ⟨hr.2, ?_, ?_⟩⟩
      · rw [List.length_append]
        omega
      · rw [Complete, List.length_append, List.length_append, List.length_singleton]
        omega
      · rw [List.append_assoc]
  · rw [join_append_colon hne, asciiToIpv6Host_double hl]
    exact hcolon

theorem Denotes.asciiToIpv6Host {s : List Char} {b : List UInt8} (h : Denotes s b) :
    Ipv6Address.asciiToIpv6Host s = some b := by
  cases h with
  | full hgs hlength => exact (asciiToIpv6Host_full hgs hlength).1
  | @compressed l r hl hr hlength =>
    rw [(asciiToIpv6Host_compressed hl hr hlength).1, expand_double]

theorem Denotes.asciiToIpv6Host_colon {s : List Char} {b : List UInt8} (h : Denotes s b)
    (hdigit : EndsInDigit s) : Ipv6Address.asciiToIpv6Host (s ++ [':']) = some b := by
  cases h with
  | full hgs hlength => exact (asciiToIpv6Host_full hgs hlength).2
  | @compressed l r hl hr hlength =>
    have hne : r ≠ [] := by
      rintro rfl
      have hcolons : join l ++ "::".toList ++ join [] = (join l ++ [':']) ++ [':'] := by
        rw [List.append_assoc, List.append_assoc]
        rfl
      exact not_endsInDigit_colon _ (hcolons ▸ hdigit)
    rw [List.append_assoc, (asciiToIpv6Host_compressed hl hr hlength).2 hne, expand_double]

/-- A text with a colon behind its last group. -/
def TrailingColon (s : List Char) : Prop := ∃ s' b, s = s' ++ [':'] ∧ Denotes s' b ∧ EndsInDigit s'

/-- **The parser accepts exactly the text forms**, with the bytes that they denote, but for a colon behind
the last group, which it accepts too. -/
theorem asciiToIpv6Host_eq_some_iff (s : List Char) :
    (∀ b, asciiToIpv6Host s = some b ↔ Denotes s b) ↔ ¬ TrailingColon s := by
  constructor
  · rintro h ⟨s', b, rfl, hdenotes, hdigit⟩
    exact ((h b).mp (hdenotes.asciiToIpv6Host_colon hdigit)).not_trailing s' rfl hdigit
  · intro h b
    refine ⟨fun haccepts ↦ ?_, Denotes.asciiToIpv6Host⟩
    rcases denotes_of_asciiToIpv6Host haccepts with hdenotes | ⟨s', hs', hdenotes, hdigit⟩
    · exact hdenotes
    · exact absurd ⟨s', b, hs', hdenotes, hdigit⟩ h

/-- The loopback address with a colon behind it is accepted. -/
theorem asciiToIpv6Host_trailing : asciiToIpv6Host "::1:".toList =
      some [0, 0, 0, 0, 0, 0, 0, 0, 0, 0, 0, 0, 0, 0, 0, 1] ∧
    ¬ ∃ b, Denotes "::1:".toList b := by
  refine ⟨by decide, ?_⟩
  rintro ⟨b, h⟩
  exact h.not_trailing "::1".toList rfl ⟨'1', rfl, by decide⟩

end Ipv6Address

end Ns3
