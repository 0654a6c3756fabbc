import Ns3.Network.Ipv6Address

/-!
# Printing IPv6 addresses

The groups are printed in hexadecimal digits without zeros in front, and the longest run of groups of zeros,
if there are at least two of them, as a double colon. What is printed so has the form that the parser reads.
An address that maps one of IPv4 is printed with the four numbers of that address, which the parser does
not read.
-/

namespace Ns3

namespace Ipv6Address

/-! ## Printing -/

def isIpv4MappedAddress (m_address : Vector UInt8 16) : Bool :=
  m_address.toList.take 12 == [0, 0, 0, 0, 0, 0, 0, 0, 0, 0, 0xff, 0xff]

/-- `address[i]`, the number in two bytes. -/
def word (m_address : Vector UInt8 16) (i : ℕ) : ℕ :=
  (m_address.toList.getD (2 * i) 0).toNat <<< 8 ||| (m_address.toList.getD (2 * i + 1) 0).toNat

/-- The runs of zeros, of 8 bits with a sign each. -/
structure Runs where
  bestBase : ℤ
  bestLen : ℤ
  curBase : ℤ
  curLen : ℤ

/-- `curBase` ends, and may be the best one. -/
def Runs.close (s : Runs) : Runs :=
  if s.bestBase = -1 ∨ s.curLen > s.bestLen then { s with bestBase := s.curBase, bestLen := s.curLen } else s

/-- The body of the loop that looks for runs. -/
def Runs.next (address : ℕ → ℕ) (s : Runs) (i : ℕ) : Runs :=
  if address i = 0 then
    if s.curBase = -1 then { s with curBase := i, curLen := 1 } else { s with curLen := s.curLen + 1 }
  else if s.curBase ≠ -1 then { s.close with curBase := -1 } else s

/-- The best run, of at least two zeros. -/
def bestRun (address : ℕ → ℕ) : Runs :=
  let s := (List.range 8).foldl (Runs.next address) ⟨-1, 0, -1, 0⟩
  let s := if s.curBase ≠ -1 then s.close else s
  if s.bestBase ≠ -1 ∧ s.bestLen < 2 then { s with bestBase := -1 } else s

/-- `std::hex << address[i]`. -/
def hex (v : ℕ) : List Char := Nat.toDigits 16 v

/-- The loop that prints, which makes at most eight steps. -/
def printGroups (address : ℕ → ℕ) (best : Runs) : ℕ → ℕ → List Char
  | 0, _ => []
  | fuel + 1, i =>
    if i < 8 then
      if (i : ℤ) = best.bestBase then ':' :: printGroups address best fuel (i + best.bestLen.toNat)
      else (if i ≠ 0 then [':'] else []) ++ hex (address i) ++ printGroups address best fuel (i + 1)
    else []

def print (m_address : Vector UInt8 16) : List Char :=
  if isIpv4MappedAddress m_address then
    "::ffff:".toList ++ Nat.toDigits 10 m_address[12].toNat ++ ['.'] ++
      Nat.toDigits 10 m_address[13].toNat ++ ['.'] ++ Nat.toDigits 10 m_address[14].toNat ++ ['.'] ++
      Nat.toDigits 10 m_address[15].toNat
  else
    let best := bestRun (word m_address)
    printGroups (word m_address) best 8 0 ++
      if best.bestBase ≠ -1 ∧ best.bestBase + best.bestLen = 8 then [':'] else []

/-! ## The digits of a number -/

theorem xdigit_digitChar : ∀ d < 16, xdigit (Nat.digitChar d) = some d := by decide

theorem hex_of_lt {v : ℕ} (h : v < 16) : hex v = [Nat.digitChar v] := Nat.toDigits_of_lt_base h

theorem hex_of_le {v : ℕ} (h : 16 ≤ v) : hex v = hex (v / 16) ++ [Nat.digitChar (v % 16)] :=
  Nat.toDigits_of_base_le (by norm_num) h

theorem groupValue_append (g : List Char) (c : Char) :
    groupValue (g ++ [c]) = groupValue g * 16 + (xdigit c).getD 0 := by
  rw [groupValue, List.foldl_append, List.foldl_cons, List.foldl_nil, groupValue]

theorem hex_spec (v : ℕ) : groupValue (hex v) = v ∧ ∀ c ∈ hex v, (xdigit c).isSome := by
  induction v using Nat.strong_induction_on with
  | _ v ih =>
    rcases lt_or_ge v 16 with hlt | hge
    · have hdigit := xdigit_digitChar v hlt
      rw [hex_of_lt hlt]
      refine ⟨?_, fun c hc ↦ ?_⟩
      · rw [groupValue, List.foldl_cons, List.foldl_nil, hdigit]
        exact Nat.zero_add v
      · rw [List.mem_singleton.mp hc, hdigit, Option.isSome_some]
    · obtain ⟨hvalue, hdigits⟩ := ih (v / 16) (by omega)
      have hdigit := xdigit_digitChar (v % 16) (Nat.mod_lt v (by norm_num))
      rw [hex_of_le hge]
      refine ⟨?_, fun c hc ↦ ?_⟩
      · rw [groupValue_append, hvalue, hdigit, Option.getD_some]
        omega
      · rcases List.mem_append.mp hc with hc | hc
        · exact hdigits c hc
        · rw [List.mem_singleton.mp hc, hdigit, Option.isSome_some]

theorem isGroup_hex {v : ℕ} (hv : v < 65536) : IsGroup (hex v) :=
  ⟨Nat.length_toDigits_pos, (Nat.length_toDigits_le_iff (by norm_num) (by norm_num)).mpr hv, (hex_spec v).2⟩

/-! ## The runs of zeros -/

/-- A run of zeros before `i`. -/
def IsRun (address : ℕ → ℕ) (i : ℕ) (base len : ℤ) : Prop :=
  base = -1 ∨ ∃ b n : ℕ, base = b ∧ len = n ∧ b + n ≤ i ∧ ∀ j, b ≤ j → j < b + n → address j = 0

/-- The runs found before `i`. The current one ends there. -/
structure Found (address : ℕ → ℕ) (i : ℕ) (s : Runs) : Prop where
  best : IsRun address i s.bestBase s.bestLen
  cur : IsRun address i s.curBase s.curLen
  ends : s.curBase ≠ -1 → s.curBase + s.curLen = i

theorem IsRun.mono {address : ℕ → ℕ} {i j : ℕ} {base len : ℤ} (h : IsRun address i base len)
    (hij : i ≤ j) : IsRun address j base len := by
  rcases h with h | ⟨b, n, hb, hn, hle, hzero⟩
  · exact Or.inl h
  · exact Or.inr ⟨b, n, hb, hn, hle.trans hij, hzero⟩

theorem Found.close_best {address : ℕ → ℕ} {i : ℕ} {s : Runs} (h : Found address i s) :
    IsRun address i s.close.bestBase s.close.bestLen := by
  rw [Runs.close]
  split_ifs
  · exact h.cur
  · exact h.best

theorem Found.next {address : ℕ → ℕ} {i : ℕ} {s : Runs} (h : Found address i s) :
    Found address (i + 1) (s.next address i) := by
  rw [Runs.next]
  by_cases hzero : address i = 0
  · rw [if_pos hzero]
    by_cases hcur : s.curBase = -1
    · -- A run begins.
      rw [if_pos hcur]
      refine ⟨h.best.mono (Nat.le_succ i), Or.inr ⟨i, 1, rfl, rfl, le_rfl, ?_⟩, fun _ ↦ rfl⟩
      intro j hij hj
      obtain rfl : j = i := by omega
      exact hzero
    · -- The run goes on.
      rw [if_neg hcur]
      have hends := h.ends hcur
      rcases h.cur with hnone | ⟨b, n, hb, hn, hle, hrun⟩
      · exact absurd hnone hcur
      refine ⟨h.best.mono (Nat.le_succ i), Or.inr ⟨b, n + 1, hb, ?_, by omega, ?_⟩, fun _ ↦ ?_⟩
      · dsimp only
        rw [hn]
        rfl
      · intro j hij hj
        rcases eq_or_ne j i with rfl | hne
        · exact hzero
        · exact hrun j hij (by omega)
      · dsimp only
        rw [← add_assoc, hends]
        rfl
  · rw [if_neg hzero]
    by_cases hcur : s.curBase = -1
    · rw [if_neg (not_not.mpr hcur)]
      exact ⟨h.best.mono (Nat.le_succ i), Or.inl hcur, fun hne ↦ absurd hcur hne⟩
    · rw [if_pos hcur]
      exact ⟨h.close_best.mono (Nat.le_succ i), Or.inl rfl, fun hne ↦ absurd rfl hne⟩

theorem bestRun_spec (address : ℕ → ℕ) : (bestRun address).bestBase = -1 ∨
    ∃ b n : ℕ, (bestRun address).bestBase = b ∧ (bestRun address).bestLen = n ∧ b + n ≤ 8 ∧ 2 ≤ n ∧
      ∀ j, b ≤ j → j < b + n → address j = 0 := by
  have hfound : ∀ k, Found address k ((List.range k).foldl (Runs.next address) ⟨-1, 0, -1, 0⟩) := by
    intro k
    induction k with
    | zero => exact ⟨Or.inl rfl, Or.inl rfl, fun h ↦ absurd rfl h⟩
    | succ k ih =>
      rw [List.range_succ, List.foldl_append, List.foldl_cons, List.foldl_nil]
      exact ih.next
  have h8 := hfound 8
  rw [bestRun]
  generalize (List.range 8).foldl (Runs.next address) ⟨-1, 0, -1, 0⟩ = s at h8
  have hbest : IsRun address 8 (if s.curBase ≠ -1 then s.close else s).bestBase
      (if s.curBase ≠ -1 then s.close else s).bestLen := by
    split_ifs
    · exact h8.close_best
    · exact h8.best
  generalize (if s.curBase ≠ -1 then s.close else s) = s' at hbest
  split_ifs with hshort
  · exact Or.inl rfl
  · rcases hbest with hnone | ⟨b, n, hb, hn, hle, hrun⟩
    · exact Or.inl hnone
    · refine Or.inr ⟨b, n, hb, hn, hle, ?_, hrun⟩
      by_contra hlt
      exact hshort ⟨by omega, by omega⟩

/-! ## What is printed -/

/-- The groups that are printed. -/
def groups (address : ℕ → ℕ) (i n : ℕ) : List (List Char) := (List.range' i n).map fun j ↦ hex (address j)

theorem groups_succ (address : ℕ → ℕ) (i n : ℕ) :
    groups address i (n + 1) = groups address i n ++ [hex (address (i + n))] := by
  rw [groups, List.range'_1_concat, List.map_append, List.map_singleton, groups]

theorem groups_cons (address : ℕ → ℕ) (i n : ℕ) :
    groups address i (n + 1) = hex (address i) :: groups address (i + 1) n := by
  rw [groups, List.range'_succ, List.map_cons, groups]

theorem length_groups (address : ℕ → ℕ) (i n : ℕ) : (groups address i n).length = n := by
  rw [groups, List.length_map, List.length_range']

theorem printGroups_of_first {address : ℕ → ℕ} {best : Runs} {n : ℕ} (fuel : ℕ) :
    n ≤ 8 → (∀ j < n, (j : ℤ) ≠ best.bestBase) →
      printGroups address best (n + fuel) 0 = join (groups address 0 n) ++ printGroups address best fuel n := by
  induction n generalizing fuel with
  | zero =>
    intro _ _
    rw [Nat.zero_add]
    rfl
  | succ n ih =>
    intro hn hbest
    have hstep : printGroups address best (fuel + 1) n =
        (if n ≠ 0 then [':'] else []) ++ hex (address n) ++ printGroups address best fuel (n + 1) := by
      rw [printGroups, if_pos (by omega), if_neg (hbest n (Nat.lt_succ_self n))]
    rw [Nat.add_right_comm, Nat.add_assoc, ih (fuel + 1) (by omega) fun j hj ↦ hbest j (by omega), hstep,
      groups_succ, Nat.zero_add, join_append]
    rcases Nat.eq_zero_or_pos n with rfl | hpos
    · rfl
    · have hne : groups address 0 n ≠ [] := by
        rw [← List.length_pos_iff, length_groups]
        exact hpos
      rw [if_pos hpos.ne', ← join_append_colon hne]
      simp only [List.append_assoc]

theorem printGroups_of_later {address : ℕ → ℕ} {best : Runs} (n : ℕ) : ∀ {i : ℕ} (fuel : ℕ), 0 < i →
    i + n = 8 → (∀ j, i ≤ j → (j : ℤ) ≠ best.bestBase) →
      printGroups address best (n + fuel) i = (groups address i n).flatMap (':' :: ·) := by
  induction n with
  | zero =>
    intro i fuel _ hi _
    rw [Nat.zero_add]
    rcases fuel with _ | fuel
    · rfl
    · rw [printGroups, if_neg (by omega)]
      rfl
  | succ n ih =>
    intro i fuel hpos hi hbest
    rw [Nat.add_right_comm, printGroups, if_pos (by omega), if_neg (hbest i le_rfl), if_pos hpos.ne',
      ih fuel (Nat.succ_pos i) (by omega) fun j hj ↦ hbest j (by omega), groups_cons, List.flatMap_cons]
    rfl

theorem flatMap_cons_colon (g : List Char) (gs : List (List Char)) :
    (g :: gs).flatMap (':' :: ·) = ':' :: join (g :: gs) := by
  induction gs generalizing g with
  | nil =>
    rw [join, List.intercalate_singleton, List.flatMap_singleton]
  | cons g' gs ih =>
    have hjoin : join (g :: g' :: gs) = g ++ [':'] ++ join (g' :: gs) := List.intercalate_cons_cons
    rw [List.flatMap_cons, ih, hjoin, List.append_assoc]
    rfl

/-! ## The bytes of the groups -/

theorem word_lt (a : Vector UInt8 16) (i : ℕ) : word a i < 65536 := by
  have hhi := (a.toList.getD (2 * i) 0).toNat_lt
  have hlo := (a.toList.getD (2 * i + 1) 0).toNat_lt
  rw [word, ← Nat.shiftLeft_add_eq_or_of_lt hlo, Nat.shiftLeft_eq]
  omega

theorem wordBytes_word (a : Vector UInt8 16) (i : ℕ) :
    wordBytes (word a i) = [a.toList.getD (2 * i) 0, a.toList.getD (2 * i + 1) 0] := by
  have hlo := (a.toList.getD (2 * i + 1) 0).toNat_lt
  have hdiv : word a i / 256 = (a.toList.getD (2 * i) 0).toNat := by
    rw [word, ← Nat.shiftLeft_add_eq_or_of_lt hlo, Nat.shiftLeft_eq]
    omega
  have hmod : UInt8.ofNat (word a i) = a.toList.getD (2 * i + 1) 0 := by
    rw [← UInt8.toNat_inj, UInt8.toNat_ofNat', word, ← Nat.shiftLeft_add_eq_or_of_lt hlo, Nat.shiftLeft_eq]
    omega
  rw [wordBytes, hdiv, hmod, UInt8.ofNat_toNat]

theorem groupBytes_groups (a : Vector UInt8 16) (i n : ℕ) : groupBytes (groups (word a) i n) =
    (List.range' (2 * i) (2 * n)).map fun j ↦ a.toList.getD j 0 := by
  induction n with
  | zero => rfl
  | succ n ih =>
    rw [groups_succ, groupBytes_append, ih, show 2 * (n + 1) = 2 * n + 1 + 1 by ring, List.range'_1_concat,
      List.range'_1_concat, List.map_append, List.map_append, groupBytes, List.flatMap_singleton,
      (hex_spec _).1, wordBytes_word, List.append_assoc, Nat.mul_add]
    rfl

theorem groupBytes_all (a : Vector UInt8 16) : groupBytes (groups (word a) 0 8) = a.toList := by
  rw [groupBytes_groups]
  refine List.ext_getElem (by simp) fun i hi hi' ↦ ?_
  rw [List.getElem_map, List.getElem_range', List.getD_eq_getElem?_getD, Nat.mul_zero, Nat.zero_add,
    Nat.one_mul, List.getElem?_eq_getElem hi', Option.getD_some]

theorem isGroup_groups (a : Vector UInt8 16) (i n : ℕ) : ∀ g ∈ groups (word a) i n, IsGroup g := by
  rintro g hg
  obtain ⟨j, -, rfl⟩ := List.mem_map.mp hg
  exact isGroup_hex (word_lt a j)

theorem groupBytes_zeros {a : Vector UInt8 16} {i n : ℕ} (hzero : ∀ j, i ≤ j → j < i + n → word a j = 0) :
    groupBytes (groups (word a) i n) = List.replicate (2 * n) 0 := by
  induction n with
  | zero => rfl
  | succ n ih =>
    rw [groups_succ, groupBytes_append, ih fun j hj hj' ↦ hzero j hj (by omega),
      hzero (i + n) (Nat.le_add_right i n) (by omega), groupBytes, List.flatMap_singleton, (hex_spec 0).1,
      show 2 * (n + 1) = 2 * n + 2 by ring, List.replicate_add]
    rfl

theorem groups_add (address : ℕ → ℕ) (i m n : ℕ) :
    groups address i (m + n) = groups address i m ++ groups address (i + m) n := by
  rw [groups, ← List.range'_append_1, List.map_append, groups, groups]

/-- **What is printed of an address that is not mapped has the form of a text for it.** -/
theorem denotes_print {a : Vector UInt8 16} (hmapped : isIpv4MappedAddress a = false) :
    Denotes (print a) a.toList := by
  rw [print, if_neg (by simp [hmapped])]
  dsimp only
  have hbest := bestRun_spec (word a)
  generalize bestRun (word a) = best at hbest
  rcases hbest with hnone | ⟨b, n, hb, hn, hle, htwo, hzero⟩
  · -- No run: eight groups.
    have hprint : printGroups (word a) best (8 + 0) 0 =
        join (groups (word a) 0 8) ++ printGroups (word a) best 0 8 :=
      printGroups_of_first 0 le_rfl fun j _ ↦ by rw [hnone]; omega
    rw [if_neg (fun h ↦ h.1 hnone), List.append_nil, show 8 = 8 + 0 from rfl, hprint, printGroups,
      List.append_nil, ← groupBytes_all a]
    exact .full (isGroup_groups a 0 8) (length_groups _ _ _)
  · obtain ⟨m, hm⟩ : ∃ m, b + n + m = 8 := ⟨8 - (b + n), by omega⟩
    obtain ⟨n, rfl⟩ : ∃ k, n = k + 1 := ⟨n - 1, by omega⟩
    have hfirst : printGroups (word a) best (b + (m + n + 1)) 0 =
        join (groups (word a) 0 b) ++ printGroups (word a) best (m + n + 1) b :=
      printGroups_of_first (m + n + 1) (by omega) fun j hj ↦ by rw [hb]; omega
    have hrun : printGroups (word a) best (m + n + 1) b =
        ':' :: printGroups (word a) best (m + n) (b + (n + 1)) := by
      rw [printGroups, if_pos (by omega), if_pos hb.symm, hn, Int.toNat_natCast]
    have hlater : printGroups (word a) best (m + n) (b + (n + 1)) =
        (groups (word a) (b + (n + 1)) m).flatMap (':' :: ·) :=
      printGroups_of_later m n (by omega) hm fun j hj ↦ by rw [hb]; omega
    -- The colon behind the run is that of the next group, or the last one.
    have hcolon : (groups (word a) (b + (n + 1)) m).flatMap (':' :: ·) ++
        (if best.bestBase ≠ -1 ∧ best.bestBase + best.bestLen = 8 then [':'] else []) =
          ':' :: join (groups (word a) (b + (n + 1)) m) := by
      rcases m with _ | m
      · rw [if_pos ⟨by omega, by rw [hb, hn]; omega⟩]
        rfl
      · rw [if_neg (by rw [hb, hn]; omega), List.append_nil, groups_cons, flatMap_cons_colon]
    have htext : printGroups (word a) best 8 0 ++
        (if best.bestBase ≠ -1 ∧ best.bestBase + best.bestLen = 8 then [':'] else []) =
          join (groups (word a) 0 b) ++ "::".toList ++ join (groups (word a) (b + (n + 1)) m) := by
      rw [show 8 = b + (m + n + 1) by omega, hfirst, hrun, hlater, List.append_assoc, List.cons_append, hcolon,
        List.append_assoc]
      rfl
    have hbytes : a.toList = groupBytes (groups (word a) 0 b) ++ List.replicate (2 * (8 - (b + m))) 0 ++
        groupBytes (groups (word a) (b + (n + 1)) m) := by
      rw [← groupBytes_all a, ← hm, groups_add, groups_add, groupBytes_append, groupBytes_append,
        Nat.zero_add, Nat.zero_add, groupBytes_zeros hzero, show b + (n + 1) + m - (b + m) = n + 1 by omega]
    rw [htext, hbytes]
    have hdenotes := Denotes.compressed (isGroup_groups a 0 b) (isGroup_groups a (b + (n + 1)) m)
      (by rw [length_groups, length_groups]; omega)
    rwa [length_groups, length_groups] at hdenotes

/-! ## Addresses that are mapped -/

theorem Denotes.mem {s : List Char} {b : List UInt8} (h : Denotes s b) :
    ∀ c ∈ s, c = ':' ∨ (xdigit c).isSome := by
  have hjoin : ∀ gs : List (List Char), (∀ g ∈ gs, IsGroup g) →
      ∀ c ∈ join gs, c = ':' ∨ (xdigit c).isSome := by
    intro gs hgs c hc
    rcases eq_or_ne gs [] with rfl | hne
    · exact absurd hc List.not_mem_nil
    have hmem : c ∈ terminated gs := join_append_colon hne ▸ List.mem_append_left _ hc
    obtain ⟨g, hg, hcg⟩ := List.mem_flatMap.mp hmem
    rcases List.mem_append.mp hcg with hcg | hcg
    · exact Or.inr ((hgs g hg).2.2 c hcg)
    · exact Or.inl (List.mem_singleton.mp hcg)
  intro c hc
  cases h with
  | full hgs hlength => exact hjoin _ hgs c hc
  | @compressed l r hl hr hlength =>
    rcases List.mem_append.mp hc with hc | hc
    · rcases List.mem_append.mp hc with hc | hc
      · exact hjoin l hl c hc
      · left
        have hcolons : c = ':' ∨ c = ':' ∨ c ∈ [] := by simpa using hc
        tauto
    · exact hjoin r hr c hc

theorem asciiToIpv6Host_dot {s : List Char} (hdot : '.' ∈ s) : asciiToIpv6Host s = none := by
  have hno : ∀ b s', Denotes s' b → '.' ∉ s' := by
    intro b s' hdenotes hmem
    rcases hdenotes.mem '.' hmem with h | h
    · exact absurd h (by decide)
    · exact absurd h (by decide)
  rw [Option.eq_none_iff_forall_ne_some]
  intro b haccepts
  rcases denotes_of_asciiToIpv6Host haccepts with hdenotes | ⟨s', rfl, hdenotes, -⟩
  · exact hno b s hdenotes hdot
  · rcases List.mem_append.mp hdot with hmem | hmem
    · exact hno b s' hdenotes hmem
    · exact absurd (List.mem_singleton.mp hmem) (by decide)

/-- **A printed address reads back** to itself if and only if it does not map an address of IPv4. -/
theorem asciiToIpv6Host_print_iff (a : Vector UInt8 16) :
    asciiToIpv6Host (print a) = some a.toList ↔ isIpv4MappedAddress a = false := by
  rcases hmapped : isIpv4MappedAddress a with _ | _
  · exact iff_of_true (denotes_print hmapped).asciiToIpv6Host rfl
  · have hdot : '.' ∈ print a := by
      rw [print, if_pos hmapped]
      simp
    rw [asciiToIpv6Host_dot hdot]
    exact iff_of_false (fun h ↦ Option.some_ne_none _ h.symm) (fun h ↦ by cases h)

/-- `::ffff:10.0.0.1` is printed, and not read. -/
theorem asciiToIpv6Host_print_mapped :
    print #v[0, 0, 0, 0, 0, 0, 0, 0, 0, 0, 0xff, 0xff, 10, 0, 0, 1] = "::ffff:10.0.0.1".toList ∧
      asciiToIpv6Host (print #v[0, 0, 0, 0, 0, 0, 0, 0, 0, 0, 0xff, 0xff, 10, 0, 0, 1]) = none := by
  have hprint : print #v[0, 0, 0, 0, 0, 0, 0, 0, 0, 0, 0xff, 0xff, 10, 0, 0, 1] =
      "::ffff:10.0.0.1".toList := by decide +kernel
  refine ⟨hprint, ?_⟩
  rw [hprint]
  decide

end Ipv6Address

end Ns3
