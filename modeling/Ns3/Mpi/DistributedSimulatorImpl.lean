import Ns3.Library.Machine
import Ns3.Mpi.Channel

/-!
# Parallel simulation in granted time windows

The processes of `DistributedSimulatorImpl` run in rounds. In a round each process executes its
events up to its *granted time*, then polls for packets, and then all of them exchange their next
event times and the number of packets they have sent and received. When these numbers agree no
packet is in flight, and the granted time moves to the smallest next event time plus the lookahead,
the smallest delay of a channel of the process.

`GrantedTimeWindow.machine` is the whole system. A packet in flight can be received in any order and
after any number of rounds. A handler is whatever happens between `begin` and `endEvent`, and a
gather is one step of all processes, since none of them can do anything between its contribution and
the result.

## The invariant

There is a time `W`, the *window*, before which nothing happens any more: the pending events, the
running handlers and the packets in flight are at or after it. It is the smallest time of the last
round without packets in flight, and the granted time of every process is `W` plus its lookahead.

`Run` returns after a round in which every process is finished, whether or not the numbers agree. A
packet still in flight is then lost. `NoPacketLost` excludes this round, and the overflow of 64-bit
times and of the 32-bit packet counts; the results hold in every run of such steps.
-/

namespace Ns3

namespace GrantedTimeWindow

/-! ## Messages and events -/

/-- A packet sent with `SendPacket`. Packets are told apart by the number of packets sent before. -/
structure Packet where
  id : ℕ
  dst : ℕ
  rxTime : ℤ
  deriving DecidableEq, Repr

/-- A pending event; it carries the packet when it is a call of `MpiReceiver::Receive`. -/
structure SimEvent where
  ts : ℤ
  packet : Option Packet
  deriving DecidableEq, Repr

/-- What a process contributes to a round. -/
structure LbtsMessage where
  m_rxCount : ℕ
  m_txCount : ℕ
  m_isFinished : Bool
  m_smallestTime : ℤ
  deriving DecidableEq, Repr

/-- `LbtsMessage ()`. -/
def LbtsMessage.create : LbtsMessage := ⟨0, 0, false, 0⟩

/-- Where a process is. -/
inductive Phase
  /-- Before `Run`. -/
  | setup
  /-- At the head of the loop of `Run`. -/
  | loop
  /-- In a handler. -/
  | handler
  /-- In `ReceiveMessages`. -/
  | receiving
  /-- In `MPI_Allgather`, with its contribution. -/
  | waiting (lMsg : LbtsMessage)
  /-- `Run` has returned. -/
  | done
  deriving DecidableEq, Repr

/-- The program and the handlers may schedule. -/
def Phase.canSchedule : Phase → Bool
  | .setup => true
  | .handler => true
  | _ => false

/-- The message a process waits with. -/
def Phase.message : Phase → Option LbtsMessage
  | .waiting lMsg => some lMsg
  | _ => none

/-! ## Processes -/

/-- The remote channels, all of positive delay. -/
structure Network where
  m_systemCount : ℕ
  systemCount_pos : 0 < m_systemCount
  channels : List Channel
  delay_pos : ∀ c ∈ channels, 0 < c.delay
  delay_le : ∀ c ∈ channels, c.delay ≤ Time.max
  distinct : ∀ c ∈ channels, c.a ≠ c.b
  bounded : ∀ c ∈ channels, c.a < m_systemCount ∧ c.b < m_systemCount

/-- `Seconds (-1)`, in nanoseconds: the lookahead before it is set. -/
def unset : ℤ := -1000000000

/-- A `DistributedSimulatorImpl`, with the counts of its `GrantedTimeWindowMpiInterface`. -/
structure Process where
  m_events : List SimEvent
  m_currentTs : ℤ
  m_lookAhead : ℤ
  m_grantedTime : ℤ
  m_stop : Bool
  m_rxCount : ℕ
  m_txCount : ℕ
  /-- The packets whose receive event has been run. -/
  executed : List Packet
  phase : Phase

namespace Process

/-- A process before `Run`. -/
def create : Process := ⟨[], 0, unset, 0, false, 0, 0, [], .setup⟩

variable (net : Network) (p : ℕ) (x : Process)

def setMaximumLookAhead (lookAhead : ℤ) : Process :=
  if 0 < lookAhead then { x with m_lookAhead := lookAhead } else x

/-- `CalculateLookAhead` up to `MPI_Allreduce`. -/
def localLookAhead : ℤ :=
  if net.m_systemCount ≤ 1 then 0
  else (net.channels.filter fun c ↦ c.a = p ∨ c.b = p).foldl (fun d c ↦ min d c.delay)
    (if x.m_lookAhead = unset then Time.max else x.m_lookAhead)

/-- `sendbuf` of `CalculateLookAhead`. -/
def sendbuf : ℤ := if x.localLookAhead net p = Time.max then 0 else x.localLookAhead net p

def isLocalFinished : Bool := x.m_events.isEmpty || x.m_stop

/-- `NextTs`, and `Next`. -/
def nextTs : ℤ :=
  if x.isLocalFinished = true then Time.max
  else x.m_events.foldr (fun e t ↦ min e.ts t) Time.max

def schedule (delay : ℤ) : Process :=
  { x with m_events := x.m_events ++ [⟨Time.add x.m_currentTs delay, none⟩] }

/-- The time of the event that `ScheduleWithContext` inserts for a packet: a signed delay added to
an unsigned time. -/
def receiveTs (k : Packet) : ℤ :=
  (x.m_currentTs + Time.sub k.rxTime x.m_currentTs) % 2 ^ 64

/-- One message of `ReceiveMessages`. -/
def receiveMessage (k : Packet) : Process :=
  { x with
    m_rxCount := (x.m_rxCount + 1) % 2 ^ 32
    m_events := x.m_events ++ [⟨x.receiveTs k, some k⟩] }

/-- `ProcessOneEvent` up to `Invoke`, when the scheduler returns `e`. -/
def beginEvent (e : SimEvent) : Process :=
  { x with
    m_events := x.m_events.erase e
    m_currentTs := e.ts
    executed := x.executed ++ e.packet.toList
    phase := .handler }

/-- The message of a round. -/
def lbtsMessage : LbtsMessage := ⟨x.m_rxCount, x.m_txCount, x.isLocalFinished, x.nextTs⟩

/-- The packets that wait for their receive event. -/
def pending : List Packet := x.m_events.filterMap SimEvent.packet

end Process

/-! ## The system -/

/-- All processes, the packets in flight, and the packets sent so far. -/
structure System where
  proc : ℕ → Process
  inFlight : List Packet
  sent : List Packet

namespace System

variable (net : Network) (s : System)

def setProc (p : ℕ) (x : Process) : System :=
  { s with proc := fun r ↦ if r = p then x else s.proc r }

/-- Move process `p` to another phase. -/
def setPhase (p : ℕ) (phase : Phase) : System := s.setProc p { s.proc p with phase := phase }

/-- `recvbuf` of `CalculateLookAhead`: the result of `MPI_Allreduce`. -/
def recvbuf : ℤ :=
  (List.range net.m_systemCount).foldl (fun m q ↦ max m ((s.proc q).sendbuf net q)) 0

/-- `CalculateLookAhead` of process `p`. -/
def calculateLookAhead (p : ℕ) : ℤ :=
  let lookAhead := (s.proc p).localLookAhead net p
  if lookAhead = Time.max ∧ s.recvbuf net ≠ 0 then s.recvbuf net else lookAhead

/-- `Run` is entered by all processes. -/
def run : System :=
  { s with
    proc := fun q ↦
      if q < net.m_systemCount then
        { s.proc q with
          m_lookAhead := s.calculateLookAhead net q
          m_grantedTime := s.calculateLookAhead net q
          m_stop := false
          phase := .loop }
      else s.proc q }

/-- `SendPacket`, to a node of process `q`. -/
def sendPacket (p q : ℕ) (rxTime : ℤ) : System :=
  let k : Packet := ⟨s.sent.length, q, rxTime⟩
  { s.setProc p { s.proc p with m_txCount := ((s.proc p).m_txCount + 1) % 2 ^ 32 } with
    inFlight := s.inFlight ++ [k]
    sent := s.sent ++ [k] }

/-- `MPI_Testany` finds packet `k`. -/
def receiveMessage (p : ℕ) (k : Packet) : System :=
  { s.setProc p ((s.proc p).receiveMessage k) with inFlight := s.inFlight.erase k }

/-- `m_pLBTS [q]` after `MPI_Allgather`. -/
def m_pLBTS (q : ℕ) : LbtsMessage := (s.proc q).phase.message.getD .create

/-- `smallestTime` of a round. -/
def smallestTime : ℤ :=
  (List.range' 1 (net.m_systemCount - 1)).foldl (fun t q ↦ min t (s.m_pLBTS q).m_smallestTime)
    (s.m_pLBTS 0).m_smallestTime

/-- `totRx` of a round. -/
def totRx : ℕ := (∑ q ∈ Finset.range net.m_systemCount, (s.m_pLBTS q).m_rxCount) % 2 ^ 32

/-- `totTx` of a round. -/
def totTx : ℕ := (∑ q ∈ Finset.range net.m_systemCount, (s.m_pLBTS q).m_txCount) % 2 ^ 32

/-- `m_globalFinished` of a round. -/
def globalFinished : Bool :=
  (List.range net.m_systemCount).all fun q ↦ (s.m_pLBTS q).m_isFinished

/-- `m_grantedTime` of `x` after a round. -/
def grantedTime (x : Process) : ℤ :=
  if s.totRx net = s.totTx net then
    if x.m_lookAhead = Time.max then Time.max else Time.add (s.smallestTime net) x.m_lookAhead
  else x.m_grantedTime

/-- `MPI_Allgather`, and what every process does with its result. -/
def allgather : System :=
  { s with
    proc := fun q ↦
      if q < net.m_systemCount then
        { s.proc q with
          m_grantedTime := s.grantedTime net (s.proc q)
          phase := if s.globalFinished net = true then .done else .loop }
      else s.proc q }

end System

/-- The steps of the processes. -/
inductive Op
  | setMaximumLookAhead (p : ℕ) (lookAhead : ℤ)
  /-- `Schedule`, by the program before `Run` or by a handler. -/
  | schedule (p : ℕ) (delay : ℤ)
  /-- `Remove` of an event at time `ts`. -/
  | remove (p : ℕ) (ts : ℤ)
  | stop (p : ℕ)
  /-- All processes enter `Run`. -/
  | run
  /-- The next event is within the window, and is processed. -/
  | begin (p : ℕ) (e : SimEvent)
  /-- The handler sends a packet over channel `c`. -/
  | send (p : ℕ) (c : Channel) (rxTime : ℤ)
  | endEvent (p : ℕ)
  /-- The next event is not within the window: `ReceiveMessages` is entered. -/
  | sync (p : ℕ)
  /-- `MPI_Testany` finds a packet. -/
  | receive (p : ℕ) (k : Packet)
  /-- `MPI_Testany` finds nothing, and `MPI_Allgather` is entered. -/
  | wait (p : ℕ)
  /-- All processes have entered `MPI_Allgather`. -/
  | allgather
  deriving DecidableEq, Repr

/-- The runs of the system. -/
def machine (net : Network) : Machine System Op where
  init := ⟨fun _ ↦ .create, [], []⟩
  next s
    | .setMaximumLookAhead p lookAhead =>
      if p < net.m_systemCount ∧ (s.proc p).phase = .setup ∧ lookAhead ≤ Time.max then
        some (s.setProc p ((s.proc p).setMaximumLookAhead lookAhead))
      else none
    | .schedule p delay =>
      if p < net.m_systemCount ∧ (s.proc p).phase.canSchedule = true ∧ 0 ≤ delay then
        some (s.setProc p ((s.proc p).schedule delay))
      else none
    | .remove p ts =>
      let x := s.proc p
      if p < net.m_systemCount ∧ x.phase.canSchedule = true ∧ ⟨ts, none⟩ ∈ x.m_events then
        some (s.setProc p { x with m_events := x.m_events.erase ⟨ts, none⟩ })
      else none
    | .stop p =>
      if p < net.m_systemCount ∧ (s.proc p).phase.canSchedule = true then
        some (s.setProc p { s.proc p with m_stop := true })
      else none
    | .run =>
      if ∀ q < net.m_systemCount, (s.proc q).phase = .setup then some (s.run net) else none
    | .begin p e =>
      let x := s.proc p
      if p < net.m_systemCount ∧ x.phase = .loop ∧ x.isLocalFinished = false ∧ e ∈ x.m_events ∧
          (∀ f ∈ x.m_events, e.ts ≤ f.ts) ∧ e.ts ≤ x.m_grantedTime then
        some (s.setProc p (x.beginEvent e))
      else none
    | .send p c rxTime =>
      let x := s.proc p
      if p < net.m_systemCount ∧ x.phase = .handler ∧ c ∈ net.channels ∧ (c.a = p ∨ c.b = p) ∧
          x.m_currentTs + c.delay ≤ rxTime ∧ rxTime ≤ Time.max then
        some (s.sendPacket p (c.other p) rxTime)
      else none
    | .endEvent p =>
      if p < net.m_systemCount ∧ (s.proc p).phase = .handler then some (s.setPhase p .loop)
      else none
    | .sync p =>
      let x := s.proc p
      if p < net.m_systemCount ∧ x.phase = .loop ∧
          (x.m_grantedTime < x.nextTs ∨ x.isLocalFinished = true) then
        some (s.setPhase p .receiving)
      else none
    | .receive p k =>
      if p < net.m_systemCount ∧ (s.proc p).phase = .receiving ∧ k ∈ s.inFlight ∧ k.dst = p then
        some (s.receiveMessage p k)
      else none
    | .wait p =>
      if p < net.m_systemCount ∧ (s.proc p).phase = .receiving then
        some (s.setPhase p (.waiting (s.proc p).lbtsMessage))
      else none
    | .allgather =>
      if ∀ q < net.m_systemCount, ((s.proc q).phase.message).isSome = true then
        some (s.allgather net)
      else none

/-! ## Causality and completeness -/

/-- A received packet is not scheduled before the current time of its receiver. -/
def Causal (s : System) : Op → Prop
  | .receive p k => (s.proc p).m_currentTs ≤ (s.proc p).receiveTs k
  | _ => True

/-- When `Run` has returned, every process has stopped or has no events, nothing is in flight, and
without `Stop` every process has executed the packets sent to it. -/
def Complete (net : Network) (s : System) : Prop :=
  ∀ p < net.m_systemCount, (s.proc p).phase = .done →
    (∀ q < net.m_systemCount, (s.proc q).m_stop = true ∨ (s.proc q).m_events = []) ∧
    s.inFlight = [] ∧
    ((∀ q < net.m_systemCount, (s.proc q).m_stop = false) →
      ∀ q < net.m_systemCount, (s.proc q).executed.Perm (s.sent.filter (·.dst = q)))

/-- The steps at which no packet is lost and nothing overflows: there is no round in which every
process is finished and a packet is in flight. -/
def NoPacketLost (net : Network) (s : System) : Op → Prop
  | .schedule p delay => (s.proc p).m_currentTs + delay ≤ Time.max
  | .allgather => s.inFlight.length < 2 ^ 32 ∧
      ((∀ q < net.m_systemCount, (s.proc q).isLocalFinished = true) → s.inFlight = []) ∧
      ((∃ q < net.m_systemCount, (s.proc q).isLocalFinished = false) →
        ∀ p < net.m_systemCount, (s.proc p).m_lookAhead ≠ Time.max →
          ∃ q < net.m_systemCount, (s.proc q).nextTs + (s.proc p).m_lookAhead ≤ Time.max)
  | _ => True

/-! ## Lookahead -/

section LookAhead

variable {net : Network} {p q : ℕ} {x : Process} {s : System} {c : Channel}

/-- The values that `m_lookAhead` can have before `Run`. -/
def Process.Preset (x : Process) : Prop :=
  x.m_lookAhead = unset ∨ 0 < x.m_lookAhead ∧ x.m_lookAhead ≤ Time.max

theorem Network.other_lt (hc : c ∈ net.channels) : c.other p < net.m_systemCount := by
  rw [Channel.other]
  split_ifs
  · exact (net.bounded c hc).2
  · exact (net.bounded c hc).1

theorem Channel.other_incident : c.a = c.other p ∨ c.b = c.other p := by
  rw [Channel.other]
  split_ifs
  · exact .inr rfl
  · exact .inl rfl

theorem Process.localLookAhead_nonneg (hx : x.Preset) : 0 ≤ x.localLookAhead net p := by
  rw [localLookAhead]
  split_ifs with hn hset
  · exact le_rfl
  · exact le_foldl_min Time.max_nonneg fun c hc ↦
      (net.delay_pos c (List.mem_of_mem_filter hc)).le
  · refine le_foldl_min ?_ fun c hc ↦ (net.delay_pos c (List.mem_of_mem_filter hc)).le
    exact (hx.resolve_left hset).1.le

theorem Process.localLookAhead_le_max (hx : x.Preset) : x.localLookAhead net p ≤ Time.max := by
  rw [localLookAhead]
  split_ifs with hn hset
  · exact Time.max_nonneg
  · exact (foldl_min_le _ _ _).1
  · exact (foldl_min_le _ _ _).1.trans (hx.resolve_left hset).2

/-- The lookahead is at most the delay of every channel of the process. -/
theorem Process.localLookAhead_le (hc : c ∈ net.channels) (hp : c.a = p ∨ c.b = p) :
    x.localLookAhead net p ≤ c.delay := by
  have hn : ¬net.m_systemCount ≤ 1 := by
    have hb := net.bounded c hc
    have hd := net.distinct c hc
    omega
  rw [localLookAhead, if_neg hn]
  exact (foldl_min_le _ _ _).2 c (List.mem_filter.mpr ⟨hc, by simpa using hp⟩)

theorem System.recvbuf_bounds (hs : ∀ q < net.m_systemCount, (s.proc q).Preset) :
    0 ≤ s.recvbuf net ∧ s.recvbuf net ≤ Time.max := by
  refine foldl_max_bounds le_rfl Time.max_nonneg fun q hq ↦ ?_
  rw [Process.sendbuf]
  split_ifs
  · exact Time.max_nonneg
  · exact Process.localLookAhead_le_max (hs q (List.mem_range.mp hq))

theorem System.calculateLookAhead_le (hs : ∀ q < net.m_systemCount, (s.proc q).Preset) :
    s.calculateLookAhead net p ≤ (s.proc p).localLookAhead net p := by
  rw [calculateLookAhead]
  split_ifs with h
  · exact (System.recvbuf_bounds hs).2.trans h.1.ge
  · exact le_rfl

theorem System.calculateLookAhead_nonneg (hs : ∀ q < net.m_systemCount, (s.proc q).Preset)
    (hp : p < net.m_systemCount) : 0 ≤ s.calculateLookAhead net p := by
  rw [calculateLookAhead]
  split_ifs
  · exact (System.recvbuf_bounds hs).1
  · exact Process.localLookAhead_nonneg (hs p hp)

end LookAhead

/-! ## Next events and received packets -/

section Basics

variable {p q : ℕ} {x : Process} {s : System} {k : Packet}

theorem Process.nextTs_le_max : x.nextTs ≤ Time.max := by
  rw [nextTs]
  split_ifs with hf
  · exact le_rfl
  · exact (le_foldr_min_iff.mp le_rfl).1

/-- A time before all events that may still run is before the next one. -/
theorem Process.le_nextTs {b : ℤ} (hb : b ≤ Time.max)
    (hx : x.m_stop = false → ∀ e ∈ x.m_events, b ≤ e.ts) : b ≤ x.nextTs := by
  rw [nextTs]
  split_ifs with hf
  · exact hb
  · rw [isLocalFinished, Bool.or_eq_true, not_or, Bool.not_eq_true, Bool.not_eq_true] at hf
    exact le_foldr_min_iff.mpr ⟨hb, hx hf.2⟩

theorem Process.nextTs_le {e : SimEvent} (hstop : x.m_stop = false) (he : e ∈ x.m_events) :
    x.nextTs ≤ e.ts := by
  have hne : x.m_events.isEmpty = false := List.isEmpty_eq_false_iff.mpr (List.ne_nil_of_mem he)
  rw [nextTs, isLocalFinished, hstop, hne, Bool.or_false, if_neg Bool.false_ne_true]
  exact (le_foldr_min_iff.mp le_rfl).2 e he

theorem Process.receiveTs_eq (hnow : 0 ≤ x.m_currentTs) (hle : x.m_currentTs ≤ k.rxTime)
    (hmax : k.rxTime ≤ Time.max) : x.receiveTs k = k.rxTime := by
  rw [receiveTs, Time.sub_eq hnow hle hmax, add_sub_cancel]
  rw [Time.max] at hmax
  exact Int.emod_eq_of_lt (hnow.trans hle) (by omega)

theorem Process.isLocalFinished_iff :
    x.isLocalFinished = true ↔ x.m_stop = true ∨ x.m_events = [] := by
  rw [isLocalFinished, Bool.or_eq_true, List.isEmpty_iff, or_comm]

@[simp] theorem System.setProc_same : (s.setProc p x).proc p = x := if_pos rfl

theorem System.setProc_ne (h : q ≠ p) : (s.setProc p x).proc q = s.proc q := if_neg h

theorem System.sum_setProc {n : ℕ} (f : Process → ℕ) (hp : p < n) :
    ∑ q ∈ Finset.range n, f ((s.setProc p x).proc q) + f (s.proc p) =
      ∑ q ∈ Finset.range n, f (s.proc q) + f x := by
  have hmem : p ∈ Finset.range n := Finset.mem_range.mpr hp
  have hrest : ∑ q ∈ (Finset.range n).erase p, f ((s.setProc p x).proc q) =
      ∑ q ∈ (Finset.range n).erase p, f (s.proc q) :=
    Finset.sum_congr rfl fun q hq ↦ by rw [System.setProc_ne (Finset.ne_of_mem_erase hq)]
  rw [← Finset.add_sum_erase _ _ hmem, ← Finset.add_sum_erase _ (fun q ↦ f (s.proc q)) hmem, hrest,
    System.setProc_same]
  ring

end Basics

/-! ## The invariant -/

/-- What holds of a process at any time. -/
structure Process.Wf (p : ℕ) (x : Process) : Prop where
  now_nonneg : 0 ≤ x.m_currentTs
  ahead : ∀ e ∈ x.m_events, x.m_currentTs ≤ e.ts
  pending_dst : ∀ k ∈ x.pending, k.dst = p
  executed_dst : ∀ k ∈ x.executed, k.dst = p

/-- Every packet sent is in flight, waits for its receive event, or has been executed, and the
counts differ by the number of packets in flight. -/
structure Accounting (net : Network) (s : System) : Prop where
  counted : ∀ k, s.sent.count k =
    s.inFlight.count k + (s.proc k.dst).pending.count k + (s.proc k.dst).executed.count k
  balanced : ∑ q ∈ Finset.range net.m_systemCount, (s.proc q).m_txCount ≡
    ∑ q ∈ Finset.range net.m_systemCount, (s.proc q).m_rxCount + s.inFlight.length [MOD 2 ^ 32]

/-- A process before `Run`. -/
structure InSetup (x : Process) : Prop where
  phase : x.phase = .setup
  now : x.m_currentTs = 0
  preset : x.Preset

/-- A process in `Run`, with window `W`. -/
structure InWindow (net : Network) (W : ℤ) (p : ℕ) (x : Process) : Prop where
  phase : x.phase ≠ .setup ∧ x.phase ≠ .done
  lookAhead_nonneg : 0 ≤ x.m_lookAhead
  lookAhead_le : ∀ c ∈ net.channels, c.a = p ∨ c.b = p → x.m_lookAhead ≤ c.delay
  granted : x.m_grantedTime = if x.m_lookAhead = Time.max then Time.max else W + x.m_lookAhead
  now_le : x.m_currentTs ≤ x.m_grantedTime
  le_ts : x.m_stop = false → ∀ e ∈ x.m_events, W ≤ e.ts
  handler : x.phase = .handler → W ≤ x.m_currentTs
  waiting : ∀ lMsg, x.phase = .waiting lMsg → lMsg = x.lbtsMessage

/-- A packet in flight is not late for its receiver, whatever the receiver does until its granted
time. -/
structure OnTime (net : Network) (W : ℤ) (s : System) (k : Packet) : Prop where
  dst_lt : k.dst < net.m_systemCount
  granted_le : (s.proc k.dst).m_grantedTime ≤ k.rxTime
  le : W ≤ k.rxTime
  le_max : k.rxTime ≤ Time.max

/-- The processes are in `Run`, with window `W`. -/
structure Window (net : Network) (W : ℤ) (s : System) : Prop where
  nonneg : 0 ≤ W
  le_max : W ≤ Time.max
  procs : ∀ p < net.m_systemCount, InWindow net W p (s.proc p)
  onTime : ∀ k ∈ s.inFlight, OnTime net W s k

/-- `Run` has returned everywhere. -/
structure Finished (net : Network) (s : System) : Prop where
  phase : ∀ p < net.m_systemCount, (s.proc p).phase = .done
  finished : ∀ p < net.m_systemCount, (s.proc p).isLocalFinished = true
  inFlight : s.inFlight = []

/-- The invariant. -/
structure Inv (net : Network) (s : System) : Prop where
  procs : ∀ p < net.m_systemCount, (s.proc p).Wf p
  accounting : Accounting net s
  stage : ((∀ p < net.m_systemCount, InSetup (s.proc p)) ∧ s.inFlight = []) ∨
    (∃ W, Window net W s) ∨ Finished net s

/-! ## Steps of one process -/

section Local

variable {net : Network} {W : ℤ} {p : ℕ} {x : Process} {s : System} {k : Packet}

theorem Accounting.setProc (h : Accounting net s) (hp : p < net.m_systemCount)
    (hrx : x.m_rxCount = (s.proc p).m_rxCount) (htx : x.m_txCount = (s.proc p).m_txCount)
    (hcount : ∀ k, x.pending.count k + x.executed.count k =
      (s.proc p).pending.count k + (s.proc p).executed.count k) :
    Accounting net (s.setProc p x) where
  counted k := by
    have hk := h.counted k
    by_cases hdst : k.dst = p
    · have := hcount k
      rw [hdst] at hk ⊢
      rw [System.setProc_same]
      change s.sent.count k = s.inFlight.count k + _ + _
      omega
    · rwa [System.setProc_ne hdst]
  balanced := by
    have hsumTx := System.sum_setProc (s := s) (x := x) Process.m_txCount hp
    have hsumRx := System.sum_setProc (s := s) (x := x) Process.m_rxCount hp
    rw [htx, Nat.add_right_cancel_iff] at hsumTx
    rw [hrx, Nat.add_right_cancel_iff] at hsumRx
    rw [hsumTx, hsumRx]
    exact h.balanced

theorem OnTime.congr {s' : System} (h : OnTime net W s k)
    (hg : ∀ q < net.m_systemCount, (s'.proc q).m_grantedTime = (s.proc q).m_grantedTime) :
    OnTime net W s' k where
  dst_lt := h.dst_lt
  granted_le := (hg k.dst h.dst_lt).trans_le h.granted_le
  le := h.le
  le_max := h.le_max

theorem System.setProc_grantedTime (hg : x.m_grantedTime = (s.proc p).m_grantedTime) (q : ℕ) :
    ((s.setProc p x).proc q).m_grantedTime = (s.proc q).m_grantedTime := by
  by_cases hqp : q = p
  · rw [hqp, System.setProc_same, hg]
  · rw [System.setProc_ne hqp]

theorem Window.setProc (h : Window net W s) (hx : InWindow net W p x)
    (hg : x.m_grantedTime = (s.proc p).m_grantedTime) : Window net W (s.setProc p x) where
  nonneg := h.nonneg
  le_max := h.le_max
  procs q hq := by
    by_cases hqp : q = p
    · rwa [hqp, System.setProc_same]
    · rw [System.setProc_ne hqp]
      exact h.procs q hq
  onTime k hk := (h.onTime k hk).congr fun q _ ↦ System.setProc_grantedTime hg q

theorem Inv.step_local (h : Inv net s) (hp : p < net.m_systemCount) (hwf : x.Wf p)
    (hrx : x.m_rxCount = (s.proc p).m_rxCount) (htx : x.m_txCount = (s.proc p).m_txCount)
    (hcount : ∀ k, x.pending.count k + x.executed.count k =
      (s.proc p).pending.count k + (s.proc p).executed.count k)
    (hdone : (s.proc p).phase ≠ .done) (hsetup : InSetup (s.proc p) → InSetup x)
    (hg : x.m_grantedTime = (s.proc p).m_grantedTime)
    (hwindow : ∀ W, InWindow net W p (s.proc p) → InWindow net W p x) :
    Inv net (s.setProc p x) where
  procs q hq := by
    by_cases hqp : q = p
    · rwa [hqp, System.setProc_same]
    · rw [System.setProc_ne hqp]
      exact h.procs q hq
  accounting := h.accounting.setProc hp hrx htx hcount
  stage := by
    rcases h.stage with ⟨hs, hempty⟩ | ⟨W, hW⟩ | hf
    · refine .inl ⟨fun q hq ↦ ?_, hempty⟩
      by_cases hqp : q = p
      · rw [hqp, System.setProc_same]
        exact hsetup (hs p hp)
      · rw [System.setProc_ne hqp]
        exact hs q hq
    · exact .inr (.inl ⟨W, hW.setProc (hwindow W (hW.procs p hp)) hg⟩)
    · exact absurd (hf.phase p hp) hdone

theorem Phase.ne_done_of_canSchedule {f : Phase} (h : f.canSchedule = true) : f ≠ .done := by
  rintro rfl
  exact Bool.false_ne_true h

theorem InWindow.handler_of_canSchedule (h : InWindow net W p x)
    (hph : x.phase.canSchedule = true) : x.phase = .handler := by
  have hne := h.phase.1
  cases hx : x.phase with
  | setup => exact absurd hx hne
  | handler => rfl
  | loop | receiving | waiting | done =>
    rw [hx] at hph
    exact absurd hph Bool.false_ne_true

theorem Process.pending_erase {e : SimEvent} (he : e ∈ x.m_events) (k : Packet) :
    ((x.m_events.erase e).filterMap SimEvent.packet).count k + e.packet.toList.count k =
      x.pending.count k := by
  have hperm := (List.perm_cons_erase he).filterMap SimEvent.packet
  rw [pending, hperm.count_eq, List.filterMap_cons]
  rcases e.packet with _ | k'
  · rfl
  · rw [Option.toList_some, List.count_cons, List.count_cons, List.count_nil, Nat.zero_add]

theorem Inv.step_setMaximumLookAhead (h : Inv net s) (hp : p < net.m_systemCount)
    (hph : (s.proc p).phase = .setup) {lookAhead : ℤ} (hmax : lookAhead ≤ Time.max) :
    Inv net (s.setProc p ((s.proc p).setMaximumLookAhead lookAhead)) := by
  have hwf := h.procs p hp
  rw [Process.setMaximumLookAhead]
  split_ifs with hpos
  · refine h.step_local hp ⟨hwf.now_nonneg, hwf.ahead, hwf.pending_dst, hwf.executed_dst⟩ rfl rfl
      (fun _ ↦ rfl) ?_ (fun hs ↦ ?_) rfl fun W hW ↦ absurd hph hW.phase.1
    · rw [hph]
      exact Phase.noConfusion
    · exact { hs with preset := .inr ⟨hpos, hmax⟩ }
  · refine h.step_local hp hwf rfl rfl (fun _ ↦ rfl) ?_ id rfl fun W hW ↦ hW
    rw [hph]
    exact Phase.noConfusion

theorem Inv.step_schedule (h : Inv net s) (hp : p < net.m_systemCount)
    (hph : (s.proc p).phase.canSchedule = true) {delay : ℤ} (hdelay : 0 ≤ delay)
    (hmax : (s.proc p).m_currentTs + delay ≤ Time.max) :
    Inv net (s.setProc p ((s.proc p).schedule delay)) := by
  have hwf := h.procs p hp
  have hadd := Time.add_eq hwf.now_nonneg hdelay hmax
  have hpending : ((s.proc p).schedule delay).pending = (s.proc p).pending := by
    simp [Process.pending, Process.schedule]
  have hnow : (s.proc p).m_currentTs ≤ Time.add (s.proc p).m_currentTs delay := by
    rw [hadd]
    exact le_add_of_nonneg_right hdelay
  refine h.step_local hp ?_ rfl rfl (fun k ↦ ?_) (Phase.ne_done_of_canSchedule hph)
    (fun hs ↦ ⟨hs.phase, hs.now, hs.preset⟩) rfl fun W hW ↦ ?_
  · refine ⟨hwf.now_nonneg, fun e he ↦ ?_, ?_, hwf.executed_dst⟩
    · rcases List.mem_append.mp he with he | he
      · exact hwf.ahead e he
      · rw [List.mem_singleton.mp he]
        exact hnow
    · rw [hpending]
      exact hwf.pending_dst
  · rw [hpending]
    rfl
  · refine { hW with le_ts := fun hstop e he ↦ ?_, waiting := fun lMsg hm ↦ ?_ }
    · rcases List.mem_append.mp he with he | he
      · exact hW.le_ts hstop e he
      · rw [List.mem_singleton.mp he]
        exact (hW.handler (hW.handler_of_canSchedule hph)).trans hnow
    · exact Phase.noConfusion ((hW.handler_of_canSchedule hph).symm.trans hm)

theorem Inv.step_remove (h : Inv net s) (hp : p < net.m_systemCount)
    (hph : (s.proc p).phase.canSchedule = true) {ts : ℤ} (he : ⟨ts, none⟩ ∈ (s.proc p).m_events) :
    Inv net (s.setProc p { s.proc p with m_events := (s.proc p).m_events.erase ⟨ts, none⟩ }) := by
  have hwf := h.procs p hp
  refine h.step_local hp ?_ rfl rfl (fun k ↦ ?_) (Phase.ne_done_of_canSchedule hph)
    (fun hs ↦ ⟨hs.phase, hs.now, hs.preset⟩) rfl fun W hW ↦ ?_
  · refine ⟨hwf.now_nonneg, fun e he ↦ hwf.ahead e (List.mem_of_mem_erase he), fun k hk ↦ ?_,
      hwf.executed_dst⟩
    exact hwf.pending_dst k ((List.erase_sublist.filterMap _).subset hk)
  · have := Process.pending_erase he k
    rw [Option.toList_none, List.count_nil, Nat.add_zero] at this
    exact congrArg (· + _) this
  · refine { hW with
      le_ts := fun hstop e he ↦ hW.le_ts hstop e (List.mem_of_mem_erase he)
      waiting := fun lMsg hm ↦ ?_ }
    exact Phase.noConfusion ((hW.handler_of_canSchedule hph).symm.trans hm)

theorem Inv.step_stop (h : Inv net s) (hp : p < net.m_systemCount)
    (hph : (s.proc p).phase.canSchedule = true) :
    Inv net (s.setProc p { s.proc p with m_stop := true }) := by
  have hwf := h.procs p hp
  refine h.step_local hp ⟨hwf.now_nonneg, hwf.ahead, hwf.pending_dst, hwf.executed_dst⟩ rfl rfl
    (fun _ ↦ rfl) (Phase.ne_done_of_canSchedule hph) (fun hs ↦ ⟨hs.phase, hs.now, hs.preset⟩) rfl
    fun W hW ↦ { hW with le_ts := fun hstop ↦ ?_, waiting := fun lMsg hm ↦ ?_ }
  · exact absurd hstop.symm Bool.false_ne_true
  · exact Phase.noConfusion ((hW.handler_of_canSchedule hph).symm.trans hm)

theorem Inv.step_begin (h : Inv net s) (hp : p < net.m_systemCount) {e : SimEvent}
    (hph : (s.proc p).phase = .loop) (hlocal : (s.proc p).isLocalFinished = false)
    (he : e ∈ (s.proc p).m_events) (hleast : ∀ f ∈ (s.proc p).m_events, e.ts ≤ f.ts)
    (hgranted : e.ts ≤ (s.proc p).m_grantedTime) :
    Inv net (s.setProc p ((s.proc p).beginEvent e)) := by
  have hwf := h.procs p hp
  have hcount := Process.pending_erase he
  refine h.step_local hp ?_ rfl rfl (fun k ↦ ?_) ?_ (fun hs ↦ ?_) rfl fun W hW ↦ ?_
  · refine ⟨hwf.now_nonneg.trans (hwf.ahead e he), fun f hf ↦ hleast f (List.mem_of_mem_erase hf),
      fun k hk ↦ hwf.pending_dst k ((List.erase_sublist.filterMap _).subset hk), fun k hk ↦ ?_⟩
    rcases List.mem_append.mp hk with hk | hk
    · exact hwf.executed_dst k hk
    · exact hwf.pending_dst k (List.mem_filterMap.mpr ⟨e, he, Option.mem_toList.mp hk⟩)
  · change ((((s.proc p).m_events.erase e).filterMap _).count k) +
      ((s.proc p).executed ++ e.packet.toList).count k = _
    rw [List.count_append, ← hcount k]
    ring
  · rw [hph]
    exact Phase.noConfusion
  · exact Phase.noConfusion (hs.phase.symm.trans hph)
  · have hstop : (s.proc p).m_stop = false := by
      by_contra hstop
      rw [Bool.not_eq_false] at hstop
      exact Bool.false_ne_true (hlocal.symm.trans (Process.isLocalFinished_iff.mpr (.inl hstop)))
    exact { hW with
      phase := ⟨Phase.noConfusion, Phase.noConfusion⟩
      now_le := hgranted
      le_ts := fun hstop f hf ↦ hW.le_ts hstop f (List.mem_of_mem_erase hf)
      handler := fun _ ↦ hW.le_ts hstop e he
      waiting := fun lMsg hm ↦ Phase.noConfusion hm }

theorem Inv.step_phase (h : Inv net s) (hp : p < net.m_systemCount) {f : Phase}
    (hph : (s.proc p).phase ≠ .setup ∧ (s.proc p).phase ≠ .done)
    (hf : f ≠ .setup ∧ f ≠ .done ∧ f ≠ .handler)
    (hmsg : ∀ lMsg, f = .waiting lMsg → lMsg = (s.proc p).lbtsMessage) :
    Inv net (s.setPhase p f) := by
  have hwf := h.procs p hp
  exact h.step_local hp ⟨hwf.now_nonneg, hwf.ahead, hwf.pending_dst, hwf.executed_dst⟩ rfl rfl
    (fun _ ↦ rfl) hph.2 (fun hs ↦ absurd hs.phase hph.1) rfl fun W hW ↦
      { hW with
        phase := ⟨hf.1, hf.2.1⟩
        handler := fun hm ↦ absurd hm hf.2.2
        waiting := hmsg }

end Local

/-! ## Packets -/

section Packets

variable {net : Network} {W : ℤ} {p q : ℕ} {x : Process} {s : System} {k : Packet}

theorem InWindow.granted_le (h : InWindow net W p x) (hW : 0 ≤ W) {c : Channel}
    (hc : c ∈ net.channels) (hp : c.a = p ∨ c.b = p) : x.m_grantedTime ≤ W + c.delay := by
  have hle := h.lookAhead_le c hc hp
  rw [h.granted]
  split_ifs with hmax
  · rw [← hmax]
    exact hle.trans (le_add_of_nonneg_left hW)
  · exact add_le_add_right hle W

theorem Window.onTime_send (h : Window net W s) (hp : p < net.m_systemCount)
    (hph : (s.proc p).phase = .handler) {c : Channel} (hc : c ∈ net.channels) {rxTime : ℤ}
    (hrx : (s.proc p).m_currentTs + c.delay ≤ rxTime) (hmax : rxTime ≤ Time.max) :
    OnTime net W s ⟨s.sent.length, c.other p, rxTime⟩ := by
  have hnow : W ≤ (s.proc p).m_currentTs := (h.procs p hp).handler hph
  have hlt := net.other_lt hc (p := p)
  have hle : W + c.delay ≤ rxTime := (add_le_add_left hnow _).trans hrx
  refine ⟨hlt, ?_, ?_, hmax⟩
  · exact ((h.procs _ hlt).granted_le h.nonneg hc Channel.other_incident).trans hle
  · exact (le_add_of_nonneg_right (net.delay_pos c hc).le).trans hle

theorem Accounting.sendPacket (h : Accounting net s) (hp : p < net.m_systemCount) {rxTime : ℤ} :
    Accounting net (s.sendPacket p q rxTime) where
  counted k := by
    have hk := h.counted k
    have hproc : ((s.sendPacket p q rxTime).proc k.dst).pending = (s.proc k.dst).pending ∧
        ((s.sendPacket p q rxTime).proc k.dst).executed = (s.proc k.dst).executed := by
      by_cases hdst : k.dst = p <;> simp [System.sendPacket, System.setProc, hdst, Process.pending]
    rw [hproc.1, hproc.2]
    change (s.sent ++ [_]).count k = (s.inFlight ++ [_]).count k + _ + _
    rw [List.count_append, List.count_append, hk]
    ring
  balanced := by
    have hb := h.balanced
    set y : Process := { s.proc p with m_txCount := ((s.proc p).m_txCount + 1) % 2 ^ 32 } with hy
    have hsumTx := System.sum_setProc (s := s) (x := y) Process.m_txCount hp
    have hsumRx := System.sum_setProc (s := s) (x := y) Process.m_rxCount hp
    rw [Nat.add_right_cancel_iff] at hsumRx
    change ∑ q ∈ Finset.range net.m_systemCount, ((s.setProc p y).proc q).m_txCount ≡
      ∑ q ∈ Finset.range net.m_systemCount, ((s.setProc p y).proc q).m_rxCount +
        (s.inFlight ++ [_]).length [MOD 2 ^ 32]
    rw [hsumRx, List.length_append, List.length_singleton]
    have hytx : y.m_txCount = ((s.proc p).m_txCount + 1) % 2 ^ 32 := rfl
    rw [hytx] at hsumTx
    unfold Nat.ModEq at hb ⊢
    omega

theorem Inv.step_send (h : Inv net s) (hp : p < net.m_systemCount)
    (hph : (s.proc p).phase = .handler) {c : Channel} (hc : c ∈ net.channels) {rxTime : ℤ}
    (hrx : (s.proc p).m_currentTs + c.delay ≤ rxTime) (hmax : rxTime ≤ Time.max) :
    Inv net (s.sendPacket p (c.other p) rxTime) where
  procs q hq := by
    have hwf := h.procs q hq
    by_cases hqp : q = p
    · subst hqp
      rw [show (s.sendPacket q (c.other q) rxTime).proc q = _ from System.setProc_same]
      exact ⟨hwf.now_nonneg, hwf.ahead, hwf.pending_dst, hwf.executed_dst⟩
    · rwa [show (s.sendPacket p (c.other p) rxTime).proc q = _ from System.setProc_ne hqp]
  accounting := h.accounting.sendPacket hp
  stage := by
    rcases h.stage with ⟨hs, -⟩ | ⟨W, hW⟩ | hf
    · exact Phase.noConfusion ((hs p hp).phase.symm.trans hph)
    · have hlocal := hW.setProc (p := p)
        (x := { s.proc p with m_txCount := ((s.proc p).m_txCount + 1) % 2 ^ 32 })
        { hW.procs p hp with
          waiting := fun lMsg hm ↦ Phase.noConfusion (hph.symm.trans hm) } rfl
      refine .inr (.inl ⟨W, hW.nonneg, hW.le_max, hlocal.procs, fun k hk ↦ ?_⟩)
      have hk' : OnTime net W s k := by
        rcases List.mem_append.mp hk with hk | hk
        · exact hW.onTime k hk
        · rw [List.mem_singleton.mp hk]
          exact hW.onTime_send hp hph hc hrx hmax
      exact hk'.congr fun q _ ↦ System.setProc_grantedTime (p := p)
        (x := { s.proc p with m_txCount := ((s.proc p).m_txCount + 1) % 2 ^ 32 }) rfl q
    · exact Phase.noConfusion ((hf.phase p hp).symm.trans hph)

theorem Accounting.receiveMessage (h : Accounting net s) (hp : p < net.m_systemCount)
    (hk : k ∈ s.inFlight) (hdst : k.dst = p) : Accounting net (s.receiveMessage p k) where
  counted k' := by
    have hk' := h.counted k'
    have hflight := (List.perm_cons_erase hk).count_eq k'
    rw [List.count_cons] at hflight
    by_cases hne : k'.dst = p
    · rw [hne] at hk' ⊢
      rw [show (s.receiveMessage p k).proc p = _ from System.setProc_same]
      have hpending : ((s.proc p).receiveMessage k).pending = (s.proc p).pending ++ [k] := by
        simp [Process.pending, Process.receiveMessage]
      rw [hpending, List.count_append, List.count_singleton]
      change s.sent.count k' = (s.inFlight.erase k).count k' + _ + (s.proc p).executed.count k'
      omega
    · rw [show (s.receiveMessage p k).proc k'.dst = _ from System.setProc_ne hne]
      have hkne : ¬(k == k') = true := fun he ↦ hne (by rw [← beq_iff_eq.mp he, hdst])
      rw [if_neg hkne, Nat.add_zero] at hflight
      change s.sent.count k' = (s.inFlight.erase k).count k' + _ + _
      rw [← hflight, hk']
  balanced := by
    have hb := h.balanced
    have hsumTx := System.sum_setProc (s := s) (x := (s.proc p).receiveMessage k)
      Process.m_txCount hp
    have hsumRx := System.sum_setProc (s := s) (x := (s.proc p).receiveMessage k)
      Process.m_rxCount hp
    change ∑ q ∈ Finset.range net.m_systemCount, ((s.setProc p _).proc q).m_txCount ≡
      ∑ q ∈ Finset.range net.m_systemCount, ((s.setProc p _).proc q).m_rxCount +
        (s.inFlight.erase k).length [MOD 2 ^ 32]
    have hlen := List.length_erase_of_mem hk
    have hpos := List.length_pos_of_mem hk
    have htx : ((s.proc p).receiveMessage k).m_txCount = (s.proc p).m_txCount := rfl
    have hrx : ((s.proc p).receiveMessage k).m_rxCount = ((s.proc p).m_rxCount + 1) % 2 ^ 32 := rfl
    rw [htx, Nat.add_right_cancel_iff] at hsumTx
    rw [hrx] at hsumRx
    rw [hsumTx]
    unfold Nat.ModEq at hb ⊢
    omega

theorem Inv.receiveTs_eq (h : Inv net s) (hp : p < net.m_systemCount)
    (hph : (s.proc p).phase = .receiving) (hk : k ∈ s.inFlight) (hdst : k.dst = p) :
    (s.proc p).m_currentTs ≤ k.rxTime ∧ (s.proc p).receiveTs k = k.rxTime := by
  rcases h.stage with ⟨hs, -⟩ | ⟨W, hW⟩ | hf
  · exact Phase.noConfusion ((hs p hp).phase.symm.trans hph)
  · have hk' := hW.onTime k hk
    have hgranted := hk'.granted_le
    rw [hdst] at hgranted
    have hle := (hW.procs p hp).now_le.trans hgranted
    exact ⟨hle, Process.receiveTs_eq (h.procs p hp).now_nonneg hle hk'.le_max⟩
  · exact Phase.noConfusion ((hf.phase p hp).symm.trans hph)

theorem Inv.step_receive (h : Inv net s) (hp : p < net.m_systemCount)
    (hph : (s.proc p).phase = .receiving) (hk : k ∈ s.inFlight) (hdst : k.dst = p) :
    Inv net (s.receiveMessage p k) where
  procs q hq := by
    have hwf := h.procs q hq
    by_cases hqp : q = p
    · subst hqp
      obtain ⟨hle, hts⟩ := h.receiveTs_eq hq hph hk hdst
      rw [show (s.receiveMessage q k).proc q = _ from System.setProc_same]
      refine ⟨hwf.now_nonneg, fun e he ↦ ?_, fun k' hk' ↦ ?_, hwf.executed_dst⟩
      · rcases List.mem_append.mp he with he | he
        · exact hwf.ahead e he
        · rw [List.mem_singleton.mp he, hts]
          exact hle
      · rw [Process.pending, Process.receiveMessage, List.filterMap_append] at hk'
        rcases List.mem_append.mp hk' with hk' | hk'
        · exact hwf.pending_dst k' hk'
        · rw [List.mem_singleton.mp hk', hdst]
    · rwa [show (s.receiveMessage p k).proc q = _ from System.setProc_ne hqp]
  accounting := h.accounting.receiveMessage hp hk hdst
  stage := by
    obtain ⟨hle, hts⟩ := h.receiveTs_eq hp hph hk hdst
    rcases h.stage with ⟨hs, -⟩ | ⟨W, hW⟩ | hf
    · exact Phase.noConfusion ((hs p hp).phase.symm.trans hph)
    · have hx := hW.procs p hp
      have hlocal := hW.setProc (p := p) (x := (s.proc p).receiveMessage k)
        { hx with
          le_ts := fun hstop e he ↦ by
            rcases List.mem_append.mp he with he | he
            · exact hx.le_ts hstop e he
            · rw [List.mem_singleton.mp he, hts]
              exact (hW.onTime k hk).le
          waiting := fun lMsg hm ↦ Phase.noConfusion (hph.symm.trans hm) } rfl
      exact .inr (.inl ⟨W, hW.nonneg, hW.le_max, hlocal.procs, fun k' hk' ↦
        (hW.onTime k' (List.mem_of_mem_erase hk')).congr fun q _ ↦
          System.setProc_grantedTime (x := (s.proc p).receiveMessage k) rfl q⟩)
    · exact Phase.noConfusion ((hf.phase p hp).symm.trans hph)

end Packets

/-! ## Rounds -/

section Rounds

variable {net : Network} {W : ℤ} {p q : ℕ} {s : System}

/-- A step of all processes that keeps their events and counts. -/
theorem Accounting.congr {s' : System} (h : Accounting net s) (hsent : s'.sent = s.sent)
    (hflight : s'.inFlight = s.inFlight)
    (hproc : ∀ q, (s'.proc q).m_events = (s.proc q).m_events ∧
      (s'.proc q).executed = (s.proc q).executed ∧
      (s'.proc q).m_rxCount = (s.proc q).m_rxCount ∧
      (s'.proc q).m_txCount = (s.proc q).m_txCount) : Accounting net s' where
  counted k := by
    obtain ⟨hev, hex, -⟩ := hproc k.dst
    rw [hsent, hflight, Process.pending, hev, hex]
    exact h.counted k
  balanced := by
    rw [hflight, Finset.sum_congr rfl fun q _ ↦ (hproc q).2.2.1,
      Finset.sum_congr rfl fun q _ ↦ (hproc q).2.2.2]
    exact h.balanced

theorem System.run_frame (net : Network) (s : System) (q : ℕ) :
    ((s.run net).proc q).m_events = (s.proc q).m_events ∧
    ((s.run net).proc q).executed = (s.proc q).executed ∧
    ((s.run net).proc q).m_rxCount = (s.proc q).m_rxCount ∧
    ((s.run net).proc q).m_txCount = (s.proc q).m_txCount ∧
    ((s.run net).proc q).m_currentTs = (s.proc q).m_currentTs := by
  rw [System.run]
  dsimp only
  split_ifs <;> exact ⟨rfl, rfl, rfl, rfl, rfl⟩

theorem System.allgather_frame (net : Network) (s : System) (q : ℕ) :
    ((s.allgather net).proc q).m_events = (s.proc q).m_events ∧
    ((s.allgather net).proc q).executed = (s.proc q).executed ∧
    ((s.allgather net).proc q).m_rxCount = (s.proc q).m_rxCount ∧
    ((s.allgather net).proc q).m_txCount = (s.proc q).m_txCount ∧
    ((s.allgather net).proc q).m_currentTs = (s.proc q).m_currentTs := by
  rw [System.allgather]
  dsimp only
  split_ifs <;> exact ⟨rfl, rfl, rfl, rfl, rfl⟩

theorem Process.Wf.congr {x y : Process} (h : x.Wf p) (hev : y.m_events = x.m_events)
    (hex : y.executed = x.executed) (hnow : y.m_currentTs = x.m_currentTs) : y.Wf p := by
  refine ⟨?_, ?_, ?_, ?_⟩
  · rw [hnow]
    exact h.now_nonneg
  · rw [hnow, hev]
    exact h.ahead
  · rw [pending, hev]
    exact h.pending_dst
  · rw [hex]
    exact h.executed_dst

theorem Inv.step_run (h : Inv net s) (hph : ∀ q < net.m_systemCount, (s.proc q).phase = .setup) :
    Inv net (s.run net) where
  procs q hq := by
    obtain ⟨hev, hex, -, -, hnow⟩ := System.run_frame net s q
    exact (h.procs q hq).congr hev hex hnow
  accounting := h.accounting.congr rfl rfl fun q ↦ by
    obtain ⟨hev, hex, hrx, htx, -⟩ := System.run_frame net s q
    exact ⟨hev, hex, hrx, htx⟩
  stage := by
    have hpos := net.systemCount_pos
    rcases h.stage with ⟨hs, hempty⟩ | ⟨W, hW⟩ | hf
    · have hpre : ∀ q < net.m_systemCount, (s.proc q).Preset := fun q hq ↦ (hs q hq).preset
      refine .inr (.inl ⟨0, le_rfl, Time.max_nonneg, fun q hq ↦ ?_, fun k hk ↦ ?_⟩)
      · have hnonneg := System.calculateLookAhead_nonneg hpre hq
        rw [show (s.run net).proc q = _ from if_pos hq]
        refine ⟨⟨Phase.noConfusion, Phase.noConfusion⟩, hnonneg, fun c hc hp ↦ ?_, ?_, ?_,
          fun _ e he ↦ ?_, fun hf ↦ Phase.noConfusion hf, fun _ hm ↦ Phase.noConfusion hm⟩
        · exact (System.calculateLookAhead_le hpre).trans (Process.localLookAhead_le hc hp)
        · dsimp only
          split_ifs with hmax
          · exact hmax
          · rw [zero_add]
        · exact (hs q hq).now.le.trans hnonneg
        · exact (hs q hq).now.ge.trans ((h.procs q hq).ahead e he)
      · rw [show (s.run net).inFlight = [] from hempty] at hk
        exact absurd hk List.not_mem_nil
    · exact absurd (hph 0 hpos) (hW.procs 0 hpos).phase.1
    · exact Phase.noConfusion ((hph 0 hpos).symm.trans (hf.phase 0 hpos))

/-! ### The exchange -/

/-- All processes of the window wait for the exchange. -/
def AllWait (net : Network) (s : System) : Prop :=
  ∀ q < net.m_systemCount, ((s.proc q).phase.message).isSome = true

theorem Window.m_pLBTS_eq (h : Window net W s) (hwait : AllWait net s)
    (hq : q < net.m_systemCount) : s.m_pLBTS q = (s.proc q).lbtsMessage := by
  have hsome := hwait q hq
  rw [System.m_pLBTS]
  cases hph : (s.proc q).phase with
  | waiting lMsg => exact (h.procs q hq).waiting lMsg hph
  | setup | loop | handler | receiving | done =>
    rw [hph] at hsome
    exact absurd hsome Bool.false_ne_true

theorem Window.smallestTime_le (h : Window net W s) (hwait : AllWait net s)
    (hq : q < net.m_systemCount) : s.smallestTime net ≤ (s.proc q).nextTs := by
  have hmin := foldl_min_le (fun q ↦ (s.m_pLBTS q).m_smallestTime)
    (List.range' 1 (net.m_systemCount - 1)) (s.m_pLBTS 0).m_smallestTime
  have heq : (s.m_pLBTS q).m_smallestTime = (s.proc q).nextTs := by
    rw [h.m_pLBTS_eq hwait hq]
    rfl
  rw [← heq]
  by_cases hzero : q = 0
  · rw [hzero]
    exact hmin.1
  · exact hmin.2 q (List.mem_range'_1.mpr ⟨by omega, by omega⟩)

theorem Window.le_smallestTime (h : Window net W s) (hwait : AllWait net s) : W ≤ s.smallestTime net := by
  have hle : ∀ q < net.m_systemCount, W ≤ (s.m_pLBTS q).m_smallestTime := fun q hq ↦ by
    rw [h.m_pLBTS_eq hwait hq]
    exact Process.le_nextTs h.le_max (h.procs q hq).le_ts
  refine le_foldl_min (hle 0 net.systemCount_pos) fun q hq ↦ hle q ?_
  have := List.mem_range'_1.mp hq
  omega

theorem Window.globalFinished_iff (h : Window net W s) (hwait : AllWait net s) :
    s.globalFinished net = true ↔
      ∀ q < net.m_systemCount, (s.proc q).isLocalFinished = true := by
  rw [System.globalFinished, List.all_eq_true]
  refine ⟨fun hall q hq ↦ ?_, fun hall q hq ↦ ?_⟩
  · have := hall q (List.mem_range.mpr hq)
    rwa [h.m_pLBTS_eq hwait hq] at this
  · rw [h.m_pLBTS_eq hwait (List.mem_range.mp hq)]
    exact hall q (List.mem_range.mp hq)

theorem Window.inFlight_eq_nil (h : Window net W s) (hacc : Accounting net s)
    (hwait : AllWait net s) (htot : s.totRx net = s.totTx net)
    (hlen : s.inFlight.length < 2 ^ 32) : s.inFlight = [] := by
  have hrx : ∑ q ∈ Finset.range net.m_systemCount, (s.m_pLBTS q).m_rxCount =
      ∑ q ∈ Finset.range net.m_systemCount, (s.proc q).m_rxCount :=
    Finset.sum_congr rfl fun q hq ↦ by rw [h.m_pLBTS_eq hwait (Finset.mem_range.mp hq)]; rfl
  have htx : ∑ q ∈ Finset.range net.m_systemCount, (s.m_pLBTS q).m_txCount =
      ∑ q ∈ Finset.range net.m_systemCount, (s.proc q).m_txCount :=
    Finset.sum_congr rfl fun q hq ↦ by rw [h.m_pLBTS_eq hwait (Finset.mem_range.mp hq)]; rfl
  have hb := hacc.balanced
  rw [System.totRx, System.totTx, hrx, htx] at htot
  unfold Nat.ModEq at hb
  rw [← List.length_eq_zero_iff]
  omega

/-- A round that is not the last keeps the window, or moves it. -/
theorem Window.allgather (h : Window net W s) (hacc : Accounting net s) (hwait : AllWait net s)
    (hlen : s.inFlight.length < 2 ^ 32)
    (hfin : s.globalFinished net = false)
    (hmax : ∀ p < net.m_systemCount, (s.proc p).m_lookAhead ≠ Time.max →
      ∃ q < net.m_systemCount, (s.proc q).nextTs + (s.proc p).m_lookAhead ≤ Time.max) :
    ∃ W', Window net W' (s.allgather net) := by
  have hproc : ∀ q < net.m_systemCount, (s.allgather net).proc q =
      { s.proc q with m_grantedTime := s.grantedTime net (s.proc q), phase := .loop } := by
    intro q hq
    rw [show (s.allgather net).proc q = _ from if_pos hq, hfin, if_neg Bool.false_ne_true]
  by_cases htot : s.totRx net = s.totTx net
  · -- nothing is in flight, and the window moves to the smallest next time
    have hempty := h.inFlight_eq_nil hacc hwait htot hlen
    have hW := h.le_smallestTime hwait
    have hsm : ∀ q < net.m_systemCount, s.smallestTime net ≤ (s.proc q).nextTs := fun q hq ↦
      h.smallestTime_le hwait hq
    refine ⟨s.smallestTime net, h.nonneg.trans hW, (hsm 0 net.systemCount_pos).trans Process.nextTs_le_max,
      fun q hq ↦ ?_, fun k hk ↦ ?_⟩
    · have hx := h.procs q hq
      have hg : s.grantedTime net (s.proc q) = if (s.proc q).m_lookAhead = Time.max then Time.max
          else s.smallestTime net + (s.proc q).m_lookAhead := by
        rw [System.grantedTime, if_pos htot]
        split_ifs with hL
        · rfl
        · obtain ⟨r, hr, hle⟩ := hmax q hq hL
          exact Time.add_eq (h.nonneg.trans hW) hx.lookAhead_nonneg
            ((add_le_add_left (hsm r hr) _).trans hle)
      rw [hproc q hq]
      refine ⟨⟨Phase.noConfusion, Phase.noConfusion⟩, hx.lookAhead_nonneg, hx.lookAhead_le, hg, ?_,
        fun hstop e he ↦ (hsm q hq).trans (Process.nextTs_le hstop he),
        fun hf ↦ Phase.noConfusion hf, fun _ hm ↦ Phase.noConfusion hm⟩
      have hnow := hx.now_le
      rw [hx.granted] at hnow
      change (s.proc q).m_currentTs ≤ s.grantedTime net (s.proc q)
      rw [hg]
      split_ifs at hnow ⊢
      · exact hnow
      · exact hnow.trans (add_le_add_left hW _)
    · rw [show (s.allgather net).inFlight = [] from hempty] at hk
      exact absurd hk List.not_mem_nil
  · -- packets are in flight, and the granted times stay
    have hg : ∀ q, s.grantedTime net (s.proc q) = (s.proc q).m_grantedTime := fun q ↦ if_neg htot
    refine ⟨W, h.nonneg, h.le_max, fun q hq ↦ ?_, fun k hk ↦ ?_⟩
    · have hx := h.procs q hq
      rw [hproc q hq, hg]
      exact { hx with
        phase := ⟨Phase.noConfusion, Phase.noConfusion⟩
        handler := fun hf ↦ Phase.noConfusion hf
        waiting := fun _ hm ↦ Phase.noConfusion hm }
    · refine (h.onTime k hk).congr fun q hq ↦ ?_
      rw [hproc q hq, hg]

theorem Inv.step_allgather (h : Inv net s) (hwait : AllWait net s)
    (hlen : s.inFlight.length < 2 ^ 32)
    (hlost : (∀ q < net.m_systemCount, (s.proc q).isLocalFinished = true) → s.inFlight = [])
    (hmax : (∃ q < net.m_systemCount, (s.proc q).isLocalFinished = false) →
      ∀ p < net.m_systemCount, (s.proc p).m_lookAhead ≠ Time.max →
        ∃ q < net.m_systemCount, (s.proc q).nextTs + (s.proc p).m_lookAhead ≤ Time.max) :
    Inv net (s.allgather net) where
  procs q hq := by
    obtain ⟨hev, hex, -, -, hnow⟩ := System.allgather_frame net s q
    exact (h.procs q hq).congr hev hex hnow
  accounting := h.accounting.congr rfl rfl fun q ↦ by
    obtain ⟨hev, hex, hrx, htx, -⟩ := System.allgather_frame net s q
    exact ⟨hev, hex, hrx, htx⟩
  stage := by
    have hpos := net.systemCount_pos
    rcases h.stage with ⟨hs, -⟩ | ⟨W, hW⟩ | hf
    · have hsome := hwait 0 hpos
      rw [(hs 0 hpos).phase] at hsome
      exact absurd hsome Bool.false_ne_true
    · cases hfin : s.globalFinished net with
      | true =>
        have hall := (hW.globalFinished_iff hwait).mp hfin
        refine .inr (.inr ⟨fun q hq ↦ ?_, fun q hq ↦ ?_, hlost hall⟩)
        · rw [show (s.allgather net).proc q = _ from if_pos hq, hfin, if_pos rfl]
        · rw [show (s.allgather net).proc q = _ from if_pos hq]
          exact hall q hq
      | false =>
        refine .inr (.inl (hW.allgather h.accounting hwait hlen hfin (hmax ?_)))
        by_contra hno
        refine Bool.false_ne_true (hfin.symm.trans ((hW.globalFinished_iff hwait).mpr fun q hq ↦ ?_))
        by_contra hq'
        exact hno ⟨q, hq, Bool.not_eq_true _ ▸ hq'⟩
    · have hsome := hwait 0 hpos
      rw [hf.phase 0 hpos] at hsome
      exact absurd hsome Bool.false_ne_true

end Rounds

/-! ## All steps -/

section Runs

variable {net : Network} {s : System}

theorem inv_init : Inv net (machine net).init where
  procs _ _ :=
    { now_nonneg := le_rfl
      ahead := fun _ he ↦ absurd he List.not_mem_nil
      pending_dst := fun _ hk ↦ absurd hk List.not_mem_nil
      executed_dst := fun _ hk ↦ absurd hk List.not_mem_nil }
  accounting :=
    { counted := fun _ ↦ rfl
      balanced := rfl }
  stage := .inl ⟨fun _ _ ↦ ⟨rfl, rfl, .inl rfl⟩, rfl⟩

theorem inv_step {op : Op} {s' : System} (h : Inv net s) (hok : NoPacketLost net s op)
    (hs : (machine net).next s op = some s') : Inv net s' := by
  cases op with
  | setMaximumLookAhead p lookAhead =>
    simp only [machine, Option.ite_none_right_eq_some, Option.some_inj] at hs
    obtain ⟨⟨hp, hph, hmax⟩, rfl⟩ := hs
    exact h.step_setMaximumLookAhead hp hph hmax
  | schedule p delay =>
    simp only [machine, Option.ite_none_right_eq_some, Option.some_inj] at hs
    obtain ⟨⟨hp, hph, hdelay⟩, rfl⟩ := hs
    exact h.step_schedule hp hph hdelay hok
  | remove p ts =>
    simp only [machine, Option.ite_none_right_eq_some, Option.some_inj] at hs
    obtain ⟨⟨hp, hph, he⟩, rfl⟩ := hs
    exact h.step_remove hp hph he
  | stop p =>
    simp only [machine, Option.ite_none_right_eq_some, Option.some_inj] at hs
    obtain ⟨⟨hp, hph⟩, rfl⟩ := hs
    exact h.step_stop hp hph
  | run =>
    simp only [machine, Option.ite_none_right_eq_some, Option.some_inj] at hs
    obtain ⟨hph, rfl⟩ := hs
    exact h.step_run hph
  | begin p e =>
    simp only [machine, Option.ite_none_right_eq_some, Option.some_inj] at hs
    obtain ⟨⟨hp, hph, hlocal, he, hleast, hgranted⟩, rfl⟩ := hs
    exact h.step_begin hp hph hlocal he hleast hgranted
  | send p c rxTime =>
    simp only [machine, Option.ite_none_right_eq_some, Option.some_inj] at hs
    obtain ⟨⟨hp, hph, hc, -, hrx, hmax⟩, rfl⟩ := hs
    exact h.step_send hp hph hc hrx hmax
  | endEvent p =>
    simp only [machine, Option.ite_none_right_eq_some, Option.some_inj] at hs
    obtain ⟨⟨hp, hph⟩, rfl⟩ := hs
    apply h.step_phase hp <;> simp [hph]
  | sync p =>
    simp only [machine, Option.ite_none_right_eq_some, Option.some_inj] at hs
    obtain ⟨⟨hp, hph, -⟩, rfl⟩ := hs
    apply h.step_phase hp <;> simp [hph]
  | receive p k =>
    simp only [machine, Option.ite_none_right_eq_some, Option.some_inj] at hs
    obtain ⟨⟨hp, hph, hk, hdst⟩, rfl⟩ := hs
    exact h.step_receive hp hph hk hdst
  | wait p =>
    simp only [machine, Option.ite_none_right_eq_some, Option.some_inj] at hs
    obtain ⟨⟨hp, hph⟩, rfl⟩ := hs
    refine h.step_phase hp (by simp [hph]) (by simp) fun lMsg hm ↦ ?_
    exact (Phase.waiting.inj hm).symm
  | allgather =>
    simp only [machine, Option.ite_none_right_eq_some, Option.some_inj] at hs
    obtain ⟨hwait, rfl⟩ := hs
    exact h.step_allgather hwait hok.1 hok.2.1 hok.2.2

theorem Inv.causal (h : Inv net s) {op : Op} {s' : System}
    (hs : (machine net).next s op = some s') : Causal s op := by
  cases op with
  | receive p k =>
    simp only [machine, Option.ite_none_right_eq_some] at hs
    obtain ⟨⟨hp, hph, hk, hdst⟩, -⟩ := hs
    obtain ⟨hle, hts⟩ := h.receiveTs_eq hp hph hk hdst
    exact hle.trans hts.ge
  | setMaximumLookAhead | schedule | remove | stop | run | begin | send | endEvent | sync | wait
  | allgather => trivial

theorem Inv.complete (h : Inv net s) : Complete net s := by
  intro p hp hdone
  have hf : Finished net s := by
    rcases h.stage with ⟨hs, -⟩ | ⟨W, hW⟩ | hf
    · exact Phase.noConfusion ((hs p hp).phase.symm.trans hdone)
    · exact absurd hdone (hW.procs p hp).phase.2
    · exact hf
  have hfin : ∀ q < net.m_systemCount, (s.proc q).m_stop = true ∨ (s.proc q).m_events = [] :=
    fun q hq ↦ Process.isLocalFinished_iff.mp (hf.finished q hq)
  refine ⟨hfin, hf.inFlight, fun hstop q hq ↦ ?_⟩
  have hevents : (s.proc q).m_events = [] :=
    (hfin q hq).resolve_left fun hs ↦ Bool.false_ne_true ((hstop q hq).symm.trans hs)
  rw [List.perm_iff_count]
  intro k
  by_cases hk : k.dst = q
  · -- counted: nothing is in flight, and nothing is pending
    have hcount := h.accounting.counted k
    rw [hf.inFlight, hk, Process.pending, hevents] at hcount
    rw [List.count_filter (by simpa using hk), hcount]
    simp
  · rw [List.count_eq_zero.mpr fun hmem ↦ hk ((h.procs q hq).executed_dst k hmem),
      List.count_eq_zero.mpr fun hmem ↦ hk (by simpa using (List.mem_filter.mp hmem).2)]

end Runs

/-- **Simulation in granted time windows is causal and complete in every run that loses no packet.**
No packet is late, and when `Run` returns every packet sent has been executed. -/
theorem causal_complete_of_noPacketLost (net : Network) {ops : List Op} {s : System}
    (hr : (machine net).Run (NoPacketLost net) ops s) :
    (∀ op s', (machine net).next s op = some s' → Causal s op) ∧ Complete net s := by
  have hinv : Inv net s := hr.invariant inv_init fun _ _ _ hi hok hs ↦ inv_step hi hok hs
  exact ⟨fun _ _ hs ↦ hinv.causal hs, hinv.complete⟩

/-! ## A lost packet -/

instance (net : Network) (s : System) : ∀ op, Decidable (NoPacketLost net s op)
  | .schedule _ _ => inferInstanceAs (Decidable (_ ≤ _))
  | .allgather => inferInstanceAs (Decidable (_ ∧ _ ∧ _))
  | .setMaximumLookAhead _ _ | .remove _ _ | .stop _ | .run | .begin _ _ | .send _ _ _
  | .endEvent _ | .sync _ | .receive _ _ | .wait _ => isTrue trivial

/-- Two processes joined by a channel of delay `4`. -/
def twoProcesses : Network where
  m_systemCount := 2
  systemCount_pos := by decide
  channels := [⟨0, 1, 4⟩]
  delay_pos := by decide
  delay_le := by decide
  distinct := by decide
  bounded := by decide

/-- Process `0` has one event, which sends a packet; then both processes are finished and enter the
round. -/
def oneEventOps : List Op :=
  [.schedule 0 0, .run, .begin 0 ⟨0, none⟩, .send 0 ⟨0, 1, 4⟩ 4, .endEvent 0, .sync 0, .wait 0,
    .sync 1]

/-- The packet arrives in time for the round, and is executed in the next one. -/
def inTimeOps : List Op :=
  oneEventOps ++
  [.receive 1 ⟨0, 1, 4⟩, .wait 1, .allgather, .begin 1 ⟨4, some ⟨0, 1, 4⟩⟩, .endEvent 1,
    .sync 1, .wait 1, .sync 0, .wait 0, .allgather]

theorem causal_complete_inTimeOps : ∃ s,
    (machine twoProcesses).Run (NoPacketLost twoProcesses) inTimeOps s ∧
    (∀ op s', (machine twoProcesses).next s op = some s' → Causal s op) ∧
    Complete twoProcesses s := by
  refine Machine.exists_run_and_allowed (p := fun s ↦ (s.proc 1).phase = .done) (by decide) (by decide)
    fun s hr _ ↦ ?_
  exact causal_complete_of_noPacketLost twoProcesses hr

/-- **The packet misses the round, and is lost**: `Run` returns with the packet in flight. -/
theorem not_complete_oneEventOps : ∃ s,
    (machine twoProcesses).Run Machine.unguarded (oneEventOps ++ [.wait 1, .allgather]) s ∧
    ¬Complete twoProcesses s := by
  refine Machine.exists_run_and (p := fun s ↦ (s.proc 1).phase = .done ∧ s.inFlight = [⟨0, 1, 4⟩])
    (by decide) fun s hr ⟨hdone, hflight⟩ ↦ ?_
  refine fun hc ↦ ?_
  have hempty := (hc 1 (by decide) hdone).2.1
  rw [hflight] at hempty
  exact List.cons_ne_nil _ _ hempty

end GrantedTimeWindow

end Ns3
