import Ns3.Library.Machine
import Ns3.Library.PromiseLink
import Ns3.Mpi.Channel

/-!
# Parallel simulation with null messages

Every `NullMessageSimulatorImpl` process runs its events up to its *safe time*, the smallest of the
guarantees its neighbours have sent. A guarantee says that the sender will not send a packet due
before it. It travels in null messages, sent by an event of each bundle that reschedules itself, and
in every data packet, and it is computed by `CalculateGuaranteeTime` as the delay of the bundle after
the sender's next event or its own safe time, whichever is earlier.

`NullMessage.machine` is the whole system: the processes, and between any two of them a first-in
first-out list of messages in flight. A step is one step of one process: a call of a handler, the
receipt of a message, or a turn of the main loop. A handler is whatever happens between `begin` and
`endEvent`.

## The invariant

Every link keeps its promises, in the sense of `PromiseLink`; a process that made the promise `g` on
a bundle of delay `d` has `g - d` before its safe time and before every pending event but the null
message event of that bundle, which makes the next promise before it does anything else.

A data packet is sent in the middle of an event, and its guarantee counts the pending events but not
what the event still does. If the same handler then schedules an event, or sends another packet,
before the time it has just promised, the promise is broken. `KeepsPromises` excludes this, and the
overflow of 64-bit times; the results hold in every run of such steps.
-/

namespace Ns3

namespace NullMessage

/-! ## Channels and bundles -/

/-- The remote channels, all of positive delay, and the time between two null messages:
`m_schedulerTune` times the delay of the bundle, rounded. -/
structure Network where
  channels : List Channel
  delay_pos : ∀ c ∈ channels, 0 < c.delay
  delay_le : ∀ c ∈ channels, c.delay ≤ Time.max
  distinct : ∀ c ∈ channels, c.a ≠ c.b
  tuned : ℤ → ℤ
  tuned_nonneg : ∀ d, 0 ≤ d → 0 ≤ tuned d

namespace Network

variable (net : Network)

/-- The channels of the bundle of `p` to `q`. -/
def bundle (p q : ℕ) : List Channel :=
  net.channels.filter fun c ↦ (c.a = p ∧ c.b = q) ∨ (c.a = q ∧ c.b = p)

/-- `RemoteChannelBundle::m_delay`, the smallest delay of its channels. -/
def delay (p q : ℕ) : ℤ := (net.bundle p q).foldl (fun d c ↦ min d c.delay) Time.max

/-- The processes that `p` has a bundle to. -/
def neighbors (p : ℕ) : List ℕ :=
  ((net.channels.filter fun c ↦ c.a = p ∨ c.b = p).map fun c ↦ c.other p).dedup

end Network

/-! ## Processes -/

/-- What an event does when it is invoked. -/
inductive Kind
  /-- An event of the simulated network, with an arbitrary handler. -/
  | app
  /-- `NullMessageEventHandler` for the bundle to `q`. -/
  | null (q : ℕ)
  /-- `Simulator::Stop`. -/
  | stop
  deriving DecidableEq, Repr

/-- A pending event. -/
structure SimEvent where
  ts : ℤ
  impl : ℕ
  kind : Kind
  deriving DecidableEq, Repr

/-- Where a process is. -/
inductive Phase
  /-- Before `Run`. -/
  | setup
  /-- In `InitializeNullMessageEvents`, with the bundles `rest` left. -/
  | starting (rest : List ℕ)
  /-- At the head of the loop of `Run`. -/
  | loop
  /-- In a handler, which has sent packets. Each is recorded as its destination and the minimum of
  next event and safe time when it was sent. -/
  | handler (sent : List (ℕ × ℤ))
  /-- In `HandleArrivingMessagesNonBlocking`. -/
  | polling
  deriving DecidableEq, Repr

/-- A `NullMessageSimulatorImpl`, with the bundles of its `RemoteChannelBundleManager`. -/
structure Process where
  m_events : List SimEvent
  m_currentTs : ℤ
  m_safeTime : ℤ
  m_stop : Bool
  /-- Address of the next event implementation. -/
  nextImpl : ℕ
  /-- Event implementations whose `m_cancel` is set. -/
  cancelled : List ℕ
  m_guaranteeTime : ℕ → ℤ
  m_nullEventId : ℕ → ℕ
  phase : Phase

namespace Process

/-- A process before `Run`. -/
def create : Process := ⟨[], 0, 0, false, 1, [], fun _ ↦ 0, fun _ ↦ 0, .setup⟩

variable (net : Network) (p : ℕ) (x : Process)

/-- `Next`: the time of the first pending event. -/
def next : ℤ := x.m_events.foldr (fun e t ↦ min e.ts t) Time.max

/-- `Schedule`, and `ScheduleWithContext`. -/
def schedule (delay : ℤ) (kind : Kind) : Process :=
  { x with
    m_events := x.m_events ++ [⟨Time.add x.m_currentTs delay, x.nextImpl, kind⟩]
    nextImpl := x.nextImpl + 1 }

/-- `Cancel` of an event that has not expired. -/
def cancel (impl : ℕ) : Process :=
  if impl ∈ x.m_events.map SimEvent.impl then { x with cancelled := impl :: x.cancelled } else x

def calculateGuaranteeTime (q : ℕ) : ℤ := Time.add (min x.next x.m_safeTime) (net.delay p q)

def scheduleNullMessageEvent (q : ℕ) : Process :=
  { x.schedule (net.tuned (net.delay p q)) (.null q) with
    m_nullEventId := fun r ↦ if r = q then x.nextImpl else x.m_nullEventId r }

def rescheduleNullMessageEvent (q : ℕ) : Process :=
  (x.cancel (x.m_nullEventId q)).scheduleNullMessageEvent net p q

/-- `RemoteChannelBundleManager::GetSafeTime`. -/
def getSafeTime : ℤ :=
  (net.neighbors p).foldl (fun t q ↦ min t (x.m_guaranteeTime q)) Time.max

def calculateSafeTime : Process := { x with m_safeTime := x.getSafeTime net p }

/-- `ProcessOneEvent` up to `Invoke`, when the scheduler returns `e`. -/
def beginEvent (e : SimEvent) : Process :=
  { x with m_events := x.m_events.erase e, m_currentTs := e.ts }

end Process

/-! ## The system -/

/-- The times in a message; a null message has `rxTime` zero. -/
structure Message where
  rxTime : ℤ
  guaranteeUpdate : ℤ
  deriving DecidableEq, Repr

/-- The time a message is due at, if it is a packet. -/
def Message.due (m : Message) : Option ℤ := if 0 < m.rxTime then some m.rxTime else none

/-- All processes, and the messages in flight from each to each. -/
structure System where
  proc : ℕ → Process
  chan : ℕ → ℕ → List Message

namespace System

variable (net : Network) (s : System)

def setProc (p : ℕ) (x : Process) : System :=
  { s with proc := fun r ↦ if r = p then x else s.proc r }

/-- `MPI_Isend`. -/
def isend (p q : ℕ) (m : Message) : System :=
  { s with chan := fun a b ↦ if a = p ∧ b = q then s.chan a b ++ [m] else s.chan a b }

/-- `SendPacket`, to a node of process `q`. -/
def sendPacket (p q : ℕ) (rxTime : ℤ) : System :=
  let x := s.proc p
  (s.setProc p (x.rescheduleNullMessageEvent net p q)).isend p q
    ⟨rxTime, x.calculateGuaranteeTime net p q⟩

def nullMessageEventHandler (p q : ℕ) : System :=
  let x := s.proc p
  (s.setProc p (x.scheduleNullMessageEvent net p q)).isend p q
    ⟨0, x.calculateGuaranteeTime net p q⟩

/-- One round of `InitializeNullMessageEvents`. -/
def initializeNullMessageEvent (p q : ℕ) : System :=
  (s.setProc p ((s.proc p).scheduleNullMessageEvent net p q)).isend p q ⟨0, net.delay p q⟩

/-- One message of `ReceiveMessages`. -/
def receiveMessage (p q : ℕ) (m : Message) (l : List Message) : System :=
  let x := s.proc p
  let x := if 0 < m.rxTime then x.schedule (Time.sub m.rxTime x.m_currentTs) .app else x
  let x := { x with
    m_guaranteeTime := fun r ↦ if r = q then m.guaranteeUpdate else x.m_guaranteeTime r }
  { s.setProc p x with chan := fun a b ↦ if a = q ∧ b = p then l else s.chan a b }

/-- Move process `p` to another phase. -/
def setPhase (p : ℕ) (phase : Phase) : System := s.setProc p { s.proc p with phase := phase }

end System

/-- The steps of the processes. -/
inductive Op
  /-- `Schedule`, by the program before `Run` or by a handler. -/
  | schedule (p : ℕ) (delay : ℤ)
  /-- `Stop (delay)`. -/
  | scheduleStop (p : ℕ) (delay : ℤ)
  /-- `Run` is entered, on a process with a stop event. -/
  | run (p : ℕ)
  | initializeNullMessageEvent (p : ℕ)
  /-- The loop of `Run` is entered. -/
  | enterLoop (p : ℕ)
  /-- The next event is safe, and is processed. -/
  | begin (p : ℕ) (e : SimEvent)
  /-- The handler sends a packet over channel `c`. -/
  | send (p : ℕ) (c : Channel) (rxTime : ℤ)
  | endEvent (p : ℕ)
  /-- `MPI_Testany` finds a message of `q`. -/
  | receive (p q : ℕ)
  /-- `MPI_Testany` finds nothing, and `CalculateSafeTime` follows. -/
  | endPolling (p : ℕ)
  /-- The next event is not safe; `MPI_Waitany` returns a message of `q`. -/
  | receiveBlocking (p q : ℕ)
  /-- The same on a process that has no neighbours, which does not wait. -/
  | noNeighbors (p : ℕ)
  deriving DecidableEq, Repr

/-- The program and the handlers may schedule. -/
def Phase.canSchedule : Phase → Bool
  | .setup => true
  | .handler _ => true
  | _ => false

/-- The packets that the running handler has sent. -/
def Phase.sent : Phase → List (ℕ × ℤ)
  | .handler sent => sent
  | _ => []

/-- The runs of the system. -/
def machine (net : Network) : Machine System Op where
  init := ⟨fun _ ↦ .create, fun _ _ ↦ []⟩
  next s
    | .schedule p delay =>
      if (s.proc p).phase.canSchedule = true ∧ 0 ≤ delay then
        some (s.setProc p ((s.proc p).schedule delay .app))
      else none
    | .scheduleStop p delay =>
      if (s.proc p).phase.canSchedule = true ∧ 0 ≤ delay then
        some (s.setProc p ((s.proc p).schedule delay .stop))
      else none
    | .run p =>
      if (s.proc p).phase = .setup ∧ ∃ e ∈ (s.proc p).m_events, e.kind = .stop then
        some (s.setPhase p (.starting (net.neighbors p)))
      else none
    | .initializeNullMessageEvent p =>
      match (s.proc p).phase with
      | .starting (q :: rest) =>
        some ((s.initializeNullMessageEvent net p q).setPhase p (.starting rest))
      | _ => none
    | .enterLoop p =>
      if (s.proc p).phase = .starting [] then
        some (s.setProc p { s.proc p with m_stop := false, phase := .loop })
      else none
    | .begin p e =>
      let x := s.proc p
      if x.phase = .loop ∧ x.m_stop = false ∧ e ∈ x.m_events ∧ (∀ f ∈ x.m_events, e.ts ≤ f.ts) ∧
          e.ts ≤ x.m_safeTime then
        let s := s.setProc p (x.beginEvent e)
        if e.impl ∈ x.cancelled then some (s.setPhase p .polling)
        else match e.kind with
          | .app => some (s.setPhase p (.handler []))
          | .null q => some ((s.nullMessageEventHandler net p q).setPhase p .polling)
          | .stop => some (s.setProc p { s.proc p with m_stop := true, phase := .polling })
      else none
    | .send p c rxTime =>
      let x := s.proc p
      match x.phase with
      | .handler sent =>
        if c ∈ net.channels ∧ (c.a = p ∨ c.b = p) ∧ x.m_currentTs + c.delay ≤ rxTime ∧
            rxTime ≤ Time.max then
          let q := c.other p
          some ((s.sendPacket net p q rxTime).setPhase p
            (.handler ((q, min x.next x.m_safeTime) :: sent)))
        else none
      | _ => none
    | .endEvent p =>
      match (s.proc p).phase with
      | .handler _ => some (s.setPhase p .polling)
      | _ => none
    | .receive p q =>
      match s.chan q p with
      | m :: l =>
        if (s.proc p).phase = .polling ∧ q ∈ net.neighbors p then
          some (s.receiveMessage p q m l)
        else none
      | [] => none
    | .endPolling p =>
      if (s.proc p).phase = .polling then
        some ((s.setProc p ((s.proc p).calculateSafeTime net p)).setPhase p .loop)
      else none
    | .receiveBlocking p q =>
      match s.chan q p with
      | m :: l =>
        let x := s.proc p
        if x.phase = .loop ∧ x.m_stop = false ∧ x.m_events ≠ [] ∧ x.m_safeTime < x.next ∧
            q ∈ net.neighbors p then
          let s := s.receiveMessage p q m l
          some (s.setProc p ((s.proc p).calculateSafeTime net p))
        else none
      | [] => none
    | .noNeighbors p =>
      let x := s.proc p
      if x.phase = .loop ∧ x.m_stop = false ∧ x.m_events ≠ [] ∧ x.m_safeTime < x.next ∧
          net.neighbors p = [] then
        some (s.setProc p (x.calculateSafeTime net p))
      else none

/-! ## What must hold of every step -/

/-- The receipt of a message: its packet is not late, the assertions of `ScheduleWithContext` and
`SetGuaranteeTime` hold, and the guarantee does not decrease. -/
def ReceiveOk (x : Process) (q : ℕ) (m : Message) : Prop :=
  (0 < m.rxTime → x.m_currentTs ≤ m.rxTime ∧
    0 ≤ Time.add x.m_currentTs (Time.sub m.rxTime x.m_currentTs) ∧
    x.m_currentTs ≤ Time.add x.m_currentTs (Time.sub m.rxTime x.m_currentTs)) ∧
  x.m_currentTs ≤ m.guaranteeUpdate ∧ x.m_guaranteeTime q ≤ m.guaranteeUpdate

/-- The assertion of `CalculateSafeTime`. -/
def SafeTimeOk (net : Network) (p : ℕ) (x : Process) : Prop := x.m_currentTs ≤ x.getSafeTime net p

/-- A step is causal, and none of its assertions fails. -/
def Sound (net : Network) (s : System) : Op → Prop
  | .receive p q => ∀ m ∈ (s.chan q p).head?, ReceiveOk (s.proc p) q m
  | .receiveBlocking p q => ∀ m ∈ (s.chan q p).head?, ReceiveOk (s.proc p) q m ∧
      SafeTimeOk net p ((s.receiveMessage p q m (s.chan q p).tail).proc p)
  | .endPolling p => SafeTimeOk net p (s.proc p)
  | .noNeighbors p => SafeTimeOk net p (s.proc p)
  | _ => True

/-- The steps at which no promise is broken and no time overflows: a handler that has sent a packet
to `q`, when the earlier of its next event and its safe time was `t`, neither schedules an event
before `t` nor sends `q` a packet due before `t` plus the delay of the bundle. -/
def KeepsPromises (net : Network) (s : System) : Op → Prop
  | .schedule p delay => (s.proc p).m_currentTs + delay ≤ Time.max ∧
      ∀ y ∈ (s.proc p).phase.sent, y.2 ≤ (s.proc p).m_currentTs + delay
  | .scheduleStop p delay => (s.proc p).m_currentTs + delay ≤ Time.max ∧
      ∀ y ∈ (s.proc p).phase.sent, y.2 ≤ (s.proc p).m_currentTs + delay
  | .initializeNullMessageEvent p => ∀ q ∈ net.neighbors p,
      (s.proc p).m_currentTs + net.tuned (net.delay p q) ≤ Time.max
  | .begin p e => ∀ q ∈ net.neighbors p, e.ts + net.tuned (net.delay p q) ≤ Time.max ∧
      min ((s.proc p).beginEvent e).next (s.proc p).m_safeTime + net.delay p q ≤ Time.max
  | .send p c rxTime =>
      (s.proc p).m_currentTs + net.tuned (net.delay p (c.other p)) ≤ Time.max ∧
      min (s.proc p).next (s.proc p).m_safeTime + net.delay p (c.other p) ≤ Time.max ∧
      ∀ y ∈ (s.proc p).phase.sent, y.1 = c.other p → y.2 + net.delay p (c.other p) ≤ rxTime
  | _ => True

/-! ## Bundles, next events and safe times -/

section Basics

variable {net : Network} {p q : ℕ} {x : Process} {s : System}

theorem Network.delay_nonneg (net : Network) (p q : ℕ) : 0 ≤ net.delay p q := by
  refine le_foldl_min (by decide) fun c hc ↦ ?_
  exact (net.delay_pos c (List.mem_of_mem_filter hc)).le

theorem Network.delay_le_channel {c : Channel} (hc : c ∈ net.channels) (hp : c.a = p ∨ c.b = p) :
    net.delay p (c.other p) ≤ c.delay := by
  refine (foldl_min_le Channel.delay _ _).2 c (List.mem_filter.mpr ⟨hc, ?_⟩)
  rw [Channel.other, decide_eq_true_iff]
  split_ifs with ha
  · exact .inl ⟨ha, rfl⟩
  · exact .inr ⟨rfl, hp.resolve_left ha⟩

theorem Network.other_mem_neighbors {c : Channel} (hc : c ∈ net.channels)
    (hp : c.a = p ∨ c.b = p) : c.other p ∈ net.neighbors p := by
  rw [neighbors, List.mem_dedup]
  exact List.mem_map_of_mem (List.mem_filter.mpr ⟨hc, decide_eq_true hp⟩)

theorem Process.le_next {t : ℤ} : t ≤ x.next ↔ t ≤ Time.max ∧ ∀ e ∈ x.m_events, t ≤ e.ts :=
  le_foldr_min_iff

theorem Process.next_le {e : SimEvent} (he : e ∈ x.m_events) : x.next ≤ e.ts :=
  (Process.le_next.mp le_rfl).2 e he

theorem Process.getSafeTime_le_max : x.getSafeTime net p ≤ Time.max := (foldl_min_le _ _ _).1

theorem Process.getSafeTime_le (hq : q ∈ net.neighbors p) :
    x.getSafeTime net p ≤ x.m_guaranteeTime q := (foldl_min_le x.m_guaranteeTime _ _).2 q hq

theorem Process.le_getSafeTime {t : ℤ} (ht : t ≤ Time.max)
    (hq : ∀ q ∈ net.neighbors p, t ≤ x.m_guaranteeTime q) : t ≤ x.getSafeTime net p :=
  le_foldl_min ht hq

end Basics

/-! ## The invariant -/

/-- The bundle to `q` has been initialized. -/
def Phase.started (q : ℕ) : Phase → Prop
  | .setup => False
  | .starting rest => q ∉ rest
  | _ => True

/-- The loop of `Run` has not been entered. -/
def Phase.beforeLoop : Phase → Bool
  | .setup => true
  | .starting _ => true
  | _ => false

/-- There is a stop event, unless it has been processed or the process has not been started. -/
def Process.mustHaveStop (x : Process) : Prop :=
  match x.phase with
  | .setup => False
  | .starting _ => True
  | _ => x.m_stop = false

/-- The null message event of the bundle to `q` is pending, not further ahead than its interval. -/
def HasNullEvent (net : Network) (p : ℕ) (x : Process) (q : ℕ) : Prop :=
  ∃ e ∈ x.m_events, e.impl = x.m_nullEventId q ∧ e.kind = .null q ∧ e.impl ∉ x.cancelled ∧
    e.ts ≤ x.m_currentTs + net.tuned (net.delay p q)

/-- What holds of a process at any point of its code, when it has last promised `promised q` to its
neighbour `q` and has initialized the bundles in `started`. -/
structure Core (net : Network) (p : ℕ) (x : Process) (promised : ℕ → ℤ) (started : ℕ → Prop) :
    Prop where
  now_nonneg : 0 ≤ x.m_currentTs
  now_le : x.m_currentTs ≤ x.m_safeTime
  safe_le_max : x.m_safeTime ≤ Time.max
  /-- The guarantees of the neighbours are not before the safe time. -/
  safe_le : ∀ q ∈ net.neighbors p, x.m_safeTime ≤ x.m_guaranteeTime q
  /-- Events have addresses of their own and are not before the current time. -/
  impls : x.m_events.Pairwise fun e f ↦ e.impl ≠ f.impl
  impl_lt : ∀ e ∈ x.m_events, e.impl < x.nextImpl
  ahead : ∀ e ∈ x.m_events, x.m_currentTs ≤ e.ts
  /-- An initialized bundle has one null message event, the others are cancelled. -/
  nulls : ∀ e ∈ x.m_events, ∀ q, e.kind = .null q →
    q ∈ net.neighbors p ∧ started q ∧ (e.impl = x.m_nullEventId q ∨ e.impl ∈ x.cancelled)
  cancelled : ∀ e ∈ x.m_events, e.impl ∈ x.cancelled → ∃ q, e.kind = .null q
  cancelled_lt : ∀ i ∈ x.cancelled, i < x.nextImpl
  /-- Nothing has been promised on the other bundles. -/
  unstarted : ∀ q ∈ net.neighbors p, ¬started q → promised q ≤ 0
  /-- Promises are kept by what the process may still receive, -/
  promised_safe : ∀ q ∈ net.neighbors p, promised q ≤ x.m_safeTime + net.delay p q
  /-- and by every pending event but the null message event that will renew the promise. -/
  promised_events : ∀ q ∈ net.neighbors p, ∀ e ∈ x.m_events,
    (e.kind = .null q → e.impl ∈ x.cancelled) → promised q ≤ e.ts + net.delay p q

/-- What holds of a process between its steps. -/
structure Local (net : Network) (p : ℕ) (x : Process) (promised : ℕ → ℤ) : Prop
    extends Core net p x promised fun q ↦ x.phase.started q where
  nullEvent : ∀ q ∈ net.neighbors p, x.phase.started q → HasNullEvent net p x q
  safe_zero : x.phase.beforeLoop = true → x.m_safeTime = 0
  rest : ∀ rest, x.phase = .starting rest → rest.Nodup ∧ ∀ q ∈ rest, q ∈ net.neighbors p
  /-- In a handler promises are kept by every pending event; and by what the handler does, unless it
  has renewed them. -/
  handler : ∀ sent, x.phase = .handler sent → ∀ q ∈ net.neighbors p,
    (∀ e ∈ x.m_events, promised q ≤ e.ts + net.delay p q) ∧
    (promised q ≤ x.m_currentTs + net.delay p q ∨
      ∃ y ∈ sent, y.1 = q ∧ promised q = y.2 + net.delay p q)
  stop : x.mustHaveStop → ∃ e ∈ x.m_events, e.kind = .stop

/-- The last promise of `p` to `q`, read or in flight. -/
def System.promised (s : System) (p q : ℕ) : ℤ :=
  PromiseLink.promise Message.guaranteeUpdate ((s.proc q).m_guaranteeTime p) (s.chan p q)

/-- **The invariant of the system**: every process keeps its promises, and so does every link. -/
structure Inv (net : Network) (s : System) : Prop where
  procs : ∀ p, Local net p (s.proc p) (s.promised p)
  links : ∀ p q, PromiseLink.Kept Message.guaranteeUpdate Message.due
    ((s.proc q).m_guaranteeTime p) (s.chan p q)
  rxTime_le : ∀ p q, ∀ m ∈ s.chan p q, m.rxTime ≤ Time.max

/-! ### One process moves -/

section Frame

variable {net : Network} {s : System} {p q : ℕ} {x : Process} {m : Message} {l : List Message}

@[simp] theorem System.setProc_same : (s.setProc p x).proc p = x := if_pos rfl

theorem System.setProc_of_ne {r : ℕ} (h : r ≠ p) : (s.setProc p x).proc r = s.proc r := if_neg h

theorem System.setProc_setProc {y : Process} :
    (s.setProc p x).setProc p y = s.setProc p y := by
  refine congrArg (fun f ↦ System.mk f _) ?_
  funext r
  by_cases hr : r = p
  · exact (if_pos hr).trans (if_pos hr).symm
  · exact (if_neg hr).trans ((if_neg hr).trans (if_neg hr).symm)

theorem System.setPhase_setProc {phase : Phase} :
    (s.setProc p x).setPhase p phase = s.setProc p { x with phase := phase } := by
  rw [setPhase, setProc_same, setProc_setProc]

theorem System.setPhase_isend {phase : Phase} : ((s.setProc p x).isend p q m).setPhase p phase =
    (s.setProc p { x with phase := phase }).isend p q m := by
  have hx : ((s.setProc p x).isend p q m).proc p = x := setProc_same
  rw [setPhase, hx]
  exact congrArg (fun r ↦ System.isend r p q m) setProc_setProc

theorem Inv.step_local (h : Inv net s) (hg : x.m_guaranteeTime = (s.proc p).m_guaranteeTime)
    (hl : Local net p x (s.promised p)) : Inv net (s.setProc p x) := by
  have hguar : ∀ r, ((s.setProc p x).proc r).m_guaranteeTime = (s.proc r).m_guaranteeTime := by
    intro r
    by_cases hr : r = p
    · rw [hr, System.setProc_same, hg]
    · rw [System.setProc_of_ne hr]
  have hprom : ∀ r, (s.setProc p x).promised r = s.promised r := by
    intro r
    funext r'
    rw [System.promised, System.promised, hguar]
    rfl
  refine ⟨fun r ↦ ?_, fun a b ↦ ?_, h.rxTime_le⟩
  · rw [hprom]
    by_cases hr : r = p
    · rw [hr, System.setProc_same]
      exact hl
    · rw [System.setProc_of_ne hr]
      exact h.procs r
  · rw [hguar]
    exact h.links a b

theorem Inv.step_send (h : Inv net s) (hg : x.m_guaranteeTime = (s.proc p).m_guaranteeTime)
    (hl : Local net p x fun r ↦ if r = q then m.guaranteeUpdate else s.promised p r)
    (hbound : s.promised p q ≤ m.guaranteeUpdate)
    (hdue : ∀ t, m.due = some t → s.promised p q ≤ t) (hrx : m.rxTime ≤ Time.max) :
    Inv net ((s.setProc p x).isend p q m) := by
  have hguar : ∀ r, (((s.setProc p x).isend p q m).proc r).m_guaranteeTime =
      (s.proc r).m_guaranteeTime := by
    intro r
    by_cases hr : r = p
    · rw [hr, ← hg]
      exact congrArg Process.m_guaranteeTime System.setProc_same
    · exact congrArg Process.m_guaranteeTime (System.setProc_of_ne hr)
  have hchan : ∀ a b, ((s.setProc p x).isend p q m).chan a b =
      if a = p ∧ b = q then s.chan a b ++ [m] else s.chan a b := fun _ _ ↦ rfl
  have hprom : ∀ a b, ((s.setProc p x).isend p q m).promised a b =
      if a = p ∧ b = q then m.guaranteeUpdate else s.promised a b := by
    intro a b
    rw [System.promised, hguar, hchan]
    split_ifs
    · exact PromiseLink.promise_append_singleton
    · rfl
  refine ⟨fun r ↦ ?_, fun a b ↦ ?_, fun a b m' hm' ↦ ?_⟩
  · by_cases hr : r = p
    · have hp : ((s.setProc p x).isend p q m).promised p =
          fun r ↦ if r = q then m.guaranteeUpdate else s.promised p r := by
        funext b
        rw [hprom]
        simp only [true_and]
      have hx : ((s.setProc p x).isend p q m).proc p = x := System.setProc_same
      rw [hr, hp, hx]
      exact hl
    · have hp : ((s.setProc p x).isend p q m).promised r = s.promised r := by
        funext b
        rw [hprom, if_neg fun hab ↦ hr hab.1]
      have hx : ((s.setProc p x).isend p q m).proc r = s.proc r := System.setProc_of_ne hr
      rw [hp, hx]
      exact h.procs r
  · rw [hguar, hchan]
    split_ifs with hab
    · rw [hab.1, hab.2]
      exact (h.links p q).append_singleton hbound hdue
    · exact h.links a b
  · rw [hchan] at hm'
    split_ifs at hm' with hab
    · rcases List.mem_append.mp hm' with hm' | hm'
      · exact h.rxTime_le a b m' hm'
      · rw [List.mem_singleton.mp hm']
        exact hrx
    · exact h.rxTime_le a b m' hm'

theorem Inv.step_receive (h : Inv net s) (hchan : s.chan q p = m :: l)
    (hg : x.m_guaranteeTime =
      fun r ↦ if r = q then m.guaranteeUpdate else (s.proc p).m_guaranteeTime r)
    (hl : Local net p x (s.promised p)) :
    Inv net { s.setProc p x with chan := fun a b ↦ if a = q ∧ b = p then l else s.chan a b } := by
  set t : System :=
    { s.setProc p x with chan := fun a b ↦ if a = q ∧ b = p then l else s.chan a b } with ht
  have hguar : ∀ a b, (t.proc b).m_guaranteeTime a =
      if a = q ∧ b = p then m.guaranteeUpdate else (s.proc b).m_guaranteeTime a := by
    intro a b
    by_cases hb : b = p
    · have hx : t.proc b = x := by
        rw [hb]
        exact System.setProc_same
      rw [hx, hg, hb]
      simp only [and_true]
    · have hx : t.proc b = s.proc b := System.setProc_of_ne hb
      rw [hx, if_neg fun hab ↦ hb hab.2]
  have htchan : ∀ a b, t.chan a b = if a = q ∧ b = p then l else s.chan a b := fun _ _ ↦ rfl
  have hprom : ∀ a, t.promised a = s.promised a := by
    intro a
    funext b
    rw [System.promised, System.promised, hguar, htchan]
    split_ifs with hab
    · rw [hab.1, hab.2, hchan, PromiseLink.promise_cons]
    · rfl
  refine ⟨fun r ↦ ?_, fun a b ↦ ?_, fun a b m' hm' ↦ ?_⟩
  · rw [hprom]
    by_cases hr : r = p
    · have hx : t.proc p = x := System.setProc_same
      rw [hr, hx]
      exact hl
    · have hx : t.proc r = s.proc r := System.setProc_of_ne hr
      rw [hx]
      exact h.procs r
  · rw [hguar, htchan]
    split_ifs with hab
    · have := h.links q p
      rw [hchan] at this
      exact this.2.2
    · exact h.links a b
  · rw [htchan] at hm'
    split_ifs at hm' with hab
    · rw [hab.1, hab.2] at *
      exact h.rxTime_le q p m' (hchan ▸ List.mem_cons_of_mem _ hm')
    · exact h.rxTime_le a b m' hm'

end Frame

/-! ### What a process does between messages -/

section Process

variable {net : Network} {p q : ℕ} {x : Process} {promised : ℕ → ℤ} {started : ℕ → Prop}

theorem Core.congr {started' : ℕ → Prop} (h : Core net p x promised started)
    (hst : ∀ q ∈ net.neighbors p, started q ↔ started' q) : Core net p x promised started' :=
  { h with
    nulls := fun e he q hk ↦ by
      obtain ⟨h1, h2, h3⟩ := h.nulls e he q hk
      exact ⟨h1, (hst q h1).mp h2, h3⟩
    unstarted := fun q hq hns ↦ h.unstarted q hq fun hs ↦ hns ((hst q hq).mp hs) }

theorem Core.eq_of_impl_eq (h : Core net p x promised started) {e f : SimEvent}
    (he : e ∈ x.m_events) (hf : f ∈ x.m_events) (himpl : e.impl = f.impl) : e = f :=
  List.inj_on_of_nodup_map (List.pairwise_map.mpr h.impls) he hf himpl

theorem Core.schedule (h : Core net p x promised started) {delay : ℤ} {kind : Kind}
    (hdelay : 0 ≤ delay) (hmax : x.m_currentTs + delay ≤ Time.max)
    (hnull : ∀ q, kind = .null q →
      q ∈ net.neighbors p ∧ started q ∧ x.nextImpl = x.m_nullEventId q)
    (hprom : ∀ q ∈ net.neighbors p, kind ≠ .null q →
      promised q ≤ x.m_currentTs + delay + net.delay p q) :
    Core net p (x.schedule delay kind) promised started := by
  have hts : Time.add x.m_currentTs delay = x.m_currentTs + delay :=
    Time.add_eq h.now_nonneg hdelay hmax
  have hfresh : x.nextImpl ∉ x.cancelled := fun hmem ↦ lt_irrefl _ (h.cancelled_lt _ hmem)
  have hmem : ∀ {e}, e ∈ (x.schedule delay kind).m_events →
      e ∈ x.m_events ∨ e = ⟨x.m_currentTs + delay, x.nextImpl, kind⟩ := by
    intro e he
    rw [Process.schedule, hts, List.mem_append, List.mem_singleton] at he
    exact he
  exact { h with
    impls := by
      refine List.pairwise_append.mpr ⟨h.impls, List.pairwise_singleton _ _, fun e he f hf ↦ ?_⟩
      rw [List.mem_singleton.mp hf]
      exact (h.impl_lt e he).ne
    impl_lt := fun e he ↦ by
      rcases hmem he with he | rfl
      · exact (h.impl_lt e he).trans (Nat.lt_succ_self _)
      · exact Nat.lt_succ_self _
    ahead := fun e he ↦ by
      rcases hmem he with he | rfl
      · exact h.ahead e he
      · exact le_add_of_nonneg_right hdelay
    nulls := fun e he q hk ↦ by
      rcases hmem he with he | rfl
      · exact h.nulls e he q hk
      · obtain ⟨h1, h2, h3⟩ := hnull q hk
        exact ⟨h1, h2, .inl h3⟩
    cancelled := fun e he hc ↦ by
      rcases hmem he with he | rfl
      · exact h.cancelled e he hc
      · exact absurd hc hfresh
    cancelled_lt := fun i hi ↦ (h.cancelled_lt i hi).trans (Nat.lt_succ_self _)
    promised_events := fun q hq e he hk ↦ by
      rcases hmem he with he | rfl
      · exact h.promised_events q hq e he hk
      · exact hprom q hq fun heq ↦ hfresh (hk heq) }

theorem HasNullEvent.schedule (h : HasNullEvent net p x q) (delay : ℤ) (kind : Kind) :
    HasNullEvent net p (x.schedule delay kind) q := by
  obtain ⟨e, he, hrest⟩ := h
  exact ⟨e, List.mem_append_left _ he, hrest⟩

theorem Core.scheduleNullMessageEvent (h : Core net p x promised started)
    (hq : q ∈ net.neighbors p) (hmax : x.m_currentTs + net.tuned (net.delay p q) ≤ Time.max)
    (hnone : ∀ e ∈ x.m_events, e.kind = .null q → e.impl ∈ x.cancelled)
    (hother : ∀ r ∈ net.neighbors p, r ≠ q →
      promised r ≤ x.m_currentTs + net.tuned (net.delay p q) + net.delay p r)
    {g : ℤ} (hsafe : g ≤ x.m_safeTime + net.delay p q)
    (hevents : ∀ e ∈ x.m_events, g ≤ e.ts + net.delay p q) :
    Core net p (x.scheduleNullMessageEvent net p q) (fun r ↦ if r = q then g else promised r)
      (fun r ↦ r = q ∨ started r) := by
  set y : Process :=
    { x with m_nullEventId := fun r ↦ if r = q then x.nextImpl else x.m_nullEventId r } with hy
  have hcore : Core net p y (fun r ↦ if r = q then g else promised r)
      (fun r ↦ r = q ∨ started r) :=
    { h with
      nulls := fun e he r hk ↦ by
        obtain ⟨h1, h2, h3⟩ := h.nulls e he r hk
        refine ⟨h1, .inr h2, ?_⟩
        by_cases hr : r = q
        · exact .inr (hnone e he (hr ▸ hk))
        · exact h3.imp_left fun h3 ↦ h3.trans (if_neg hr).symm
      unstarted := fun r hr hns ↦ by
        rw [not_or] at hns
        rw [if_neg hns.1]
        exact h.unstarted r hr hns.2
      promised_safe := fun r hr ↦ by
        split_ifs with hrq
        · rw [hrq]
          exact hsafe
        · exact h.promised_safe r hr
      promised_events := fun r hr e he hk ↦ by
        split_ifs with hrq
        · rw [hrq]
          exact hevents e he
        · exact h.promised_events r hr e he hk }
  refine hcore.schedule (net.tuned_nonneg _ (net.delay_nonneg p q)) hmax (fun r hr ↦ ?_)
    fun r hr hk ↦ ?_
  · cases hr
    exact ⟨hq, .inl rfl, (if_pos rfl).symm⟩
  · have hrq : r ≠ q := fun heq ↦ hk (heq ▸ rfl)
    rw [if_neg hrq]
    exact hother r hr hrq

theorem Core.hasNullEvent_self (h : Core net p x promised started)
    (hmax : x.m_currentTs + net.tuned (net.delay p q) ≤ Time.max) :
    HasNullEvent net p (x.scheduleNullMessageEvent net p q) q := by
  refine ⟨⟨Time.add x.m_currentTs (net.tuned (net.delay p q)), x.nextImpl, .null q⟩,
    List.mem_append_right _ (List.mem_singleton_self _), (if_pos rfl).symm, rfl, fun hmem ↦ ?_, ?_⟩
  · exact lt_irrefl _ (h.cancelled_lt _ hmem)
  · exact (Time.add_eq h.now_nonneg (net.tuned_nonneg _ (net.delay_nonneg p q)) hmax).le

theorem HasNullEvent.scheduleNullMessageEvent {r : ℕ} (h : HasNullEvent net p x r) (hr : r ≠ q) :
    HasNullEvent net p (x.scheduleNullMessageEvent net p q) r := by
  obtain ⟨e, he, himpl, hrest⟩ := h
  exact ⟨e, List.mem_append_left _ he, himpl.trans (if_neg hr).symm, hrest⟩

theorem Core.cancel (h : Core net p x promised started) (hn : HasNullEvent net p x q)
    (hall : ∀ e ∈ x.m_events, promised q ≤ e.ts + net.delay p q) :
    Core net p (x.cancel (x.m_nullEventId q)) promised started ∧
      ∀ e ∈ x.m_events, e.kind = .null q → e.impl ∈ (x.cancel (x.m_nullEventId q)).cancelled := by
  obtain ⟨a, ha, himpl, hkind, -, -⟩ := hn
  have hcancel : x.cancel (x.m_nullEventId q) =
      { x with cancelled := x.m_nullEventId q :: x.cancelled } :=
    if_pos (himpl ▸ List.mem_map_of_mem ha)
  rw [hcancel]
  constructor
  · exact { h with
      nulls := fun e he r hk ↦ by
        obtain ⟨h1, h2, h3⟩ := h.nulls e he r hk
        exact ⟨h1, h2, h3.imp_right (List.mem_cons_of_mem _)⟩
      cancelled := fun e he hc ↦ by
        rcases List.mem_cons.mp hc with hc | hc
        · rw [h.eq_of_impl_eq he ha (hc.trans himpl.symm)]
          exact ⟨q, hkind⟩
        · exact h.cancelled e he hc
      cancelled_lt := fun i hi ↦ by
        rcases List.mem_cons.mp hi with rfl | hi
        · rw [← himpl]
          exact h.impl_lt a ha
        · exact h.cancelled_lt i hi
      promised_events := fun r hr e he hk ↦ by
        by_cases hkq : e.kind = .null r
        · rcases List.mem_cons.mp (hk hkq) with hc | hc
          · rw [h.eq_of_impl_eq he ha (hc.trans himpl.symm), hkind] at hkq
            cases hkq
            exact hall e he
          · exact h.promised_events r hr e he fun _ ↦ hc
        · exact h.promised_events r hr e he fun hk' ↦ absurd hk' hkq }
  · intro e he hk
    rcases (h.nulls e he q hk).2.2 with h3 | h3
    · exact h3 ▸ List.mem_cons_self
    · exact List.mem_cons_of_mem _ h3

theorem HasNullEvent.cancel {r : ℕ} (h : HasNullEvent net p x r) (hn : HasNullEvent net p x q)
    (hc : Core net p x promised started) (hr : r ≠ q) :
    HasNullEvent net p (x.cancel (x.m_nullEventId q)) r := by
  obtain ⟨e, he, himpl, hkind, hnc, hts⟩ := h
  obtain ⟨a, ha, haimpl, hakind, -, -⟩ := hn
  have hcancel : x.cancel (x.m_nullEventId q) =
      { x with cancelled := x.m_nullEventId q :: x.cancelled } :=
    if_pos (haimpl ▸ List.mem_map_of_mem ha)
  rw [hcancel]
  refine ⟨e, he, himpl, hkind, fun hmem ↦ ?_, hts⟩
  rcases List.mem_cons.mp hmem with heq | hmem
  · have hea := hc.eq_of_impl_eq he ha (heq.trans haimpl.symm)
    rw [hea, hakind] at hkind
    cases hkind
    exact hr rfl
  · exact hnc hmem

theorem Core.beginEvent (h : Core net p x promised started) {e : SimEvent} (he : e ∈ x.m_events)
    (hle : ∀ f ∈ x.m_events, e.ts ≤ f.ts) (hsafe : e.ts ≤ x.m_safeTime) :
    Core net p (x.beginEvent e) promised started :=
  { h with
    now_nonneg := h.now_nonneg.trans (h.ahead e he)
    now_le := hsafe
    impls := h.impls.sublist List.erase_sublist
    impl_lt := fun f hf ↦ h.impl_lt f (List.mem_of_mem_erase hf)
    ahead := fun f hf ↦ hle f (List.mem_of_mem_erase hf)
    nulls := fun f hf ↦ h.nulls f (List.mem_of_mem_erase hf)
    cancelled := fun f hf ↦ h.cancelled f (List.mem_of_mem_erase hf)
    promised_events := fun q hq f hf ↦ h.promised_events q hq f (List.mem_of_mem_erase hf) }

theorem HasNullEvent.beginEvent (h : HasNullEvent net p x q) {e : SimEvent}
    (hnow : x.m_currentTs ≤ e.ts) (hne : e.kind = .null q → e.impl ∈ x.cancelled) :
    HasNullEvent net p (x.beginEvent e) q := by
  obtain ⟨a, ha, himpl, hkind, hnc, hts⟩ := h
  have hae : a ≠ e := by
    rintro rfl
    exact hnc (hne hkind)
  exact ⟨a, (List.mem_erase_of_ne hae).mpr ha, himpl, hkind, hnc,
    hts.trans (add_le_add_left hnow _)⟩

end Process

/-! ## The steps -/

section Steps

variable {net : Network} {s : System} {p q : ℕ}

theorem Local.schedule {x : Process} {promised : ℕ → ℤ} (h : Local net p x promised) {delay : ℤ}
    {kind : Kind} (hkind : ∀ q, kind ≠ .null q) (hdelay : 0 ≤ delay)
    (hmax : x.m_currentTs + delay ≤ Time.max)
    (hprom : ∀ q ∈ net.neighbors p, promised q ≤ x.m_currentTs + delay + net.delay p q) :
    Local net p (x.schedule delay kind) promised where
  toCore := h.toCore.schedule hdelay hmax (fun q hq ↦ absurd hq (hkind q))
    fun q hq _ ↦ hprom q hq
  nullEvent q hq hst := (h.nullEvent q hq hst).schedule delay kind
  safe_zero := h.safe_zero
  rest := h.rest
  handler sent hph q hq := by
    refine ⟨fun e he ↦ ?_, (h.handler sent hph q hq).2⟩
    rcases List.mem_append.mp he with he | he
    · exact (h.handler sent hph q hq).1 e he
    · rw [List.mem_singleton.mp he]
      rw [Time.add_eq h.now_nonneg hdelay hmax]
      exact hprom q hq
  stop hm := by
    obtain ⟨e, he, hk⟩ := h.stop hm
    exact ⟨e, List.mem_append_left _ he, hk⟩

/-- A handler that keeps its promises schedules after them; before `Run` there are none. -/
theorem Inv.step_schedule (h : Inv net s) {delay : ℤ} {kind : Kind} (hkind : ∀ q, kind ≠ .null q)
    (hph : (s.proc p).phase.canSchedule = true) (hdelay : 0 ≤ delay)
    (hmax : (s.proc p).m_currentTs + delay ≤ Time.max)
    (hsent : ∀ y ∈ (s.proc p).phase.sent, y.2 ≤ (s.proc p).m_currentTs + delay) :
    Inv net (s.setProc p ((s.proc p).schedule delay kind)) := by
  have hl := h.procs p
  refine h.step_local rfl (hl.schedule hkind hdelay hmax fun q hq ↦ ?_)
  have hd := net.delay_nonneg p q
  have hnow := hl.now_nonneg
  rcases hphase : (s.proc p).phase with _ | rest | _ | sent | _
  · have := hl.unstarted q hq (by rw [hphase]; exact id)
    omega
  · rw [hphase] at hph
    exact absurd hph Bool.false_ne_true
  · rw [hphase] at hph
    exact absurd hph Bool.false_ne_true
  · rcases (hl.handler sent hphase q hq).2 with hle | ⟨y, hy, -, heq⟩
    · omega
    · rw [hphase] at hsent
      have := hsent y hy
      omega
  · rw [hphase] at hph
    exact absurd hph Bool.false_ne_true

theorem Inv.step_run (h : Inv net s) (hph : (s.proc p).phase = .setup)
    (hstop : ∃ e ∈ (s.proc p).m_events, e.kind = .stop) :
    Inv net (s.setPhase p (.starting (net.neighbors p))) := by
  have hl := h.procs p
  refine h.step_local rfl
    { toCore := { hl.toCore.congr (fun q hq ↦ ?_) with }, nullEvent := fun q hq hst ↦ ?_
      safe_zero := fun _ ↦ hl.safe_zero (by rw [hph]; rfl)
      rest := fun rest hrest ↦ ?_, handler := fun sent hsent ↦ ?_, stop := fun _ ↦ hstop }
  · rw [hph]
    exact iff_of_false id fun hn ↦ hn hq
  · exact absurd hq hst
  · cases hrest
    exact ⟨List.nodup_dedup _, fun q hq ↦ hq⟩
  · cases hsent

theorem Inv.step_initialize (h : Inv net s) {rest : List ℕ}
    (hph : (s.proc p).phase = .starting (q :: rest))
    (hmax : (s.proc p).m_currentTs + net.tuned (net.delay p q) ≤ Time.max) :
    Inv net ((s.initializeNullMessageEvent net p q).setPhase p (.starting rest)) := by
  have hl := h.procs p
  obtain ⟨hnodup, hsub⟩ := hl.rest _ hph
  rw [List.nodup_cons] at hnodup
  have hq := hsub q List.mem_cons_self
  have hnst : ¬(s.proc p).phase.started q := by
    rw [hph]
    exact fun hn ↦ hn List.mem_cons_self
  have hun := hl.unstarted q hq hnst
  have hnow := hl.now_nonneg
  have hsafe := hl.safe_zero (by rw [hph]; rfl)
  have hstarted : ∀ r ∈ net.neighbors p,
      (r = q ∨ (s.proc p).phase.started r) ↔ Phase.started r (.starting rest) := by
    intro r _
    rw [hph]
    change r = q ∨ r ∉ q :: rest ↔ r ∉ rest
    rw [List.mem_cons]
    constructor
    · rintro (rfl | hr)
      · exact hnodup.1
      · exact fun hmem ↦ hr (.inr hmem)
    · intro hr
      by_cases hrq : r = q
      · exact .inl hrq
      · exact .inr fun hmem ↦ hmem.elim hrq hr
  have hcore := hl.toCore.scheduleNullMessageEvent (g := net.delay p q) hq hmax
    (fun e he hk ↦ absurd (hl.nulls e he q hk).2.1 hnst) (fun r hr _ ↦ ?_) (by omega)
    fun e he ↦ by have := hl.ahead e he; omega
  · rw [System.initializeNullMessageEvent, System.setPhase_isend]
    refine h.step_send rfl
      { toCore := { hcore.congr hstarted with }, nullEvent := fun r hr hst ↦ ?_
        safe_zero := fun _ ↦ hsafe
        rest := fun rest' hrest ↦ ?_, handler := fun sent hsent ↦ ?_, stop := fun _ ↦ ?_ }
      (hun.trans (net.delay_nonneg p q)) (fun t ht ↦ ?_) Time.max_nonneg
    · by_cases hrq : r = q
      · rw [hrq]
        exact hl.toCore.hasNullEvent_self hmax
      · exact (hl.nullEvent r hr (((hstarted r hr).mpr hst).resolve_left
          hrq)).scheduleNullMessageEvent hrq
    · cases hrest
      exact ⟨hnodup.2, fun r hr ↦ hsub r (List.mem_cons_of_mem _ hr)⟩
    · cases hsent
    · obtain ⟨e, he, hk⟩ := hl.stop (by rw [Process.mustHaveStop, hph]; trivial)
      exact ⟨e, List.mem_append_left _ he, hk⟩
    · cases ht
  · have htuned := net.tuned_nonneg _ (net.delay_nonneg p q)
    have hprom := hl.promised_safe r hr
    omega

theorem Inv.step_enterLoop (h : Inv net s) (hph : (s.proc p).phase = .starting []) :
    Inv net (s.setProc p { s.proc p with m_stop := false, phase := .loop }) := by
  have hl := h.procs p
  have hst : ∀ q, (s.proc p).phase.started q := fun q ↦ by
    rw [hph]
    exact List.not_mem_nil
  refine h.step_local rfl
    { toCore := { hl.toCore.congr (fun q _ ↦ iff_of_true (hst q) trivial) with }
      nullEvent := fun q hq _ ↦ hl.nullEvent q hq (hst q), safe_zero := fun hb ↦ ?_
      rest := fun rest hrest ↦ ?_, handler := fun sent hsent ↦ ?_, stop := fun _ ↦ ?_ }
  · exact absurd hb Bool.false_ne_true
  · cases hrest
  · cases hsent
  · exact hl.stop (by rw [Process.mustHaveStop, hph]; trivial)

theorem Core.congr_started {x : Process} {promised : ℕ → ℤ} {started : ℕ → Prop}
    (h : Core net p x promised started) (phase : Phase) (hst : ∀ q, phase.started q)
    (hst' : ∀ q ∈ net.neighbors p, started q) :
    Core net p x promised fun q ↦ phase.started q :=
  h.congr fun q hq ↦ iff_of_true (hst' q hq) (hst q)

/-- A process moves from one phase of the loop of `Run` to another. -/
theorem Local.move {x : Process} {promised : ℕ → ℤ} {started : ℕ → Prop} {phase : Phase}
    (h : Core net p x promised started) (hst : ∀ q ∈ net.neighbors p, started q)
    (hnull : ∀ q ∈ net.neighbors p, HasNullEvent net p x q) (hph : phase = .loop ∨ phase = .polling)
    (hstop : x.m_stop = false → ∃ e ∈ x.m_events, e.kind = .stop) :
    Local net p { x with phase := phase } promised := by
  have hst' : ∀ q, phase.started q := by
    rcases hph with rfl | rfl <;> exact fun _ ↦ trivial
  refine
    { toCore := { h.congr_started phase hst' hst with }, nullEvent := fun q hq _ ↦ hnull q hq
      safe_zero := fun hb ↦ ?_, rest := fun rest hrest ↦ ?_, handler := fun sent hsent ↦ ?_
      stop := fun hm ↦ hstop ?_ }
  all_goals rcases hph with rfl | rfl
  · exact absurd hb Bool.false_ne_true
  · exact absurd hb Bool.false_ne_true
  · cases hrest
  · cases hrest
  · cases hsent
  · cases hsent
  · exact hm
  · exact hm

section Begin

variable {e : SimEvent}

/-- What `ProcessOneEvent` may assume. -/
structure CanBegin (x : Process) (e : SimEvent) : Prop where
  phase : x.phase = .loop
  running : x.m_stop = false
  mem : e ∈ x.m_events
  le : ∀ f ∈ x.m_events, e.ts ≤ f.ts
  safe : e.ts ≤ x.m_safeTime

theorem Inv.core_beginEvent (h : Inv net s) (hb : CanBegin (s.proc p) e) :
    Core net p ((s.proc p).beginEvent e) (s.promised p) fun _ ↦ True :=
  ((h.procs p).toCore.beginEvent hb.mem hb.le hb.safe).congr fun _ _ ↦ by
    rw [hb.phase]
    exact iff_of_true trivial trivial

theorem Inv.hasNullEvent_beginEvent (h : Inv net s) (hb : CanBegin (s.proc p) e)
    (hq : q ∈ net.neighbors p) (hne : e.kind = .null q → e.impl ∈ (s.proc p).cancelled) :
    HasNullEvent net p ((s.proc p).beginEvent e) q :=
  ((h.procs p).nullEvent q hq (by rw [hb.phase]; trivial)).beginEvent ((h.procs p).ahead e hb.mem)
    hne

theorem Inv.stop_beginEvent (h : Inv net s) (hb : CanBegin (s.proc p) e) (hk : e.kind ≠ .stop) :
    ∃ f ∈ ((s.proc p).beginEvent e).m_events, f.kind = .stop := by
  obtain ⟨f, hf, hfk⟩ := (h.procs p).stop (by
    rw [Process.mustHaveStop, hb.phase]
    exact hb.running)
  refine ⟨f, (List.mem_erase_of_ne fun hfe ↦ hk ?_).mpr hf, hfk⟩
  rw [← hfe, hfk]

theorem Inv.step_begin_cancelled (h : Inv net s) (hb : CanBegin (s.proc p) e)
    (hc : e.impl ∈ (s.proc p).cancelled) :
    Inv net (s.setProc p { (s.proc p).beginEvent e with phase := .polling }) := by
  obtain ⟨r, hr⟩ := (h.procs p).cancelled e hb.mem hc
  refine h.step_local rfl (Local.move (h.core_beginEvent hb) (fun _ _ ↦ trivial)
    (fun q hq ↦ h.hasNullEvent_beginEvent hb hq fun _ ↦ hc) (.inr rfl)
    fun _ ↦ h.stop_beginEvent hb fun hk ↦ ?_)
  rw [hr] at hk
  cases hk

theorem Inv.step_begin_stop (h : Inv net s) (hb : CanBegin (s.proc p) e) (hk : e.kind = .stop) :
    Inv net (s.setProc p
      { (s.proc p).beginEvent e with m_stop := true, phase := .polling }) := by
  have hnull : ∀ q ∈ net.neighbors p, HasNullEvent net p ((s.proc p).beginEvent e) q := fun q hq ↦
    h.hasNullEvent_beginEvent hb hq fun hkq ↦ by
      rw [hk] at hkq
      cases hkq
  exact h.step_local rfl (Local.move (x := { (s.proc p).beginEvent e with m_stop := true })
    { h.core_beginEvent hb with } (fun _ _ ↦ trivial) hnull (.inr rfl)
    fun hf ↦ absurd hf.symm Bool.false_ne_true)

/-- The promises are kept by what a handler is going to do at the time of its event. -/
theorem Inv.promised_le_of_begin (h : Inv net s) (hb : CanBegin (s.proc p) e)
    (hq : q ∈ net.neighbors p) (hk : e.kind ≠ .null q) :
    s.promised p q ≤ e.ts + net.delay p q :=
  (h.procs p).promised_events q hq e hb.mem fun hkq ↦ absurd hkq hk

theorem Inv.step_begin_app (h : Inv net s) (hb : CanBegin (s.proc p) e) (hk : e.kind = .app) :
    Inv net (s.setProc p { (s.proc p).beginEvent e with phase := .handler [] }) := by
  have hnk : ∀ q, e.kind ≠ .null q := fun q hkq ↦ by
    rw [hk] at hkq
    cases hkq
  refine h.step_local rfl
    { toCore := { (h.core_beginEvent hb).congr_started (.handler []) (fun _ ↦ trivial)
        fun _ _ ↦ trivial with }
      nullEvent := fun q hq _ ↦ h.hasNullEvent_beginEvent hb hq fun hkq ↦ absurd hkq (hnk q)
      safe_zero := fun hf ↦ absurd hf Bool.false_ne_true, rest := fun rest hrest ↦ ?_
      handler := fun sent _ q hq ↦ ⟨fun f hf ↦ ?_, .inl (h.promised_le_of_begin hb hq (hnk q))⟩
      stop := fun _ ↦ h.stop_beginEvent hb fun hks ↦ ?_ }
  · cases hrest
  · have := hb.le f (List.mem_of_mem_erase hf)
    have := h.promised_le_of_begin hb hq (hnk q)
    omega
  · rw [hk] at hks
    cases hks

/-- **The null message event renews the promise of its bundle** before anything else can break it. -/
theorem Inv.step_begin_null (h : Inv net s) (hb : CanBegin (s.proc p) e) (hk : e.kind = .null q)
    (hnc : e.impl ∉ (s.proc p).cancelled)
    (htuned : e.ts + net.tuned (net.delay p q) ≤ Time.max)
    (hmax : min ((s.proc p).beginEvent e).next (s.proc p).m_safeTime + net.delay p q ≤ Time.max) :
    Inv net ((((s.setProc p ((s.proc p).beginEvent e)).nullMessageEventHandler net p q)).setPhase p
      .polling) := by
  have hl := h.procs p
  have hcore := h.core_beginEvent hb
  obtain ⟨hq, -, hactive⟩ := hl.nulls e hb.mem q hk
  replace hactive := hactive.resolve_right hnc
  set y := (s.proc p).beginEvent e with hy
  -- the other null message events of the bundle are cancelled
  have hnone : ∀ f ∈ y.m_events, f.kind = .null q → f.impl ∈ y.cancelled := by
    intro f hf hfk
    have hf' := List.mem_of_mem_erase hf
    refine (hl.nulls f hf' q hfk).2.2.resolve_left fun hfa ↦ ?_
    have hfe : f = e := hl.eq_of_impl_eq hf' hb.mem (hfa.trans hactive.symm)
    have hnodup : (s.proc p).m_events.Nodup := .of_map _ (List.pairwise_map.mpr hl.impls)
    exact hnodup.not_mem_erase (hfe ▸ hf)
  have hpos : 0 ≤ min y.next y.m_safeTime := by
    have hts : 0 ≤ e.ts := hcore.now_nonneg
    refine le_min (Process.le_next.mpr ⟨Time.max_nonneg, fun f hf ↦ ?_⟩) (hts.trans hcore.now_le)
    exact hts.trans (hcore.ahead f hf)
  have hg : y.calculateGuaranteeTime net p q = min y.next y.m_safeTime + net.delay p q :=
    Time.add_eq hpos (net.delay_nonneg p q) hmax
  have hothers : ∀ r, r ≠ q → e.kind ≠ .null r := by
    rintro r hr heq
    rw [hk] at heq
    cases heq
    exact hr rfl
  have hcore' := hcore.scheduleNullMessageEvent (g := y.calculateGuaranteeTime net p q) hq htuned
    hnone (fun r hr hrq ↦ ?_) ?_ fun f hf ↦ ?_
  · have hx : (s.setProc p y).proc p = y := System.setProc_same
    rw [System.nullMessageEventHandler, hx, System.setProc_setProc, System.setPhase_isend]
    refine h.step_send rfl (Local.move hcore' (fun _ _ ↦ .inr trivial) (fun r hr ↦ ?_) (.inr rfl)
      fun _ ↦ ?_) ?_ (fun t ht ↦ ?_) Time.max_nonneg
    · by_cases hrq : r = q
      · rw [hrq]
        exact hcore.hasNullEvent_self htuned
      · exact (h.hasNullEvent_beginEvent hb hr fun hkr ↦
          absurd hkr (hothers r hrq)).scheduleNullMessageEvent hrq
    · obtain ⟨f, hf, hfk⟩ := h.stop_beginEvent hb fun hks ↦ by
        rw [hk] at hks
        cases hks
      exact ⟨f, List.mem_append_left _ hf, hfk⟩
    · -- the new promise is not before the old one
      dsimp only
      rw [hg]
      have hsafe := hcore.promised_safe q hq
      have hnext : s.promised p q - net.delay p q ≤ y.next := by
        refine Process.le_next.mpr ⟨?_, fun f hf ↦ ?_⟩
        · have := hcore.safe_le_max
          omega
        · have := hcore.promised_events q hq f hf (hnone f hf)
          omega
      have := le_min hnext (show s.promised p q - net.delay p q ≤ y.m_safeTime by omega)
      omega
    · cases ht
  · have htn := net.tuned_nonneg _ (net.delay_nonneg p q)
    have := h.promised_le_of_begin hb hr (hothers r hrq)
    change _ ≤ e.ts + _ + _
    omega
  · rw [hg]
    exact add_le_add_left (min_le_right _ _) _
  · rw [hg]
    exact add_le_add_left ((min_le_left _ _).trans (Process.next_le hf)) _

end Begin

/-- What the guard says of a packet that is due at `rxTime`. -/
structure SendOk (net : Network) (p q : ℕ) (x : Process) (rxTime : ℤ) : Prop where
  tuned : x.m_currentTs + net.tuned (net.delay p q) ≤ Time.max
  guarantee : min x.next x.m_safeTime + net.delay p q ≤ Time.max
  after : ∀ y ∈ x.phase.sent, y.1 = q → y.2 + net.delay p q ≤ rxTime

/-- **A data packet renews the promise of its bundle** in the middle of a handler. -/
theorem Inv.step_send_packet (h : Inv net s) {sent : List (ℕ × ℤ)}
    (hph : (s.proc p).phase = .handler sent) (hq : q ∈ net.neighbors p) {rxTime : ℤ}
    (hrx : (s.proc p).m_currentTs + net.delay p q ≤ rxTime) (hrx' : rxTime ≤ Time.max)
    (hok : SendOk net p q (s.proc p) rxTime) :
    Inv net ((s.sendPacket net p q rxTime).setPhase p
      (.handler ((q, min (s.proc p).next (s.proc p).m_safeTime) :: sent))) := by
  have hl := h.procs p
  set x := s.proc p with hx
  have hst : ∀ r, x.phase.started r := fun r ↦ by
    rw [hph]
    trivial
  obtain ⟨hall, hnow⟩ := hl.handler sent hph q hq
  have hnull := hl.nullEvent q hq (hst q)
  obtain ⟨hcancel, hnone⟩ := hl.toCore.cancel hnull hall
  set y := x.cancel (x.m_nullEventId q) with hy
  have hyevents : y.m_events = x.m_events ∧ y.m_currentTs = x.m_currentTs ∧
      y.m_safeTime = x.m_safeTime ∧ y.m_guaranteeTime = x.m_guaranteeTime ∧
        y.m_stop = x.m_stop := by
    rw [hy, Process.cancel]
    split_ifs <;> exact ⟨rfl, rfl, rfl, rfl, rfl⟩
  obtain ⟨hye, hyn, hys, hyg, hystop⟩ := hyevents
  have hpos : 0 ≤ min x.next x.m_safeTime := by
    refine le_min (Process.le_next.mpr ⟨Time.max_nonneg, fun f hf ↦ ?_⟩)
      (hl.now_nonneg.trans hl.now_le)
    exact hl.now_nonneg.trans (hl.ahead f hf)
  have hg : x.calculateGuaranteeTime net p q = min x.next x.m_safeTime + net.delay p q :=
    Time.add_eq hpos (net.delay_nonneg p q) hok.guarantee
  have hmin_next : ∀ f ∈ x.m_events, min x.next x.m_safeTime ≤ f.ts := fun f hf ↦
    (min_le_left _ _).trans (Process.next_le hf)
  have htuned : y.m_currentTs + net.tuned (net.delay p q) ≤ Time.max := by
    rw [hyn]
    exact hok.tuned
  -- the null message event is not further ahead than the one that replaces it
  obtain ⟨a, ha, -, -, -, hats⟩ := hnull
  have hother : ∀ r ∈ net.neighbors p,
      s.promised p r ≤ x.m_currentTs + net.tuned (net.delay p q) + net.delay p r := fun r hr ↦ by
    have := (hl.handler sent hph r hr).1 a ha
    omega
  have hcore := hcancel.scheduleNullMessageEvent (g := x.calculateGuaranteeTime net p q) hq htuned
    (fun e he hk ↦ hnone e (hye ▸ he) hk) (fun r hr _ ↦ by rw [hyn]; exact hother r hr)
    (by rw [hg, hys]; exact add_le_add_left (min_le_right _ _) _)
    fun f hf ↦ by rw [hg]; exact add_le_add_left (hmin_next f (hye ▸ hf)) _
  have hts : Time.add y.m_currentTs (net.tuned (net.delay p q)) =
      x.m_currentTs + net.tuned (net.delay p q) := by
    rw [hyn]
    exact Time.add_eq hl.now_nonneg (net.tuned_nonneg _ (net.delay_nonneg p q)) hok.tuned
  rw [System.sendPacket, System.setPhase_isend]
  refine h.step_send hyg
    { toCore := { hcore.congr_started (.handler _) (fun _ ↦ trivial)
        fun r _ ↦ .inr (hst r) with }
      nullEvent := fun r hr _ ↦ ?_, safe_zero := fun hf ↦ absurd hf Bool.false_ne_true
      rest := fun rest hrest ↦ ?_, handler := fun sent' hsent' r hr ↦ ?_, stop := fun hm ↦ ?_ }
    ?_ (fun t ht ↦ ?_) hrx'
  · by_cases hrq : r = q
    · rw [hrq]
      exact hcancel.hasNullEvent_self htuned
    · exact ((hl.nullEvent r hr (hst r)).cancel (hl.nullEvent q hq (hst q)) hl.toCore
        hrq).scheduleNullMessageEvent hrq
  · cases hrest
  · cases hsent'
    have hnew : ∀ f ∈ (y.scheduleNullMessageEvent net p q).m_events,
        f ∈ x.m_events ∨ f.ts = x.m_currentTs + net.tuned (net.delay p q) := by
      intro f hf
      rcases List.mem_append.mp hf with hf | hf
      · exact .inl (hye ▸ hf)
      · rw [List.mem_singleton.mp hf]
        exact .inr hts
    dsimp only
    by_cases hrq : r = q
    · rw [if_pos hrq, hrq, hg]
      refine ⟨fun f hf ↦ add_le_add_left ?_ _, .inr ⟨_, List.mem_cons_self, rfl, rfl⟩⟩
      rcases hnew f hf with hf | hf
      · exact hmin_next f hf
      · rw [hf]
        exact (hmin_next a ha).trans hats
    · rw [if_neg hrq]
      obtain ⟨hevents, hnow'⟩ := hl.handler sent hph r hr
      refine ⟨fun f hf ↦ ?_, ?_⟩
      · rcases hnew f hf with hf | hf
        · exact hevents f hf
        · rw [hf]
          exact hother r hr
      · rcases hnow' with hle | ⟨z, hz, hzr, heq⟩
        · left
          exact hyn.symm ▸ hle
        · exact .inr ⟨z, List.mem_cons_of_mem _ hz, hzr, heq⟩
  · obtain ⟨f, hf, hfk⟩ := hl.stop (by
      rw [Process.mustHaveStop, hph]
      exact hystop ▸ hm)
    exact ⟨f, List.mem_append_left _ (hye.symm ▸ hf), hfk⟩
  · -- the new promise is not before the old one
    dsimp only
    rw [hg]
    have hsafe := hl.promised_safe q hq
    have hnext : s.promised p q - net.delay p q ≤ x.next := by
      refine Process.le_next.mpr ⟨?_, fun f hf ↦ ?_⟩
      · have := hl.safe_le_max
        omega
      · have := hall f hf
        omega
    have := le_min hnext (show s.promised p q - net.delay p q ≤ x.m_safeTime by omega)
    omega
  · -- the packet keeps the old promise
    have ht : rxTime = t := by
      rw [Message.due] at ht
      split_ifs at ht
      · exact Option.some.inj ht
    rw [← ht]
    rcases hnow with hle | ⟨z, hz, hzq, heq⟩
    · omega
    · rw [heq]
      exact hok.after z (by rw [hph]; exact hz) hzq

theorem Inv.step_endEvent (h : Inv net s) {sent : List (ℕ × ℤ)}
    (hph : (s.proc p).phase = .handler sent) : Inv net (s.setPhase p .polling) := by
  have hl := h.procs p
  have hst : ∀ q, (s.proc p).phase.started q := fun q ↦ by
    rw [hph]
    trivial
  exact h.step_local rfl (Local.move hl.toCore (fun q _ ↦ hst q) (fun q hq ↦ hl.nullEvent q hq (hst q))
    (.inr rfl) fun hf ↦ hl.stop (by rw [Process.mustHaveStop, hph]; exact hf))

/-! ### Receiving -/

/-- **What is received is not late**, and renews a guarantee that is not decreased. -/
theorem Inv.receiveOk (h : Inv net s) {m : Message} {l : List Message} (hchan : s.chan q p = m :: l)
    (hq : q ∈ net.neighbors p) :
    ReceiveOk (s.proc p) q m ∧ (0 < m.rxTime →
      Time.sub m.rxTime (s.proc p).m_currentTs = m.rxTime - (s.proc p).m_currentTs ∧
        (s.proc p).m_safeTime ≤ m.rxTime ∧ m.rxTime ≤ Time.max) := by
  have hl := h.procs p
  have hkept := h.links q p
  rw [hchan] at hkept
  have hsafe := hl.safe_le q hq
  have hnow := hl.now_le
  have hnow0 := hl.now_nonneg
  have hrx : 0 < m.rxTime → (s.proc p).m_safeTime ≤ m.rxTime := fun hpos ↦
    hsafe.trans (hkept.2.1 _ (if_pos hpos))
  have hmax : m.rxTime ≤ Time.max := h.rxTime_le q p m (hchan ▸ List.mem_cons_self)
  have hsub : 0 < m.rxTime →
      Time.sub m.rxTime (s.proc p).m_currentTs = m.rxTime - (s.proc p).m_currentTs := fun hpos ↦
    Time.sub_eq hnow0 (hnow.trans (hrx hpos)) hmax
  refine ⟨⟨fun hpos ↦ ?_, hnow.trans (hsafe.trans hkept.1), hkept.1⟩,
    fun hpos ↦ ⟨hsub hpos, hrx hpos, hmax⟩⟩
  have hle := hnow.trans (hrx hpos)
  have hadd : Time.add (s.proc p).m_currentTs
      (Time.sub m.rxTime (s.proc p).m_currentTs) = m.rxTime := by
    rw [hsub hpos, Time.add_eq hnow0 (by omega) (by omega)]
    omega
  rw [hadd]
  exact ⟨hle, hpos.le, hle⟩

theorem Inv.step_receiveMessage (h : Inv net s) {m : Message} {l : List Message}
    (hchan : s.chan q p = m :: l) (hq : q ∈ net.neighbors p)
    (hph : (s.proc p).phase = .loop ∨ (s.proc p).phase = .polling) :
    Inv net (s.receiveMessage p q m l) := by
  have hl := h.procs p
  obtain ⟨⟨-, -, hbound⟩, hpacket⟩ := h.receiveOk hchan hq
  have hst : ∀ r, (s.proc p).phase.started r := fun r ↦ by
    rcases hph with hph | hph <;> rw [hph] <;> trivial
  set y : Process := if 0 < m.rxTime then
    (s.proc p).schedule (Time.sub m.rxTime (s.proc p).m_currentTs) .app else s.proc p with hy
  have hy_local : Local net p y (s.promised p) ∧ y.m_guaranteeTime = (s.proc p).m_guaranteeTime := by
    rw [hy]
    split_ifs with hpos
    · obtain ⟨hsub, hsafe, hmax⟩ := hpacket hpos
      have hnow := hl.now_le
      refine ⟨hl.schedule (fun q hk ↦ ?_) (by omega) (by omega) fun r hr ↦ ?_, rfl⟩
      · cases hk
      · have := hl.promised_safe r hr
        omega
    · exact ⟨hl, rfl⟩
  obtain ⟨hyl, hyg⟩ := hy_local
  refine h.step_receive hchan (x := { y with
    m_guaranteeTime := fun r ↦ if r = q then m.guaranteeUpdate else y.m_guaranteeTime r }) ?_ ?_
  · rw [hyg]
  · have hsafe_y : y.m_safeTime = (s.proc p).m_safeTime := by
      rw [hy]
      split_ifs <;> rfl
    exact { hyl with
      safe_le := fun r hr ↦ by
        dsimp only
        split_ifs with hrq
        · rw [hsafe_y]
          exact (hl.safe_le q hq).trans hbound
        · exact hyl.safe_le r hr }

theorem Local.calculateSafeTime {x : Process} {promised : ℕ → ℤ} (h : Local net p x promised)
    (hph : x.phase = .loop ∨ x.phase = .polling) :
    SafeTimeOk net p x ∧ Local net p { x.calculateSafeTime net p with phase := .loop } promised := by
  have hle : x.m_safeTime ≤ x.getSafeTime net p :=
    Process.le_getSafeTime h.safe_le_max h.safe_le
  have hst : ∀ r, x.phase.started r := fun r ↦ by
    rcases hph with hph | hph <;> rw [hph] <;> trivial
  have hcore : Core net p (x.calculateSafeTime net p) promised fun q ↦ x.phase.started q :=
    { h.toCore with
      now_le := h.now_le.trans hle
      safe_le_max := Process.getSafeTime_le_max
      safe_le := fun q hq ↦ Process.getSafeTime_le hq
      promised_safe := fun q hq ↦ (h.promised_safe q hq).trans (add_le_add_left hle _) }
  refine ⟨h.now_le.trans hle, Local.move hcore (fun q _ ↦ hst q)
    (fun q hq ↦ h.nullEvent q hq (hst q)) (.inl rfl) fun hf ↦ h.stop ?_⟩
  rw [Process.mustHaveStop]
  rcases hph with hph | hph <;> rw [hph] <;> exact hf

theorem Inv.step_calculateSafeTime (h : Inv net s)
    (hph : (s.proc p).phase = .loop ∨ (s.proc p).phase = .polling) :
    SafeTimeOk net p (s.proc p) ∧
      Inv net (s.setProc p { (s.proc p).calculateSafeTime net p with phase := .loop }) := by
  obtain ⟨hok, hlocal⟩ := (h.procs p).calculateSafeTime hph
  exact ⟨hok, h.step_local rfl hlocal⟩

theorem System.receiveMessage_phase {m : Message} {l : List Message} :
    ((s.receiveMessage p q m l).proc p).phase = (s.proc p).phase := by
  have hx : (s.receiveMessage p q m l).proc p = _ := System.setProc_same
  rw [hx]
  dsimp only
  split_ifs <;> rfl

theorem Process.calculateSafeTime_loop {x : Process} (hph : x.phase = .loop) :
    { x.calculateSafeTime net p with phase := .loop } = x.calculateSafeTime net p := by
  rw [← hph]
  rfl

/-! ### All steps -/

theorem inv_init : Inv net (machine net).init where
  procs p :=
    { now_nonneg := le_rfl, now_le := le_rfl, safe_le_max := Time.max_nonneg
      safe_le := fun _ _ ↦ le_rfl, impls := .nil, impl_lt := fun _ he ↦ absurd he List.not_mem_nil
      ahead := fun _ he ↦ absurd he List.not_mem_nil
      nulls := fun _ he ↦ absurd he List.not_mem_nil
      cancelled := fun _ he ↦ absurd he List.not_mem_nil
      cancelled_lt := fun _ hi ↦ absurd hi List.not_mem_nil, unstarted := fun _ _ _ ↦ le_rfl
      promised_safe := fun q _ ↦ add_nonneg le_rfl (net.delay_nonneg p q)
      promised_events := fun _ _ _ he ↦ absurd he List.not_mem_nil
      nullEvent := fun _ _ hst ↦ absurd hst id, safe_zero := fun _ ↦ rfl
      rest := fun _ hrest ↦ Phase.noConfusion hrest
      handler := fun _ hsent ↦ Phase.noConfusion hsent, stop := fun hm ↦ absurd hm id }
  links _ _ := trivial
  rxTime_le _ _ _ hm := absurd hm List.not_mem_nil

theorem inv_step {op : Op} {s' : System} (h : Inv net s) (hok : KeepsPromises net s op)
    (hs : (machine net).next s op = some s') : Inv net s' := by
  cases op with
  | schedule p delay =>
    simp only [machine, Option.ite_none_right_eq_some, Option.some_inj] at hs
    obtain ⟨⟨hph, hdelay⟩, rfl⟩ := hs
    exact h.step_schedule (fun q hk ↦ Kind.noConfusion hk) hph hdelay hok.1 hok.2
  | scheduleStop p delay =>
    simp only [machine, Option.ite_none_right_eq_some, Option.some_inj] at hs
    obtain ⟨⟨hph, hdelay⟩, rfl⟩ := hs
    exact h.step_schedule (fun q hk ↦ Kind.noConfusion hk) hph hdelay hok.1 hok.2
  | run p =>
    simp only [machine, Option.ite_none_right_eq_some, Option.some_inj] at hs
    obtain ⟨⟨hph, hstop⟩, rfl⟩ := hs
    exact h.step_run hph hstop
  | initializeNullMessageEvent p =>
    rcases hph : (s.proc p).phase with _ | (_ | ⟨q, rest⟩) | _ | _ | _ <;>
      simp only [machine, hph, reduceCtorEq, Option.some_inj] at hs
    rw [← hs]
    exact h.step_initialize hph
      (hok q (((h.procs p).rest _ hph).2 q List.mem_cons_self))
  | enterLoop p =>
    simp only [machine, Option.ite_none_right_eq_some, Option.some_inj] at hs
    obtain ⟨hph, rfl⟩ := hs
    exact h.step_enterLoop hph
  | begin p e =>
    simp only [machine, Option.ite_none_right_eq_some] at hs
    obtain ⟨⟨hph, hrun, hmem, hle, hsafe⟩, hs⟩ := hs
    have hb : CanBegin (s.proc p) e := ⟨hph, hrun, hmem, hle, hsafe⟩
    split_ifs at hs with hc
    · obtain rfl := Option.some.inj hs
      rw [System.setPhase_setProc]
      exact h.step_begin_cancelled hb hc
    · rcases hk : e.kind with _ | q | _ <;>
        simp only [hk, Option.some_inj] at hs <;> rw [← hs]
      · rw [System.setPhase_setProc]
        exact h.step_begin_app hb hk
      · obtain ⟨htuned, hmax⟩ := hok q ((h.procs p).nulls e hmem q hk).1
        exact h.step_begin_null hb hk hc htuned hmax
      · rw [System.setProc_same, System.setProc_setProc]
        exact h.step_begin_stop hb hk
  | send p c rxTime =>
    rcases hph : (s.proc p).phase with _ | _ | _ | sent | _ <;>
      simp only [machine, hph, reduceCtorEq, Option.ite_none_right_eq_some, Option.some_inj] at hs
    obtain ⟨⟨hc, hp, hrx, hrx'⟩, rfl⟩ := hs
    refine h.step_send_packet hph (net.other_mem_neighbors hc hp) ?_ hrx' ⟨hok.1, hok.2.1, hok.2.2⟩
    exact (add_le_add_right (net.delay_le_channel hc hp) _).trans hrx
  | endEvent p =>
    rcases hph : (s.proc p).phase with _ | _ | _ | sent | _ <;>
      simp only [machine, hph, reduceCtorEq, Option.some_inj] at hs
    rw [← hs]
    exact h.step_endEvent hph
  | receive p q =>
    rcases hchan : s.chan q p with _ | ⟨m, l⟩ <;>
      simp only [machine, hchan, reduceCtorEq, Option.ite_none_right_eq_some,
        Option.some_inj] at hs
    obtain ⟨⟨hph, hq⟩, rfl⟩ := hs
    exact h.step_receiveMessage hchan hq (.inr hph)
  | endPolling p =>
    simp only [machine, Option.ite_none_right_eq_some, Option.some_inj] at hs
    obtain ⟨hph, rfl⟩ := hs
    rw [System.setPhase_setProc]
    exact (h.step_calculateSafeTime (.inr hph)).2
  | receiveBlocking p q =>
    rcases hchan : s.chan q p with _ | ⟨m, l⟩ <;>
      simp only [machine, hchan, reduceCtorEq, Option.ite_none_right_eq_some,
        Option.some_inj] at hs
    obtain ⟨⟨hph, -, -, -, hq⟩, rfl⟩ := hs
    have hph' : ((s.receiveMessage p q m l).proc p).phase = .loop := by
      rw [System.receiveMessage_phase, hph]
    have := ((h.step_receiveMessage hchan hq (.inl hph)).step_calculateSafeTime (.inl hph')).2
    rwa [Process.calculateSafeTime_loop hph'] at this
  | noNeighbors p =>
    simp only [machine, Option.ite_none_right_eq_some, Option.some_inj] at hs
    obtain ⟨⟨hph, -⟩, rfl⟩ := hs
    have := (h.step_calculateSafeTime (.inl hph)).2
    rwa [Process.calculateSafeTime_loop hph] at this

theorem Inv.sound (h : Inv net s) {op : Op} {s' : System} (hs : (machine net).next s op = some s') :
    Sound net s op := by
  cases op with
  | receive p q =>
    rcases hchan : s.chan q p with _ | ⟨m, l⟩ <;>
      simp only [machine, hchan, reduceCtorEq, Option.ite_none_right_eq_some] at hs
    obtain ⟨⟨-, hq⟩, -⟩ := hs
    intro m' hm'
    rw [hchan] at hm'
    obtain rfl := Option.some.inj hm'
    exact (h.receiveOk hchan hq).1
  | receiveBlocking p q =>
    rcases hchan : s.chan q p with _ | ⟨m, l⟩ <;>
      simp only [machine, hchan, reduceCtorEq, Option.ite_none_right_eq_some] at hs
    obtain ⟨⟨hph, -, -, -, hq⟩, -⟩ := hs
    intro m' hm'
    rw [hchan] at hm' ⊢
    obtain rfl := Option.some.inj hm'
    have hph' : ((s.receiveMessage p q m l).proc p).phase = .loop := by
      rw [System.receiveMessage_phase, hph]
    exact ⟨(h.receiveOk hchan hq).1,
      ((h.step_receiveMessage hchan hq (.inl hph)).step_calculateSafeTime (.inl hph')).1⟩
  | endPolling p =>
    simp only [machine, Option.ite_none_right_eq_some] at hs
    exact (h.step_calculateSafeTime (.inr hs.1)).1
  | noNeighbors p =>
    simp only [machine, Option.ite_none_right_eq_some] at hs
    exact (h.step_calculateSafeTime (.inl hs.1.1)).1
  | schedule | scheduleStop | run | initializeNullMessageEvent | enterLoop | begin | send
  | endEvent => trivial

end Steps

/-- **Null message simulation is causal in every run whose handlers keep their promises**: no packet
is late, guarantees do not decrease, and no assertion fails. -/
theorem sound_of_keepsPromises (net : Network) {ops : List Op} {s : System}
    (hr : (machine net).Run (KeepsPromises net) ops s) :
    ∀ op s', (machine net).next s op = some s' → Sound net s op := fun _ _ hs ↦
  Inv.sound (hr.invariant inv_init fun _ _ _ hi hok hs ↦ inv_step hi hok hs) hs

/-! ## A broken promise -/

instance (net : Network) (s : System) : ∀ op, Decidable (KeepsPromises net s op)
  | .schedule _ _ => inferInstanceAs (Decidable (_ ∧ ∀ y ∈ Phase.sent _, _))
  | .scheduleStop _ _ => inferInstanceAs (Decidable (_ ∧ ∀ y ∈ Phase.sent _, _))
  | .initializeNullMessageEvent p => inferInstanceAs (Decidable (∀ q ∈ net.neighbors p, _))
  | .begin p _ => inferInstanceAs (Decidable (∀ q ∈ net.neighbors p, _ ∧ _))
  | .send _ _ _ => inferInstanceAs (Decidable (_ ∧ _ ∧ ∀ y ∈ Phase.sent _, _ → _))
  | .run _ | .enterLoop _ | .endEvent _ | .receive _ _ | .endPolling _ | .receiveBlocking _ _
  | .noNeighbors _ => isTrue trivial

/-- Two processes joined by a channel of delay `10`. -/
def twoProcesses : Network where
  channels := [⟨0, 1, 10⟩]
  delay_pos := by decide
  delay_le := by decide
  distinct := by decide
  tuned d := d
  tuned_nonneg _ h := h

/-- Process `0` has an event at time `5` and process `1` one at time `18`; both enter the loop of
`Run`, and process `0` reads the first guarantee of process `1` and begins its event. -/
def startOps : List Op :=
  [.schedule 0 5, .scheduleStop 0 1000, .schedule 1 18, .scheduleStop 1 1000,
    .run 0, .initializeNullMessageEvent 0, .enterLoop 0,
    .run 1, .initializeNullMessageEvent 1, .enterLoop 1,
    .receiveBlocking 0 1, .begin 0 ⟨5, 1, .app⟩]

theorem sound_startOps : ∃ s,
    (machine twoProcesses).Run (KeepsPromises twoProcesses)
      (startOps ++ [.send 0 ⟨0, 1, 10⟩ 15, .endEvent 0, .receiveBlocking 1 0]) s ∧
    ∀ op s', (machine twoProcesses).next s op = some s' → Sound twoProcesses s op := by
  refine Machine.exists_run_and_allowed (p := fun s ↦ (s.proc 1).m_safeTime = 10) (by decide)
    (by decide) fun s hr _ ↦ ?_
  exact sound_of_keepsPromises twoProcesses hr

/-- The event of process `0` sends two packets at once, both due at time `15`. The first one promises
time `20`, on which process `1` executes its event at time `18`. -/
def twoPacketsOps : List Op :=
  startOps ++
  [.send 0 ⟨0, 1, 10⟩ 15, .send 0 ⟨0, 1, 10⟩ 15, .endEvent 0,
    .receiveBlocking 1 0, .begin 1 ⟨10, 3, .null 0⟩, .endPolling 1,
    .receiveBlocking 1 0, .begin 1 ⟨15, 5, .app⟩, .endEvent 1, .endPolling 1,
    .begin 1 ⟨18, 1, .app⟩, .endEvent 1]

/-- **The second packet is late.** -/
theorem not_sound_twoPacketsOps : ∃ s,
    (machine twoProcesses).Run Machine.unguarded twoPacketsOps s ∧
    ∃ op s', (machine twoProcesses).next s op = some s' ∧ ¬Sound twoProcesses s op := by
  refine Machine.exists_run_and
    (p := fun s ↦ (s.proc 1).phase = .polling ∧ (s.proc 1).m_currentTs = 18 ∧ s.chan 0 1 = [⟨15, 20⟩])
    (by decide) fun s hr ⟨hphase, hnow, hchan⟩ ↦ ?_
  have hnext : (machine twoProcesses).next s (.receive 1 0) =
      some (s.receiveMessage 1 0 ⟨15, 20⟩ []) := by
    simp only [machine, hchan]
    exact if_pos ⟨hphase, by decide⟩
  refine ⟨.receive 1 0, _, hnext, fun hs ↦ ?_⟩
  have hlate := ((hs ⟨15, 20⟩ (by rw [hchan]; rfl)).1 (by decide)).1
  rw [hnow] at hlate
  exact absurd hlate (by decide)

end NullMessage

end Ns3
