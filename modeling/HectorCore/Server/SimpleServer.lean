import HectorCore.Lib.Run
import Mathlib.Logic.Function.Basic

/-!
# SimpleServer — a thread that accepts connections, and threads that serve them

`lib/server/SimpleServer.cc`: `Start`, `Stop`, `SetRunning`, `MainThread` and `ServiceThread`, for
any interleaving of their threads. A step is a section under `main_lock`, a system call, or an
operation on the queue of descriptors, which is the FIFO that `Queue/Delivery.lean` makes of a
`SyncQueue` with a single sub-queue.

* Descriptors are numbers in the table of the process, which has others beside those of the server.
  A number that is free may be given out again. `shutdown` goes with the `close` behind it.
* A connection is known by the number of connections accepted before it.
* What the system calls answer is in the labels: `none` is a failure.
* `queued`, `taken`, `closed` and `lost` are histories: what went into the queue and came out of it,
  what was meant to be closed and what the descriptor was, and which connections were forgotten
  while open.
-/

namespace HectorCore.SimpleServer

abbrev Str := List UInt8

/-- What a descriptor is open for. -/
inductive Use where
  | listening
  | conn (c : Nat)
  | other
  deriving DecidableEq, Repr

/-- Where the main thread is. -/
inductive Main where
  | absent
  /-- In front of the loop that creates the service threads. -/
  | creating
  | opening
  | binding
  /-- In front of `while (GetRunning())`. -/
  | looping
  | accepting
  /-- In front of `if (!GetRunning())`, with the result of `accept`. -/
  | accepted (r : Option (Nat × Nat))
  /-- In front of `inet_ntop`. -/
  | resolving (fd c : Nat)
  /-- Behind the loop, in front of `main_running = false`. -/
  | leaving
  /-- In front of `queue->Stop()`. -/
  | stopping
  | joining
  | finished
  /-- Returned because there is no socket to listen on. -/
  | failed
  deriving DecidableEq, Repr

/-- Where a service thread is. -/
inductive Service where
  | absent
  /-- In front of `while (GetRunning())`. -/
  | looping
  /-- In `queue->GetItem`. -/
  | getting
  /-- In `Request(fd->fd)`. -/
  | serving (fd c : Nat)
  | finished
  deriving DecidableEq, Repr

/-- `nThreads` and `allowed_client` -/
structure Config where
  nThreads : Nat
  allowed : List Str
  deriving DecidableEq, Repr

structure State where
  running : Bool
  socket : Option Nat
  main : Main
  service : Nat → Service
  queue : List (Nat × Nat)
  cancel : Bool
  fds : Nat → Option Use
  /-- How many connections have been accepted. -/
  next : Nat
  queued : List (Nat × Str)
  taken : List (Nat × Nat)
  closed : List (Use × Option Use)
  lost : List Nat

/-- Before `Start`. -/
def init : State where
  running := false
  socket := none
  main := .absent
  service := fun _ => .absent
  queue := []
  cancel := false
  fds := fun _ => none
  next := 0
  queued := []
  taken := []
  closed := []
  lost := []

/-- What a thread does next; `none` and `false` are failures of a system call. -/
inductive Label where
  | start
  | stop
  /-- `SetRunning(false)` -/
  | setRunning
  | create
  | socket (r : Option Nat)
  /-- `setsockopt`, `bind` and `listen` -/
  | listen (ok : Bool)
  /-- `GetRunning` of the main thread. -/
  | mainRunning
  | accept (r : Option Nat)
  | inetNtop (r : Option Str)
  | leave
  | stopQueue
  | join
  /-- `GetRunning` of a service thread. -/
  | serviceRunning (t : Nat)
  | getItem (t : Nat)
  /-- `Request` returns. -/
  | served (t : Nat)
  /-- The rest of the process. -/
  | openOther (fd : Nat)
  | closeOther (fd : Nat)
  deriving DecidableEq, Repr

/-- The steps of the service threads. -/
def Label.ofService : Label → Bool
  | .serviceRunning _ | .getItem _ | .served _ => true
  | _ => false

namespace State

/-- `close(fd)`, where `use` is what the descriptor should be. -/
def close (s : State) (use : Use) (fd : Nat) : State :=
  { s with fds := Function.update s.fds fd none, closed := s.closed ++ [(use, s.fds fd)] }

def setMain (s : State) (main : Main) : State := { s with main := main }

def setService (s : State) (t : Nat) (service : Service) : State :=
  { s with service := Function.update s.service t service }

/-- Connections that are forgotten while they are open. -/
def lose (s : State) (cs : List Nat) : State := { s with lost := s.lost ++ cs }

/-- `main_running = false`, and `main_socket` is closed. -/
def shut (s : State) : State :=
  match s.socket with
  | none => { s with running := false }
  | some fd => ({ s with running := false }).close .listening fd

/-- `shut` is about the descriptor and `running` only. -/
@[simp] theorem shut_main (s : State) : s.shut.main = s.main := by unfold shut; split <;> rfl

@[simp] theorem shut_service (s : State) : s.shut.service = s.service := by
  unfold shut; split <;> rfl

@[simp] theorem shut_queue (s : State) : s.shut.queue = s.queue := by unfold shut; split <;> rfl

@[simp] theorem shut_cancel (s : State) : s.shut.cancel = s.cancel := by unfold shut; split <;> rfl

@[simp] theorem shut_running (s : State) : s.shut.running = false := by unfold shut; split <;> rfl

@[simp] theorem shut_socket (s : State) : s.shut.socket = s.socket := by
  unfold shut
  split <;> simp [close, *]

@[simp] theorem shut_next (s : State) : s.shut.next = s.next := by unfold shut; split <;> rfl

@[simp] theorem shut_queued (s : State) : s.shut.queued = s.queued := by unfold shut; split <;> rfl

@[simp] theorem shut_taken (s : State) : s.shut.taken = s.taken := by unfold shut; split <;> rfl

/-- `main_socket = -1` -/
def clearSocket (s : State) : State := { s with socket := none }

/-- Somebody listens on `main_socket`. -/
def listens (s : State) : Bool := s.socket.any fun fd => s.fds fd == some .listening

end State

/-- Whether a client may connect. -/
def Config.allows (config : Config) (ip : Str) : Bool :=
  config.allowed.isEmpty || config.allowed.contains ip

/-- The service threads. -/
def Config.create (config : Config) (s : State) : State :=
  { s with service := fun t => if t < config.nThreads then .looping else s.service t }

/-- The rest of the loop of `MainThread` behind `accept`, for a connection. -/
def Config.dispatch (config : Config) (s : State) (fd c : Nat) : Option Str → State
  | none => (s.lose [c]).setMain .looping
  | some ip =>
    if !config.allows ip then (s.close (.conn c) fd).setMain .looping
    else if s.cancel then (s.lose [c]).setMain .leaving
    else { s with queue := s.queue ++ [(fd, c)], queued := s.queued ++ [(c, ip)], main := .looping }

/-- One step of one thread. -/
def step (config : Config) (s : State) : Label → Option State
  | .start => if s.main = .absent then some { s with running := true, main := .creating } else none
  | .stop => some (if s.running then s.shut.clearSocket else s)
  | .setRunning => some s.shut
  | .create => if s.main = .creating then some ((config.create s).setMain .opening) else none
  | .socket r =>
    if s.main = .opening then
      match r with
      | none => some ({ s with socket := none }.setMain .failed)
      | some fd =>
        if s.fds fd = none then
          some ({ s with
            socket := some fd, fds := Function.update s.fds fd (some .listening) }.setMain .binding)
        else none
    else none
  | .listen ok =>
    if s.main = .binding then
      if ok then if s.listens then some (s.setMain .looping) else none
      else some (s.setMain .failed)
    else none
  | .mainRunning =>
    match s.main with
    | .looping => some (s.setMain (if s.running then .accepting else .leaving))
    | .accepted none => some (s.setMain .leaving)
    | .accepted (some (fd, c)) =>
      if s.running then some (s.setMain (.resolving fd c)) else some ((s.lose [c]).setMain .leaving)
    | _ => none
  | .accept r =>
    if s.main = .accepting then
      match r with
      | none => some (s.setMain (.accepted none))
      | some fd =>
        if s.listens ∧ s.fds fd = none then
          some ({ s with
            fds := Function.update s.fds fd (some (.conn s.next)), next := s.next + 1 }.setMain
            (.accepted (some (fd, s.next))))
        else none
    else none
  | .inetNtop r =>
    match s.main with
    | .resolving fd c => some (config.dispatch s fd c r)
    | _ => none
  | .leave => if s.main = .leaving then some (s.shut.clearSocket.setMain .stopping) else none
  | .stopQueue =>
    if s.main = .stopping then
      some (({ s with cancel := true, queue := [] }.lose (s.queue.map Prod.snd)).setMain .joining)
    else none
  | .join =>
    if s.main = .joining ∧ ∀ t < config.nThreads, s.service t = .finished then
      some (s.setMain .finished)
    else none
  | .serviceRunning t =>
    if s.service t = .looping then
      some (s.setService t (if s.running then .getting else .finished))
    else none
  | .getItem t =>
    if s.service t = .getting then
      if s.cancel then some (s.setService t .finished)
      else
        match s.queue with
        | [] => none      -- waits
        | (fd, c) :: rest =>
          some ({ s with queue := rest, taken := s.taken ++ [(t, c)] }.setService t (.serving fd c))
    else none
  | .served t =>
    match s.service t with
    | .serving fd c => some ((s.close (.conn c) fd).setService t .looping)
    | _ => none
  | .openOther fd =>
    if s.fds fd = none then some { s with fds := Function.update s.fds fd (some .other) } else none
  | .closeOther fd =>
    if s.fds fd = some .other then some { s with fds := Function.update s.fds fd none } else none

end HectorCore.SimpleServer
