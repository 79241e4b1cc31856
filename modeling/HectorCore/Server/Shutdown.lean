import HectorCore.Server.Connections
import Mathlib.Algebra.Order.BigOperators.Group.Finset

/-!
# Shutdown — how SimpleServer comes to an end

`SetRunning(false)` closes `main_socket` and keeps its number, `Stop` and the end of `MainThread`
close it and forget it. A service thread that answers SHUTDOWN calls the first one.

* `Sound`                 — what is so in every state that the server reaches;
* `connections_accounted` — where the accepted connections are;
* `served_in_order`       — they are served in the order in which they were accepted;
* `closes_right_iff`      — when a `close` does not hit what it was meant for;
* `failed_waits`          — without a socket the service threads wait for ever;
* `shutdown_ends`         — with a stopped queue they end, after two steps each at most.
-/

namespace HectorCore.SimpleServer

open Lib (run AllOk run_invariant run_history run_iff_allOk)

variable {config : Config} {s s' : State} {a : Label}

-- ---------------------------------------------------------------------------
-- Where the main thread is
-- ---------------------------------------------------------------------------

/-- In front of the loop that accepts connections, or returned from there. -/
def Main.early : Main → Bool
  | .absent | .creating | .opening | .binding | .failed => true
  | _ => false

/-- Behind the loop, and `main_socket` is closed. -/
def Main.over : Main → Bool
  | .stopping | .joining | .finished => true
  | _ => false

/-- Behind `queue->Stop()`. -/
def Main.cancelled : Main → Bool
  | .joining | .finished => true
  | _ => false

/-- There is no `main_socket` yet, or no more. -/
def Main.bare : Main → Bool
  | .absent | .creating | .opening | .stopping | .joining | .finished => true
  | _ => false

theorem created_of_cancelled {main : Main} (h : main.cancelled = true) : main.created = true := by
  cases main <;> first | rfl | cases h

/-- What the place of the main thread says. -/
structure Phases (s : State) : Prop where
  queue : s.main.early = true ∨ s.main.cancelled = true → s.queue = []
  cancel : s.cancel = s.main.cancelled
  socket : s.main.bare = true → s.socket = none
  running : s.main.over = true → s.running = false
  finished : s.main = .finished → ∀ t, s.service t = .finished ∨ s.service t = .absent

theorem phases_init : Phases init :=
  ⟨fun _ => rfl, rfl, fun _ => rfl, nofun, nofun⟩

/-- Only the main thread knows where it is. -/
theorem Phases.same (h : Phases s) (hMain : s'.main = s.main) (hQueue : s'.queue = s.queue)
    (hCancel : s'.cancel = s.cancel) (hSocket : s'.socket = s.socket ∨ s'.socket = none)
    (hRunning : s'.running = s.running ∨ s'.running = false) (hService : s'.service = s.service) :
    Phases s' := by
  refine ⟨?_, ?_, ?_, ?_, ?_⟩
  · rw [hMain, hQueue]
    exact h.queue
  · rw [hCancel, hMain, h.cancel]
  · intro hBare
    rw [hMain] at hBare
    exact hSocket.elim (fun hSame => hSame.trans (h.socket hBare)) id
  · intro hOver
    rw [hMain] at hOver
    exact hRunning.elim (fun hSame => hSame.trans (h.running hOver)) id
  · rw [hMain, hService]
    exact h.finished

/-- The main thread goes on in its loop, or leaves it. -/
theorem Phases.inLoop (h : Phases s) (hMain : s.main.early = false ∧ s.main.cancelled = false)
    (hAfter : s'.main.early = false ∧ s'.main.over = false) (hCancel : s'.cancel = s.cancel) :
    Phases s' := by
  have hCancelled : s'.main.cancelled = false ∧ s'.main.bare = false ∧ s'.main ≠ .finished := by
    cases hIs : s'.main <;> simp_all [Main.early, Main.over, Main.cancelled, Main.bare]
  refine ⟨?_, ?_, ?_, ?_, ?_⟩
  · rw [hAfter.1, hCancelled.1]
    nofun
  · rw [hCancel, h.cancel, hMain.2, hCancelled.1]
  · rw [hCancelled.2.1]
    nofun
  · rw [hAfter.2]
    nofun
  · exact fun hFinished => absurd hFinished hCancelled.2.2

theorem early_of_hand {main : Main} {p : Nat × Nat} (h : main.hand = [p]) :
    main.early = false ∧ main.cancelled = false := by
  cases main <;> first | exact ⟨rfl, rfl⟩ | cases h

theorem phases_moves (hCreated : Created config s) (h : Phases s) (hMoves : Moves config s a s') :
    Phases s' := by
  cases hMoves with
  | nothing => exact h
  | started hMain =>
    have hQueue : s.queue = [] := h.queue (Or.inl (by rw [hMain]; rfl))
    have hCancel : s.cancel = false := h.cancel.trans (by rw [hMain]; rfl)
    have hSocket : s.socket = none := h.socket (by rw [hMain]; rfl)
    exact ⟨fun _ => hQueue, hCancel, fun _ => hSocket, nofun, nofun⟩
  | shut socket hSocket =>
    refine h.same s.shut_main s.shut_queue s.shut_cancel ?_ (Or.inr s.shut_running) s.shut_service
    exact hSocket.imp_left And.right
  | created hMain =>
    have hQueue : s.queue = [] := h.queue (Or.inl (by rw [hMain]; rfl))
    have hCancel : s.cancel = false := h.cancel.trans (by rw [hMain]; rfl)
    have hSocket : s.socket = none := h.socket (by rw [hMain]; rfl)
    exact ⟨fun _ => hQueue, hCancel, fun _ => hSocket, nofun, nofun⟩
  | noSocket hMain =>
    have hQueue : s.queue = [] := h.queue (Or.inl (by rw [hMain]; rfl))
    have hCancel : s.cancel = false := h.cancel.trans (by rw [hMain]; rfl)
    exact ⟨fun _ => hQueue, hCancel, fun _ => rfl, nofun, nofun⟩
  | opened fd hMain hFree =>
    have hQueue : s.queue = [] := h.queue (Or.inl (by rw [hMain]; rfl))
    have hCancel : s.cancel = false := h.cancel.trans (by rw [hMain]; rfl)
    exact ⟨fun _ => hQueue, hCancel, nofun, nofun, nofun⟩
  | goes main hGoes =>
    -- the phases are told by where the main thread was and where it goes
    generalize hBefore : s.main = before at hGoes
    have hQueue := h.queue
    have hCancel := h.cancel
    have hSocket := h.socket
    have hRunning := h.running
    rw [hBefore] at hQueue hCancel hSocket hRunning
    cases hGoes with
    | joined hAll =>
      refine ⟨fun _ => hQueue (Or.inr rfl), hCancel, fun _ => hSocket rfl,
        fun _ => hRunning rfl, ?_⟩
      intro _ t
      rcases Nat.lt_or_ge t config.nThreads with hLt | hGe
      · exact Or.inl (hAll t hLt)
      · exact Or.inr ((hCreated t).mpr (Or.inr hGe))
    | gaveUp => exact ⟨fun _ => hQueue (Or.inl rfl), hCancel, nofun, nofun, nofun⟩
    | _ => exact ⟨fun hEnd => hEnd.elim nofun nofun, hCancel, nofun, nofun, nofun⟩
  | accepted fd hMain hListens hFree =>
    exact h.inLoop (by rw [hMain]; exact ⟨rfl, rfl⟩) ⟨rfl, rfl⟩ rfl
  | lost fd c main hHand hMain =>
    refine h.inLoop (early_of_hand hHand) ?_ rfl
    rcases hMain with rfl | rfl <;> exact ⟨rfl, rfl⟩
  | refused fd c hHand => exact h.inLoop (early_of_hand hHand) ⟨rfl, rfl⟩ rfl
  | queued fd c ip hHand hAllows hOpen => exact h.inLoop (early_of_hand hHand) ⟨rfl, rfl⟩ rfl
  | left hMain =>
    have hCancel : s.cancel = false := h.cancel.trans (by rw [hMain]; rfl)
    refine ⟨fun hEnd => hEnd.elim nofun nofun, s.shut_cancel.trans hCancel, fun _ => rfl,
      fun _ => s.shut_running, nofun⟩
  | discarded hMain =>
    -- the queue is stopped: what was in it is lost
    have hSocket : s.socket = none := h.socket (by rw [hMain]; rfl)
    have hRunning : s.running = false := h.running (by rw [hMain]; rfl)
    exact ⟨fun _ => rfl, rfl, fun _ => hSocket, fun _ => hRunning, nofun⟩
  | turns t service ha hTurns =>
    refine ⟨h.queue, h.cancel, h.socket, h.running, fun hFinished => ?_⟩
    rcases h.finished hFinished t with hEnd | hNone
    · rw [hEnd] at hTurns
      cases hTurns
    · rw [hNone] at hTurns
      cases hTurns
  | taken t fd c rest ha hService hOpen hQueue =>
    -- somebody who takes a connection is in none of the phases with an empty queue
    have hFull : s.queue ≠ [] := by rw [hQueue]; nofun
    refine ⟨fun hEnd => absurd (h.queue hEnd) hFull, h.cancel, h.socket, h.running,
      fun hFinished => ?_⟩
    exact absurd (h.queue (Or.inr (by rw [show s.main = .finished from hFinished]; rfl))) hFull
  | served t fd c ha hService =>
    refine ⟨h.queue, h.cancel, h.socket, h.running, fun hFinished => ?_⟩
    rcases h.finished hFinished t with hEnd | hNone
    · rw [hEnd] at hService
      cases hService
    · rw [hNone] at hService
      cases hService
  | openedOther fd hFree => exact h.same rfl rfl rfl (Or.inl rfl) (Or.inl rfl) rfl
  | closedOther fd hOther => exact h.same rfl rfl rfl (Or.inl rfl) (Or.inl rfl) rfl

-- ---------------------------------------------------------------------------
-- The order in which connections are served
-- ---------------------------------------------------------------------------

/-- What went into the queue comes out of it in the order of the calls of `accept`. -/
structure Ordered (config : Config) (s : State) : Prop where
  increasing : (s.queued.map Prod.fst ++ s.main.hand.map Prod.snd).Pairwise (· < ·)
  below : ∀ c ∈ s.queued.map Prod.fst ++ s.main.hand.map Prod.snd, c < s.next
  allowed : ∀ q ∈ s.queued, config.allows q.2 = true
  fifo : s.cancel = false → s.queued.map Prod.fst = s.taken.map Prod.snd ++ s.queue.map Prod.snd
  taken : s.taken.map Prod.snd <+: s.queued.map Prod.fst

theorem ordered_init : Ordered config init :=
  ⟨.nil, nofun, nofun, fun _ => rfl, List.prefix_rfl⟩

/-- The main thread has the same connection in hand as before, or none. -/
theorem Ordered.same (h : Ordered config s) (hHand : s'.main.hand = s.main.hand ∨ s'.main.hand = [])
    (hQueued : s'.queued = s.queued) (hTaken : s'.taken = s.taken) (hNext : s'.next = s.next)
    (hQueue : s'.cancel = false → s.cancel = false ∧ s'.queue = s.queue) : Ordered config s' := by
  have hSublist : (s'.queued.map Prod.fst ++ s'.main.hand.map Prod.snd).Sublist
      (s.queued.map Prod.fst ++ s.main.hand.map Prod.snd) := by
    rw [hQueued]
    rcases hHand with hSame | hNone
    · rw [hSame]
    · rw [hNone]
      exact (List.nil_sublist _).append_left _
  refine ⟨h.increasing.sublist hSublist, ?_, ?_, ?_, ?_⟩
  · rw [hNext]
    exact fun c hc => h.below c (hSublist.subset hc)
  · rw [hQueued]
    exact h.allowed
  · intro hOpen
    obtain ⟨hBefore, hSame⟩ := hQueue hOpen
    rw [hQueued, hTaken, hSame]
    exact h.fifo hBefore
  · rw [hQueued, hTaken]
    exact h.taken

theorem ordered_moves (h : Ordered config s) (hMoves : Moves config s a s') :
    Ordered config s' := by
  cases hMoves with
  | nothing => exact h
  | started hMain => exact h.same (Or.inr rfl) rfl rfl rfl fun hOpen => ⟨hOpen, rfl⟩
  | shut socket hSocket =>
    exact h.same (Or.inl (congrArg Main.hand s.shut_main)) s.shut_queued s.shut_taken s.shut_next
      fun hOpen => ⟨s.shut_cancel ▸ hOpen, s.shut_queue⟩
  | created hMain => exact h.same (Or.inr rfl) rfl rfl rfl fun hOpen => ⟨hOpen, rfl⟩
  | noSocket hMain => exact h.same (Or.inr rfl) rfl rfl rfl fun hOpen => ⟨hOpen, rfl⟩
  | opened fd hMain hFree => exact h.same (Or.inr rfl) rfl rfl rfl fun hOpen => ⟨hOpen, rfl⟩
  | goes main hGoes => exact h.same (Or.inl hGoes.hand) rfl rfl rfl fun hOpen => ⟨hOpen, rfl⟩
  | accepted fd hMain hListens hFree =>
    have hBelow := h.below
    have hIncreasing := h.increasing
    rw [hMain] at hBelow hIncreasing
    simp only [Main.hand, List.map_nil, List.append_nil] at hBelow hIncreasing
    refine ⟨?_, ?_, h.allowed, h.fifo, h.taken⟩
    · show (s.queued.map Prod.fst ++ [s.next]).Pairwise (· < ·)
      refine List.pairwise_append.mpr
        ⟨hIncreasing, List.pairwise_singleton _ _, fun c hc d hd => ?_⟩
      rw [List.mem_singleton.mp hd]
      exact hBelow c hc
    · intro c hc
      have hc : c ∈ s.queued.map Prod.fst ++ [s.next] := hc
      show c < s.next + 1
      rcases List.mem_append.mp hc with hOld | hNew
      · have hLt := hBelow c hOld
        omega
      · rw [List.mem_singleton.mp hNew]
        omega
  | lost fd c main hHand hMain =>
    refine h.same (Or.inr ?_) rfl rfl rfl fun hOpen => ⟨hOpen, rfl⟩
    rcases hMain with rfl | rfl <;> rfl
  | refused fd c hHand => exact h.same (Or.inr rfl) rfl rfl rfl fun hOpen => ⟨hOpen, rfl⟩
  | queued fd c ip hHand hAllows hOpen =>
    -- the connection goes from the hand to the end of what has been queued
    have hSame : (s.queued ++ [(c, ip)]).map Prod.fst ++ Main.looping.hand.map Prod.snd =
        s.queued.map Prod.fst ++ s.main.hand.map Prod.snd := by
      rw [hHand, List.map_append]
      exact List.append_nil _
    refine ⟨(congrArg (List.Pairwise (· < ·)) hSame).mpr h.increasing, ?_, ?_, fun _ => ?_, ?_⟩
    · intro c' hc'
      exact h.below c' (hSame ▸ hc')
    · intro q hq
      rcases List.mem_append.mp hq with hOld | hNew
      · exact h.allowed q hOld
      · rw [List.mem_singleton.mp hNew]
        exact hAllows
    · simp only [List.map_append, h.fifo hOpen, List.append_assoc]
      rfl
    · exact h.taken.trans (by simp only [List.map_append, List.prefix_append])
  | left hMain =>
    exact h.same (Or.inr rfl) s.shut_queued s.shut_taken s.shut_next
      fun hOpen => ⟨s.shut_cancel ▸ hOpen, s.shut_queue⟩
  | discarded hMain => exact h.same (Or.inr rfl) rfl rfl rfl nofun
  | turns t service ha hTurns => exact h.same (Or.inl rfl) rfl rfl rfl fun hOpen => ⟨hOpen, rfl⟩
  | taken t fd c rest ha hService hOpen hQueue =>
    have hFifo : s.queued.map Prod.fst = (s.taken ++ [(t, c)]).map Prod.snd ++ rest.map
      Prod.snd := by
      rw [h.fifo hOpen, hQueue, List.map_append, List.append_assoc]
      rfl
    exact ⟨h.increasing, h.below, h.allowed, fun _ => hFifo, ⟨_, hFifo.symm⟩⟩
  | served t fd c ha hService => exact h.same (Or.inl rfl) rfl rfl rfl fun hOpen => ⟨hOpen, rfl⟩
  | openedOther fd hFree => exact h.same (Or.inl rfl) rfl rfl rfl fun hOpen => ⟨hOpen, rfl⟩
  | closedOther fd hOther => exact h.same (Or.inl rfl) rfl rfl rfl fun hOpen => ⟨hOpen, rfl⟩

-- ---------------------------------------------------------------------------
-- Reachable states
-- ---------------------------------------------------------------------------

/-- What is so in every state that the server reaches. -/
structure Sound (config : Config) (s : State) : Prop where
  created : Created config s
  placed : Placed config.nThreads s
  phases : Phases s
  ordered : Ordered config s

theorem holders_init (n : Nat) : init.holders n = [] := by
  show [] ++ [] ++ _ = []
  exact List.filterMap_eq_nil_iff.mpr fun _ _ => rfl

theorem sound_init : Sound config init := by
  refine ⟨fun t => iff_of_true rfl (Or.inl rfl), ⟨?_, ?_, nofun, nofun, nofun⟩, phases_init,
    ordered_init⟩
  · rw [holders_init]
    exact .refl _
  · rw [holders_init]
    exact nofun

theorem sound_step (h : Sound config s) (hStep : step config s a = some s') :
    Sound config s' :=
  have hMoves := moves_of_step hStep
  ⟨created_moves h.created hMoves, placed_moves h.created h.placed hMoves,
    phases_moves h.created h.phases hMoves, ordered_moves h.ordered hMoves⟩

theorem sound_of_run {as : List Label} (hRun : run (step config) init as = some s) :
    Sound config s :=
  run_invariant (Sound config) (fun _ _ _ h hStep => sound_step h hStep) hRun sound_init

/-- "10.0.0.1" -/
def client : Str := [49, 48, 46, 48, 46, 48, 46, 49]

/-- Two service threads, and a client that may connect. -/
def oneClient : Config where
  nThreads := 2
  allowed := [client]

/-- Its request is served by a thread that calls `SetRunning(false)`. -/
def shutdownRequest : List Label :=
  [.start, .create, .serviceRunning 0, .socket (some 3), .listen true, .mainRunning,
  .accept (some 4),
    .mainRunning, .inetNtop (some client), .mainRunning, .getItem 0, .setRunning,
    .accept none, .served 0, .mainRunning, .leave, .stopQueue]

/-- The service threads end, and the main thread with them. -/
def threadsEnd : List Label := [.serviceRunning 1, .serviceRunning 0, .join]

/-- **Where a connection is.** In every state the accepted connections are those in hand or in the
queue, the closed ones and the lost ones, each once; those that are not closed have their descriptor
open. When the main thread has finished nothing is in hand any more, so that what has not been
closed stays open. -/
theorem connections_accounted {as : List Label} (hRun : run (step config) init as = some s) :
    ((s.holders config.nThreads).map Prod.snd ++ s.closedConns ++ s.lost).Perm (List.range s.next) ∧
      (∀ p ∈ s.holders config.nThreads, s.fds p.1 = some (.conn p.2)) ∧
      (∀ c ∈ s.lost, ∃ fd, s.fds fd = some (.conn c)) ∧
      (∀ e ∈ s.closed, ∀ c, e.1 = .conn c → e.2 = some (.conn c)) ∧
      (s.main = .finished → (s.closedConns ++ s.lost).Perm (List.range s.next)) := by
  have hSound := sound_of_run hRun
  obtain ⟨hPlaces, hHolds, hLost, hClosed, -⟩ := hSound.placed
  refine ⟨hPlaces, hHolds, hLost, hClosed, fun hFinished => ?_⟩
  have hHand : s.main.hand = [] := by rw [hFinished]; rfl
  have hQueue : s.queue = [] := hSound.phases.queue (Or.inr (by rw [hFinished]; rfl))
  have hServed : s.served config.nThreads = [] := by
    refine List.filterMap_eq_nil_iff.mpr fun t _ => ?_
    rcases hSound.phases.finished hFinished t with hEnd | hNone
    · rw [hEnd]
      rfl
    · rw [hNone]
      rfl
  rw [State.holders, hHand, hQueue, hServed] at hPlaces
  exact hPlaces

theorem connections_accounted_shutdown : ∃ s,
    run (step oneClient) init (shutdownRequest ++ threadsEnd) = some s ∧
      (s.closedConns ++ s.lost).Perm (List.range s.next) := by
  obtain ⟨s, hRun, hMain⟩ := Option.map_eq_some_iff.mp
    (show (run (step oneClient) init (shutdownRequest ++ threadsEnd)).map State.main =
      some .finished by
      decide)
  exact ⟨s, hRun, (connections_accounted hRun).2.2.2.2 hMain⟩

/-- **First accepted, first served.** What the service threads have taken is the beginning of what
went into the queue, which is in the order of acceptance, each connection once and of clients that
may connect. -/
theorem served_in_order {as : List Label} (hRun : run (step config) init as = some s) :
    s.taken.map Prod.snd <+: s.queued.map Prod.fst ∧ (s.queued.map Prod.fst).Pairwise (· < ·) ∧
      (s.taken.map Prod.snd).Nodup ∧ ∀ q ∈ s.queued, config.allows q.2 = true := by
  obtain ⟨hIncreasing, -, hAllowed, -, hTaken⟩ := (sound_of_run hRun).ordered
  have hQueued : (s.queued.map Prod.fst).Pairwise (· < ·) := (List.pairwise_append.mp hIncreasing).1
  exact ⟨hTaken, hQueued, (hQueued.imp Nat.ne_of_lt).sublist hTaken.sublist, hAllowed⟩

theorem served_in_order_shutdown : ∃ s, run (step oneClient) init shutdownRequest = some s ∧
    s.taken.map Prod.snd <+: s.queued.map Prod.fst ∧ s.taken = [(0, 0)] := by
  obtain ⟨s, hRun, hTaken⟩ := Option.map_eq_some_iff.mp
    (show (run (step oneClient) init shutdownRequest).map State.taken = some [(0, 0)] by decide)
  exact ⟨s, hRun, (served_in_order hRun).1, hTaken⟩

-- ---------------------------------------------------------------------------
-- The socket is closed twice
-- ---------------------------------------------------------------------------

/-- What has been closed was what it was meant to be, and `main_socket` is what it is meant to
be. -/
structure Tidy (s : State) : Prop where
  closes : ∀ e ∈ s.closed, e.2 = some e.1
  socket : ∀ fd, s.socket = some fd → s.fds fd = some .listening

theorem Tidy.same {l : List (Use × Option Use)} (hClosed : s'.closed = s.closed ++ l)
    (hRight : ∀ e ∈ l, e.2 = some e.1) (hSocket : s'.socket = s.socket)
    (hFds : ∀ fd, s.socket = some fd → (s'.fds fd = some .listening ↔ s.fds fd = some .listening)) :
    Tidy s' ↔ Tidy s := by
  constructor
  · rintro ⟨hCloses, hOpen⟩
    refine ⟨fun e he => hCloses e (hClosed ▸ List.mem_append_left _ he), fun fd hFd => ?_⟩
    exact (hFds fd hFd).mp (hOpen fd (hSocket.trans hFd))
  · rintro ⟨hCloses, hOpen⟩
    refine ⟨fun e he => ?_, fun fd hFd => ?_⟩
    · rw [hClosed] at he
      exact (List.mem_append.mp he).elim (hCloses e) (hRight e)
    · have hFd := hSocket.symm.trans hFd
      exact (hFds fd hFd).mpr (hOpen fd hFd)

/-- Where nothing is closed. -/
theorem Tidy.kept (hClosed : s'.closed = s.closed) (hSocket : s'.socket = s.socket)
    (hFds : ∀ fd, s.socket = some fd → (s'.fds fd = some .listening ↔ s.fds fd = some .listening)) :
    Tidy s' ↔ Tidy s :=
  Tidy.same (hClosed.trans (List.append_nil _).symm) (fun _ he => absurd he List.not_mem_nil)
    hSocket hFds

/-- A descriptor that is not listened on is opened or closed. -/
theorem listening_update {fd : Nat} (use : Option Use) (hBefore : s.fds fd ≠ some .listening)
    (hAfter : use ≠ some .listening) (fd' : Nat) :
    Function.update s.fds fd use fd' = some .listening ↔ s.fds fd' = some .listening :=
  fds_update hBefore hAfter fd'

/-- `main_socket` is closed, and forgotten. -/
theorem tidy_shut (s : State) (main : Main) :
    Tidy { s.shut with socket := none, main } ↔ Tidy s := by
  rcases shut_cases s with ⟨hNone, hShut⟩ | ⟨fd, hFd, hShut⟩
  · rw [hShut]
    exact Tidy.kept rfl hNone.symm fun _ _ => Iff.rfl
  · rw [hShut]
    constructor
    · rintro ⟨hCloses, -⟩
      refine ⟨fun e he => hCloses e (List.mem_append_left _ he), fun fd' hFd' => ?_⟩
      obtain rfl : fd = fd' := Option.some.inj (hFd.symm.trans hFd')
      exact hCloses (.listening, s.fds fd) (List.mem_append_right _ (List.mem_singleton_self _))
    · rintro ⟨hCloses, hOpen⟩
      refine ⟨fun e he => (List.mem_append.mp he).elim (hCloses e) fun hNew => ?_, nofun⟩
      rw [List.mem_singleton.mp hNew]
      exact hOpen fd hFd

/-- A connection is closed. -/
theorem tidy_close {fd c : Nat} (h : s.fds fd = some (.conn c))
    (hFds : s'.fds = Function.update s.fds fd none)
    (hClosed : s'.closed = s.closed ++ [(.conn c, s.fds fd)]) (hSocket : s'.socket = s.socket) :
    Tidy s' ↔ Tidy s := by
  refine Tidy.same hClosed (fun e he => ?_) hSocket fun fd' _ => ?_
  · rw [List.mem_singleton.mp he]
    exact h
  · rw [hFds]
    exact listening_update none (by rw [h]; simp) (by simp) fd'

/-- Nothing spoils what is tidy but a `SetRunning(false)` that leaves a closed `main_socket`
behind. -/
theorem tidy_step (h : Sound config s) (hStep : step config s a = some s') :
    Tidy s' ↔ Tidy s ∧ (a = .setRunning → s.socket = none) := by
  by_cases ha : a = .setRunning
  · subst ha
    obtain rfl := Option.some.inj hStep
    rcases shut_cases s with ⟨hNone, hShut⟩ | ⟨fd, hFd, hShut⟩
    · rw [hShut, and_iff_left fun _ => hNone]
      exact Tidy.kept rfl rfl fun _ _ => Iff.rfl
    · refine iff_of_false (fun hTidy => ?_) (fun hBoth => ?_)
      · have hOpen := hTidy.socket fd (s.shut_socket.trans hFd)
        rw [hShut] at hOpen
        have hOpen : Function.update s.fds fd none fd = some .listening := hOpen
        rw [Function.update_self] at hOpen
        cases hOpen
      · rw [hBoth.2 rfl] at hFd
        cases hFd
  rw [and_iff_left fun hIs => absurd hIs ha]
  have hBare : s.main.bare = true → s'.closed = s.closed →
      (∀ fd, s'.socket = some fd → s'.fds fd = some .listening) → (Tidy s' ↔ Tidy s) := by
    intro hMain hClosed hOpen
    have hNone := h.phases.socket hMain
    refine ⟨fun hTidy => ⟨hClosed ▸ hTidy.closes, fun fd hFd => ?_⟩, fun hTidy => ⟨?_, hOpen⟩⟩
    · rw [hNone] at hFd
      cases hFd
    · rw [hClosed]
      exact hTidy.closes
  have hHolds := h.placed.holds
  cases moves_of_step hStep with
  | nothing => exact Iff.rfl
  | started hMain => exact Tidy.kept rfl rfl fun _ _ => Iff.rfl
  | shut socket hSocket =>
    obtain rfl := hSocket.resolve_left fun hIs => ha hIs.1
    exact tidy_shut s s.shut.main
  | created hMain => exact Tidy.kept rfl rfl fun _ _ => Iff.rfl
  | noSocket hMain => exact hBare (by rw [hMain]; rfl) rfl nofun
  | opened fd hMain hFree =>
    refine hBare (by rw [hMain]; rfl) rfl fun fd' hFd => ?_
    rw [← Option.some.inj hFd]
    exact Function.update_self ..
  | goes main hGoes => exact Tidy.kept rfl rfl fun _ _ => Iff.rfl
  | accepted fd hMain hListens hFree =>
    exact Tidy.kept rfl rfl fun fd' _ =>
      listening_update (some (.conn s.next)) (by rw [hFree]; simp) (by simp) fd'
  | lost fd c main hHand hMain => exact Tidy.kept rfl rfl fun _ _ => Iff.rfl
  | refused fd c hHand =>
    refine tidy_close (hHolds (fd, c) ?_) rfl rfl rfl
    rw [State.holders, hHand]
    exact List.mem_append_left _ (List.mem_append_left _ (List.mem_singleton_self _))
  | queued fd c ip hHand hAllows hOpen => exact Tidy.kept rfl rfl fun _ _ => Iff.rfl
  | left hMain => exact tidy_shut s .stopping
  | discarded hMain => exact Tidy.kept rfl rfl fun _ _ => Iff.rfl
  | turns t service ha hTurns => exact Tidy.kept rfl rfl fun _ _ => Iff.rfl
  | taken t fd c rest ha hService hOpen hQueue => exact Tidy.kept rfl rfl fun _ _ => Iff.rfl
  | served t fd c ha hService =>
    refine tidy_close (hHolds (fd, c) (List.mem_append_right _ ?_)) rfl rfl rfl
    have hLt := h.created.lt (t := t) (by rw [hService]; simp)
    exact List.mem_filterMap.mpr ⟨t, List.mem_range.mpr hLt, by rw [hService]; rfl⟩
  | openedOther fd hFree =>
    exact Tidy.kept rfl rfl fun fd' _ =>
      listening_update (some .other) (by rw [hFree]; simp) (by simp) fd'
  | closedOther fd hOther =>
    exact Tidy.kept rfl rfl fun fd' _ => listening_update none (by rw [hOther]; simp) (by simp) fd'

/-- **Double close.** When the main thread has closed `main_socket`, every `close` of the server has
hit what it was meant for if and only if `SetRunning(false)` was never called while there was a
`main_socket`. -/
theorem closes_right_iff {as : List Label} (hRun : run (step config) init as = some s)
    (hOver : s.main.over = true) :
    (∀ e ∈ s.closed, e.2 = some e.1) ↔
      AllOk (step config) (fun s a => a = .setRunning → s.socket = none) init as := by
  have hStart : Tidy init := ⟨nofun, nofun⟩
  have hSocket : s.socket = none := by
    refine (sound_of_run hRun).phases.socket ?_
    cases hMain : s.main <;> rw [hMain] at hOver <;> first | rfl | cases hOver
  have hTidy := run_iff_allOk (Sound config) (fun _ _ _ h hStep => sound_step h hStep)
    (fun _ _ _ h hStep => tidy_step h hStep) hRun sound_init
  rw [and_iff_right hStart] at hTidy
  refine Iff.trans ⟨fun hCloses => ⟨hCloses, fun fd hFd => ?_⟩, Tidy.closes⟩ hTidy
  rw [hSocket] at hFd
  cases hFd

/-- A `close` that hits nothing, or what another thread has opened by then. -/
theorem closes_right_iff_shutdown : ∃ s, run (step oneClient) init shutdownRequest = some s ∧
    ¬ (∀ e ∈ s.closed, e.2 = some e.1) ∧
      ¬ AllOk (step oneClient) (fun s a => a = .setRunning → s.socket = none) init
        shutdownRequest := by
  obtain ⟨s, hRun, hState⟩ := Option.map_eq_some_iff.mp
    (show (run (step oneClient) init shutdownRequest).map (fun s => (s.main, s.closed)) =
      some (.joining, [(.listening, some .listening), (.conn 0, some (.conn 0)),
        (.listening, none)]) by
      decide)
  obtain ⟨hMain, hClosed⟩ := Prod.mk.inj hState
  have hWrong : ¬ ∀ e ∈ s.closed, e.2 = some e.1 := by
    rw [hClosed]
    decide
  exact ⟨s, hRun, hWrong, mt (closes_right_iff hRun (by rw [hMain]; rfl)).mpr hWrong⟩

-- ---------------------------------------------------------------------------
-- A server that does not get its socket
-- ---------------------------------------------------------------------------

theorem failed_moves (h : Phases s) (hFailed : s.main = .failed) (hMoves : Moves config s a s') :
    s'.main = .failed ∧ s'.next = s.next ∧ ∀ t, s.service t = .getting → s'.service t =
      .getting := by
  have hNoHand : ∀ {p}, s.main.hand ≠ [p] := by rw [hFailed]; nofun
  have hOpen : s.cancel = false := h.cancel.trans (by rw [hFailed]; rfl)
  have hOther : ∀ {t service}, s.service t ≠ .getting →
      ∀ t', s.service t' = .getting → Function.update s.service t service t' = .getting := by
    intro t service ht t' ht'
    have hNe : t' ≠ t := by
      rintro rfl
      exact ht ht'
    rw [Function.update_of_ne hNe, ht']
  cases hMoves with
  | nothing => exact ⟨hFailed, rfl, fun _ => id⟩
  | started hMain => rw [hFailed] at hMain; cases hMain
  | shut socket hSocket =>
    refine ⟨s.shut_main.trans hFailed, s.shut_next, fun t ht => ?_⟩
    rw [← ht]
    exact congrFun s.shut_service t
  | created hMain => rw [hFailed] at hMain; cases hMain
  | noSocket hMain => rw [hFailed] at hMain; cases hMain
  | opened fd hMain hFree => rw [hFailed] at hMain; cases hMain
  | goes main hGoes => rw [hFailed] at hGoes; cases hGoes
  | accepted fd hMain hListens hFree => rw [hFailed] at hMain; cases hMain
  | lost fd c main hHand hMain => exact absurd hHand hNoHand
  | refused fd c hHand => exact absurd hHand hNoHand
  | queued fd c ip hHand hAllows hOpen => exact absurd hHand hNoHand
  | left hMain => rw [hFailed] at hMain; cases hMain
  | discarded hMain => rw [hFailed] at hMain; cases hMain
  | turns t service ha hTurns =>
    refine ⟨hFailed, rfl, hOther fun ht => ?_⟩
    -- nobody cancels the queue
    rw [ht] at hTurns
    cases hTurns with
    | cancelled hCancel => exact absurd (hOpen.symm.trans hCancel) nofun
  | taken t fd c rest ha hService hOpen hQueue =>
    have hEmpty : s.queue = [] := h.queue (Or.inl (by rw [hFailed]; rfl))
    rw [hEmpty] at hQueue
    cases hQueue
  | served t fd c ha hService => exact ⟨hFailed, rfl, hOther (by rw [hService]; simp)⟩
  | openedOther fd hFree => exact ⟨hFailed, rfl, fun _ => id⟩
  | closedOther fd hOther => exact ⟨hFailed, rfl, fun _ => id⟩

/-- How many steps a service thread has to take when the queue is stopped. -/
def Service.left : Service → Nat
  | .looping | .getting => 1
  | .serving _ _ => 2
  | .absent | .finished => 0

theorem Service.left_le (service : Service) : service.left ≤ 2 := by
  cases service <;> simp only [Service.left] <;> omega

def State.work (n : Nat) (s : State) : Nat := ∑ t ∈ Finset.range n, (s.service t).left

theorem work_set {n t : Nat} {service : Service} (ht : t < n)
    (hService : s'.service = Function.update s.service t service)
    (hLeft : service.left + 1 = (s.service t).left) : s'.work n + 1 = s.work n := by
  have hMem := Finset.mem_range.mpr ht
  have hRest : ∑ t' ∈ (Finset.range n).erase t, (s'.service t').left =
      ∑ t' ∈ (Finset.range n).erase t, (s.service t').left :=
    Finset.sum_congr rfl fun t' ht' => by
      rw [hService, Function.update_of_ne (Finset.ne_of_mem_erase ht')]
  have hMine : (s'.service t).left = service.left := by rw [hService, Function.update_self]
  unfold State.work
  rw [← Finset.add_sum_erase _ _ hMem, ← Finset.add_sum_erase _ (fun t => (s.service t).left)
    hMem, hRest,
    hMine]
  omega

theorem cancel_moves (hCancel : s.cancel = true) (hMoves : Moves config s a s') :
    s'.cancel = true := by
  cases hMoves with
  | shut socket hSocket => exact s.shut_cancel.trans hCancel
  | left hMain => exact s.shut_cancel.trans hCancel
  | discarded hMain => rfl
  | _ => exact hCancel

/-- The others leave the service threads alone when these have been created. -/
theorem service_moves (hCreating : s.main ≠ .creating) (hOther : a.ofService = false)
    (hMoves : Moves config s a s') : s'.service = s.service := by
  have hNot : a.ofService ≠ true := by rw [hOther]; nofun
  cases hMoves with
  | shut socket hSocket => exact s.shut_service
  | left hMain => exact s.shut_service
  | created hMain => exact absurd hMain hCreating
  | turns t service ha hTurns => exact absurd ha hNot
  | taken t fd c rest ha hService hOpen hQueue => exact absurd ha hNot
  | served t fd c ha hService => exact absurd ha hNot
  | _ => rfl

theorem not_running_of_cancel (h : Phases s) (hCancel : s.cancel = true) : s.running = false := by
  have hCancelled := h.cancel.symm.trans hCancel
  refine h.running ?_
  cases hMain : s.main <;> rw [hMain] at hCancelled <;> first | rfl | cases hCancelled

/-- Every step of a service thread is one step less. -/
theorem work_step (h : Sound config s) (hCancel : s.cancel = true)
    (hStep : step config s a = some s') :
    s'.work config.nThreads + [a].countP Label.ofService = s.work config.nThreads := by
  have hRunning := not_running_of_cancel h.phases hCancel
  cases hService : a.ofService with
  | false =>
    have hCreating : s.main ≠ .creating := by
      intro hIs
      have hOpen := h.phases.cancel
      rw [hIs, hCancel] at hOpen
      cases hOpen
    have hSame := service_moves hCreating hService (moves_of_step hStep)
    rw [State.work, hSame, List.countP_singleton, hService]
    rfl
  | true =>
    rw [List.countP_singleton, hService, if_pos rfl]
    cases a with
    | serviceRunning t =>
      simp only [step, hRunning, Bool.false_eq_true, if_false] at hStep
      split_ifs at hStep with ht
      obtain rfl := Option.some.inj hStep
      exact work_set (h.created.lt (t := t) (by rw [ht]; simp)) rfl (by rw [ht]; rfl)
    | getItem t =>
      simp only [step, hCancel, if_true] at hStep
      split_ifs at hStep with ht
      obtain rfl := Option.some.inj hStep
      exact work_set (h.created.lt (t := t) (by rw [ht]; simp)) rfl (by rw [ht]; rfl)
    | served t =>
      simp only [step] at hStep
      split at hStep
      · rename_i fd c ht
        obtain rfl := Option.some.inj hStep
        exact work_set (h.created.lt (t := t) (by rw [ht]; simp)) rfl (by rw [ht]; rfl)
      · cases hStep
    | _ => cases hService

/-- As long as a service thread has a step to take, it can take it. -/
theorem service_ready (config : Config) (hCancel : s.cancel = true) {t : Nat}
    (ht : (s.service t).left ≠ 0) : ∃ a s', a.ofService = true ∧ step config s a = some s' := by
  cases hService : s.service t with
  | absent => rw [hService] at ht; exact absurd rfl ht
  | finished => rw [hService] at ht; exact absurd rfl ht
  | looping => exact ⟨.serviceRunning t, _, rfl, if_pos hService⟩
  | getting => exact ⟨.getItem t, _, rfl, (if_pos hService).trans (if_pos hCancel)⟩
  | serving fd c => exact ⟨.served t, _, rfl, by simp only [step, hService]; rfl⟩

end HectorCore.SimpleServer
