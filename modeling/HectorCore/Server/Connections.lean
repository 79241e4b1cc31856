import HectorCore.Server.SimpleServer
import Mathlib.Data.List.Perm.Basic
import Mathlib.Data.List.Nodup

/-!
# Connections — what becomes of a connection, and of the socket

Any run of `Server/SimpleServer.lean`, with any number of service threads. Every connection that has
been accepted is in one place: with the main thread, in the queue, with one service thread, closed,
or lost.

* `Moves`          — the ways a step can go;
* `created_moves`  — there are the service threads that have been created, and no others;
* `placed_moves`   — a step takes a connection from one place to another, with its descriptor.
-/

namespace HectorCore.SimpleServer

open Lib (run AllOk run_invariant)

/-- The connection that the main thread has in hand. -/
def Main.hand : Main → List (Nat × Nat)
  | .accepted (some p) => [p]
  | .resolving fd c => [(fd, c)]
  | _ => []

/-- The connection that a service thread has in hand. -/
def Service.hand : Service → Option (Nat × Nat)
  | .serving fd c => some (fd, c)
  | _ => none

namespace State

/-- What the service threads have in hand. -/
def served (n : Nat) (s : State) : List (Nat × Nat) :=
  (List.range n).filterMap fun t => (s.service t).hand

/-- The connections that somebody knows of, by their descriptors. -/
def holders (n : Nat) (s : State) : List (Nat × Nat) := s.main.hand ++ s.queue ++ s.served n

/-- The connections that have been closed. -/
def closedConns (s : State) : List Nat :=
  s.closed.filterMap fun e => match e.1 with
    | .conn c => some c
    | _ => none

end State

-- ---------------------------------------------------------------------------
-- One step
-- ---------------------------------------------------------------------------

/-- Where the main thread goes without touching anything. -/
inductive Goes (config : Config) (s : State) : Main → Main → Prop where
  | listens (hListens : s.listens = true) : Goes config s .binding .looping
  | gaveUp : Goes config s .binding .failed
  | runs (hRunning : s.running = true) : Goes config s .looping .accepting
  | ends (hRunning : s.running = false) : Goes config s .looping .leaving
  | refused : Goes config s .accepting (.accepted none)
  | leaves : Goes config s (.accepted none) .leaving
  | resolves (fd c : Nat) : Goes config s (.accepted (some (fd, c))) (.resolving fd c)
  | joined (hAll : ∀ t < config.nThreads, s.service t = .finished) :
    Goes config s .joining .finished

/-- Where a service thread goes without touching anything. -/
inductive Turns (s : State) : Service → Service → Prop where
  | runs (hRunning : s.running = true) : Turns s .looping .getting
  | ends (hRunning : s.running = false) : Turns s .looping .finished
  | cancelled (hCancel : s.cancel = true) : Turns s .getting .finished

/-- The ways a step can go. -/
inductive Moves (config : Config) (s : State) (a : Label) : State → Prop where
  | nothing : Moves config s a s
  | started (h : s.main = .absent) : Moves config s a { s with running := true, main := .creating }
  | shut (socket : Option Nat) (hSocket : a = .setRunning ∧ socket = s.socket ∨ socket = none) :
      Moves config s a { s.shut with socket }
  | created (h : s.main = .creating) : Moves config s a ((config.create s).setMain .opening)
  | noSocket (h : s.main = .opening) : Moves config s a ({ s with socket := none }.setMain .failed)
  | opened (fd : Nat) (h : s.main = .opening) (hFree : s.fds fd = none) :
      Moves config s a ({ s with
        socket := some fd, fds := Function.update s.fds fd (some .listening) }.setMain .binding)
  | goes (main : Main) (h : Goes config s s.main main) : Moves config s a (s.setMain main)
  | accepted (fd : Nat) (h : s.main = .accepting) (hListens : s.listens = true)
      (hFree : s.fds fd = none) :
      Moves config s a ({ s with
        fds := Function.update s.fds fd (some (.conn s.next)), next := s.next + 1 }.setMain
        (.accepted (some (fd, s.next))))
  | lost (fd c : Nat) (main : Main) (h : s.main.hand = [(fd, c)])
      (hMain : main = .looping ∨ main = .leaving) : Moves config s a ((s.lose [c]).setMain main)
  | refused (fd c : Nat) (h : s.main.hand = [(fd, c)]) :
      Moves config s a ((s.close (.conn c) fd).setMain .looping)
  | queued (fd c : Nat) (ip : Str) (h : s.main.hand = [(fd, c)]) (hAllows : config.allows ip = true)
      (hOpen : s.cancel = false) :
      Moves config s a { s with
        queue := s.queue ++ [(fd, c)], queued := s.queued ++ [(c, ip)], main := .looping }
  | left (h : s.main = .leaving) :
    Moves config s a { s.shut with socket := none, main := .stopping }
  | discarded (h : s.main = .stopping) :
      Moves config s a
        (({ s with cancel := true, queue := [] }.lose (s.queue.map Prod.snd)).setMain .joining)
  | turns (t : Nat) (service : Service) (ha : a.ofService = true)
      (h : Turns s (s.service t) service) : Moves config s a (s.setService t service)
  | taken (t fd c : Nat) (rest : List (Nat × Nat)) (ha : a.ofService = true)
      (h : s.service t = .getting) (hOpen : s.cancel = false) (hQueue : s.queue = (fd, c) :: rest) :
      Moves config s a ({ s with queue := rest, taken := s.taken ++ [(t, c)] }.setService t
        (.serving fd c))
  | served (t fd c : Nat) (ha : a.ofService = true) (h : s.service t = .serving fd c) :
      Moves config s a ((s.close (.conn c) fd).setService t .looping)
  | openedOther (fd : Nat) (hFree : s.fds fd = none) :
      Moves config s a { s with fds := Function.update s.fds fd (some .other) }
  | closedOther (fd : Nat) (hOther : s.fds fd = some .other) :
      Moves config s a { s with fds := Function.update s.fds fd none }

variable {config : Config} {s s' : State} {a : Label}

theorem moves_dispatch {fd c : Nat} (r : Option Str) (hMain : s.main = .resolving fd c) :
    Moves config s a (config.dispatch s fd c r) := by
  have hHand : s.main.hand = [(fd, c)] := by rw [hMain]; rfl
  cases r with
  | none => exact .lost fd c .looping hHand (Or.inl rfl)
  | some ip =>
    simp only [Config.dispatch]
    split_ifs with hRefused hCancel
    · exact .refused fd c hHand
    · exact .lost fd c .leaving hHand (Or.inr rfl)
    · exact .queued fd c ip hHand (by simpa using hRefused) (eq_false_of_ne_true hCancel)

theorem moves_of_step (hStep : step config s a = some s') : Moves config s a s' := by
  cases a with
  | start =>
    simp only [step] at hStep
    split_ifs at hStep with hMain
    obtain rfl := Option.some.inj hStep
    exact .started hMain
  | stop =>
    obtain rfl := Option.some.inj hStep
    -- `Stop` closes the socket of a server that runs, and does nothing to another one
    split_ifs with hRunning
    · exact .shut none (Or.inr rfl)
    · exact .nothing
  | setRunning =>
    obtain rfl := Option.some.inj hStep
    have hShut : Moves config s .setRunning { s.shut with socket := s.shut.socket } :=
      .shut s.shut.socket (Or.inl ⟨rfl, s.shut_socket⟩)
    exact hShut
  | create =>
    simp only [step] at hStep
    split_ifs at hStep with hMain
    obtain rfl := Option.some.inj hStep
    exact .created hMain
  | socket r =>
    simp only [step] at hStep
    split_ifs at hStep with hMain
    cases r with
    | none =>
      obtain rfl := Option.some.inj hStep
      exact .noSocket hMain
    | some fd =>
      simp only at hStep
      split_ifs at hStep with hFree
      obtain rfl := Option.some.inj hStep
      exact .opened fd hMain hFree
  | listen ok =>
    simp only [step] at hStep
    split_ifs at hStep with hMain hOk hListens
    · obtain rfl := Option.some.inj hStep
      exact .goes .looping (hMain ▸ .listens hListens)
    · obtain rfl := Option.some.inj hStep
      exact .goes .failed (hMain ▸ .gaveUp)
  | mainRunning =>
    simp only [step] at hStep
    split at hStep
    · rename_i hMain
      split_ifs at hStep with hRunning
      · obtain rfl := Option.some.inj hStep
        exact .goes .accepting (hMain ▸ .runs hRunning)
      · obtain rfl := Option.some.inj hStep
        exact .goes .leaving (hMain ▸ .ends (eq_false_of_ne_true hRunning))
    · -- `accept` has failed
      rename_i hMain
      obtain rfl := Option.some.inj hStep
      exact .goes .leaving (hMain ▸ .leaves)
    · -- a connection that comes after the end is forgotten, open
      rename_i fd c hMain
      split_ifs at hStep with hRunning
      · obtain rfl := Option.some.inj hStep
        exact .goes (.resolving fd c) (hMain ▸ .resolves fd c)
      · obtain rfl := Option.some.inj hStep
        exact .lost fd c .leaving (by rw [hMain]; rfl) (Or.inr rfl)
    · cases hStep
  | accept r =>
    simp only [step] at hStep
    split_ifs at hStep with hMain
    cases r with
    | none =>
      obtain rfl := Option.some.inj hStep
      exact .goes (.accepted none) (hMain ▸ .refused)
    | some fd =>
      simp only at hStep
      split_ifs at hStep with hBoth
      obtain rfl := Option.some.inj hStep
      exact .accepted fd hMain hBoth.1 hBoth.2
  | inetNtop r =>
    simp only [step] at hStep
    split at hStep
    · rename_i fd c hMain
      obtain rfl := Option.some.inj hStep
      exact moves_dispatch r hMain
    · cases hStep
  | leave =>
    simp only [step] at hStep
    split_ifs at hStep with hMain
    obtain rfl := Option.some.inj hStep
    exact .left hMain
  | stopQueue =>
    simp only [step] at hStep
    split_ifs at hStep with hMain
    obtain rfl := Option.some.inj hStep
    exact .discarded hMain
  | join =>
    -- all service threads have ended
    simp only [step] at hStep
    split_ifs at hStep with hMain
    obtain rfl := Option.some.inj hStep
    exact .goes .finished (hMain.1 ▸ .joined hMain.2)
  | serviceRunning t =>
    simp only [step] at hStep
    split_ifs at hStep with hService hRunning
    · obtain rfl := Option.some.inj hStep
      exact .turns t .getting rfl (hService ▸ .runs hRunning)
    · obtain rfl := Option.some.inj hStep
      exact .turns t .finished rfl (hService ▸ .ends (eq_false_of_ne_true hRunning))
  | getItem t =>
    simp only [step] at hStep
    split_ifs at hStep with hService hCancel
    · obtain rfl := Option.some.inj hStep
      exact .turns t .finished rfl (hService ▸ .cancelled hCancel)
    · split at hStep
      · cases hStep
      · rename_i fd c rest hQueue
        obtain rfl := Option.some.inj hStep
        exact .taken t fd c rest rfl hService (eq_false_of_ne_true hCancel) hQueue
  | served t =>
    simp only [step] at hStep
    split at hStep
    · rename_i fd c hService
      obtain rfl := Option.some.inj hStep
      exact .served t fd c rfl hService
    · cases hStep
  | openOther fd =>
    simp only [step] at hStep
    split_ifs at hStep with hFree
    obtain rfl := Option.some.inj hStep
    exact .openedOther fd hFree
  | closeOther fd =>
    simp only [step] at hStep
    split_ifs at hStep with hOther
    obtain rfl := Option.some.inj hStep
    exact .closedOther fd hOther

/-- The loop that creates the service threads is behind the main thread. -/
def Main.created : Main → Bool
  | .absent | .creating => false
  | _ => true

/-- There are the service threads that the main thread has created, and no others. -/
def Created (config : Config) (s : State) : Prop :=
  ∀ t, s.service t = .absent ↔ s.main.created = false ∨ config.nThreads ≤ t

theorem Created.lt {t : Nat} (h : Created config s) (ht : s.service t ≠ .absent) :
    t < config.nThreads := by
  by_contra hLe
  exact ht ((h t).mpr (Or.inr (Nat.le_of_not_lt hLe)))

/-- A step that leaves the service threads alone. -/
theorem Created.same (h : Created config s) (hService : s'.service = s.service)
    (hMain : s'.main.created = s.main.created) : Created config s' := by
  intro t
  rw [hService, hMain]
  exact h t

/-- A step of a service thread. -/
theorem Created.set {t : Nat} {service : Service} (h : Created config s)
    (ht : s.service t ≠ .absent)
    (hService : s'.service = Function.update s.service t service) (hPresent : service ≠ .absent)
    (hMain : s'.main = s.main) : Created config s' := by
  intro t'
  rw [hService, hMain]
  by_cases hSame : t' = t
  · subst hSame
    rw [Function.update_self]
    exact iff_of_false hPresent fun hNone => ht ((h t').mpr hNone)
  · rw [Function.update_of_ne hSame]
    exact h t'

theorem created_moves (h : Created config s) (hMoves : Moves config s a s') :
    Created config s' := by
  have hHandCreated : ∀ {fd c : Nat}, s.main.hand = [(fd, c)] → s.main.created = true := by
    intro fd c hHand
    cases hMain : s.main <;> rw [hMain] at hHand
    all_goals first | rfl | cases hHand
  cases hMoves with
  | nothing => exact h
  | started hMain => exact h.same rfl (by rw [hMain]; rfl)
  | shut socket hSocket => exact h.same s.shut_service (congrArg Main.created s.shut_main)
  | created hMain =>
    intro t
    show (if t < config.nThreads then Service.looping else s.service t) = _ ↔ _
    have hAbsent : s.service t = .absent := (h t).mpr (Or.inl (by rw [hMain]; rfl))
    split_ifs with hLt
    · exact iff_of_false nofun fun hNone => hNone.elim nofun (Nat.not_le.mpr hLt)
    · exact iff_of_true hAbsent (Or.inr (Nat.le_of_not_lt hLt))
  | noSocket hMain => exact h.same rfl (by rw [hMain]; rfl)
  | opened fd hMain hFree => exact h.same rfl (by rw [hMain]; rfl)
  | goes main hGoes =>
    refine h.same rfl ?_
    show main.created = s.main.created
    generalize s.main = before at hGoes
    cases hGoes <;> rfl
  | accepted fd hMain hListens hFree => exact h.same rfl (by rw [hMain]; rfl)
  | lost fd c main hHand hMain =>
    refine h.same rfl ?_
    rw [hHandCreated hHand]
    rcases hMain with rfl | rfl <;> rfl
  | refused fd c hHand => exact h.same rfl (hHandCreated hHand).symm
  | queued fd c ip hHand hAllows hOpen => exact h.same rfl (hHandCreated hHand).symm
  | left hMain => exact h.same s.shut_service (by rw [hMain]; rfl)
  | discarded hMain => exact h.same rfl (by rw [hMain]; rfl)
  | turns t service ha hTurns =>
    refine h.set (t := t) (fun hAbsent => ?_) rfl ?_ rfl
    · rw [hAbsent] at hTurns
      cases hTurns
    · generalize s.service t = before at hTurns
      cases hTurns <;> nofun
  | taken t fd c rest ha hService hOpen hQueue =>
    exact h.set (by rw [hService]; nofun)
      rfl nofun rfl
  | served t fd c ha hService => exact h.set (by rw [hService]; nofun) rfl nofun rfl
  | openedOther fd hFree => exact h.same rfl rfl
  | closedOther fd hOther => exact h.same rfl rfl

/-- `main_socket` is closed, or there is none. -/
theorem shut_cases (s : State) :
    (s.socket = none ∧ s.shut = { s with running := false }) ∨
      ∃ fd, s.socket = some fd ∧ s.shut = { s.close .listening fd with running := false } := by
  cases hFd : s.socket with
  | none => exact Or.inl ⟨rfl, by simp only [State.shut, hFd]⟩
  | some fd => exact Or.inr ⟨fd, rfl, by simp only [State.shut, State.close, hFd]⟩

-- ---------------------------------------------------------------------------
-- What the service threads have in hand
-- ---------------------------------------------------------------------------

/-- One member of a list that is made from numbers. -/
theorem filterMap_update_perm {β : Type} {n t : Nat} (ht : t < n) (f : Nat → Option β)
    (v : Option β) :
    ((List.range n).filterMap (Function.update f t v)).Perm
      (v.toList ++ (List.range n).filterMap (Function.update f t none)) := by
  obtain ⟨l₁, l₂, hSplit⟩ := List.append_of_mem (List.mem_range.mpr ht)
  have hNodup : (l₁ ++ t :: l₂).Nodup := hSplit ▸ List.nodup_range
  rw [List.nodup_middle, List.nodup_cons, List.mem_append, not_or] at hNodup
  have hOther : ∀ (l : List Nat), t ∉ l → ∀ w, l.filterMap (Function.update f t w) =
    l.filterMap f :=
    fun l hl w => List.filterMap_congr fun x hx =>
      Function.update_of_ne (fun hSame : x = t => hl (hSame ▸ hx)) _ _
  rw [hSplit]
  simp only [List.filterMap_append, List.filterMap_cons, Function.update_self,
    hOther l₁ hNodup.1.1, hOther l₂ hNodup.1.2]
  cases v with
  | none => exact .refl _
  | some x => exact List.perm_middle

theorem hands_setService (s : State) (t : Nat) (service : Service) :
    (fun t' => ((s.setService t service).service t').hand) =
      Function.update (fun t' => (s.service t').hand) t service.hand := by
  funext t'
  by_cases hSame : t' = t
  · subst hSame
    simp only [State.setService, Function.update_self]
  · simp only [State.setService, Function.update_of_ne hSame]

/-- A thread that has nothing in hand takes a connection. -/
theorem served_take {n t : Nat} {p : Nat × Nat} (service : Service) (ht : t < n)
    (hBefore : (s.service t).hand = none) (hAfter : service.hand = some p) :
    ((s.setService t service).served n).Perm (p :: s.served n) := by
  unfold State.served
  rw [hands_setService, hAfter]
  refine (filterMap_update_perm ht _ (some p)).trans (.of_eq ?_)
  rw [← hBefore, Function.update_eq_self]
  rfl

/-- It has it no more. -/
theorem served_drop {n t : Nat} {p : Nat × Nat} (service : Service) (ht : t < n)
    (hBefore : (s.service t).hand = some p) (hAfter : service.hand = none) :
    (s.served n).Perm (p :: (s.setService t service).served n) := by
  unfold State.served
  rw [hands_setService, hAfter]
  have hTake := filterMap_update_perm ht (fun t' => (s.service t').hand) (some p)
  rw [← hBefore, Function.update_eq_self, hBefore] at hTake
  exact hTake

theorem served_same {n t : Nat} {service : Service} (h : service.hand = (s.service t).hand) :
    (s.setService t service).served n = s.served n := by
  unfold State.served
  rw [hands_setService, h, Function.update_eq_self]

-- ---------------------------------------------------------------------------
-- Where a connection is
-- ---------------------------------------------------------------------------

/-- Every accepted connection is in one place, and its descriptor is open until it is closed. -/
structure Placed (n : Nat) (s : State) : Prop where
  places : ((s.holders n).map Prod.snd ++ s.closedConns ++ s.lost).Perm (List.range s.next)
  holds : ∀ p ∈ s.holders n, s.fds p.1 = some (.conn p.2)
  lostOpen : ∀ c ∈ s.lost, ∃ fd, s.fds fd = some (.conn c)
  closedRight : ∀ e ∈ s.closed, ∀ c, e.1 = .conn c → e.2 = some (.conn c)
  socket : ∀ fd, s.socket = some fd → ∀ c, s.fds fd ≠ some (.conn c)

variable {n : Nat}

theorem closedConns_append {l : List (Use × Option Use)} (h : s'.closed = s.closed ++ l)
    (hListening : ∀ e ∈ l, e.1 = .listening) : s'.closedConns = s.closedConns := by
  unfold State.closedConns
  rw [h, List.filterMap_append]
  have hNil : l.filterMap (fun e : Use × Option Use => match e.1 with
      | .conn c => some c
      | _ => none) = [] := by
    rw [List.filterMap_eq_nil_iff]
    intro e he
    rw [hListening e he]
  rw [hNil, List.append_nil]

/-- A step that neither accepts a connection nor closes or loses one. -/
theorem Placed.plain (h : Placed n s) (hHolders : (s'.holders n).Perm (s.holders n))
    (hConns : ∀ fd c, s'.fds fd = some (.conn c) ↔ s.fds fd = some (.conn c))
    (hClosed : ∃ l, s'.closed = s.closed ++ l ∧ ∀ e ∈ l, e.1 = .listening)
    (hLost : s'.lost = s.lost) (hNext : s'.next = s.next)
    (hSocket : ∀ fd, s'.socket = some fd → s.socket = some fd ∨ ∀ c, s.fds fd ≠ some (.conn c)) :
    Placed n s' := by
  obtain ⟨l, hAppend, hListening⟩ := hClosed
  refine ⟨?_, ?_, ?_, ?_, ?_⟩
  · rw [closedConns_append hAppend hListening, hLost, hNext]
    exact (((hHolders.map _).append_right _).append_right _).trans h.places
  · exact fun p hp => (hConns _ _).mpr (h.holds p (hHolders.mem_iff.mp hp))
  · intro c hc
    obtain ⟨fd, hFd⟩ := h.lostOpen c (hLost ▸ hc)
    exact ⟨fd, (hConns fd c).mpr hFd⟩
  · intro e he c hConn
    rw [hAppend] at he
    rcases List.mem_append.mp he with hOld | hNew
    · exact h.closedRight e hOld c hConn
    · rw [hListening e hNew] at hConn
      cases hConn
  · intro fd hFd c hConn
    rcases hSocket fd hFd with hOld | hNone
    · exact h.socket fd hOld c ((hConns fd c).mp hConn)
    · exact hNone c ((hConns fd c).mp hConn)

/-- Two connections in hand have two descriptors, and so have one in hand and one that is lost. -/
theorem Placed.nodup (h : Placed n s) :
    ((s.holders n).map Prod.snd ++ s.closedConns ++ s.lost).Nodup :=
  h.places.nodup_iff.mpr List.nodup_range

/-- A connection is closed by whoever has it in hand. -/
theorem Placed.close (h : Placed n s) (fd c : Nat)
    (hHolders : (s.holders n).Perm ((fd, c) :: s'.holders n))
    (hFds : s'.fds = Function.update s.fds fd none)
    (hClosed : s'.closed = s.closed ++ [(.conn c, s.fds fd)])
    (hLost : s'.lost = s.lost) (hNext : s'.next = s.next) (hSocket : s'.socket = s.socket) :
    Placed n s' := by
  have hMine : s.fds fd = some (.conn c) :=
    h.holds (fd, c) (hHolders.mem_iff.mpr List.mem_cons_self)
  have hPerm : ((s.holders n).map Prod.snd ++ s.closedConns ++ s.lost).Perm
      (c :: ((s'.holders n).map Prod.snd ++ s.closedConns ++ s.lost)) :=
    ((hHolders.map Prod.snd).append_right _).append_right _
  have hFresh := (List.nodup_cons.mp (hPerm.nodup_iff.mp h.nodup)).1
  -- the other connections have other descriptors
  have hOther : ∀ {fd' c'}, s.fds fd' = some (.conn c') → c' ≠ c → s'.fds fd' =
    some (.conn c') := by
    intro fd' c' hOpen hNe
    have hNeFd : fd' ≠ fd := by
      rintro rfl
      rw [hMine] at hOpen
      exact hNe (Use.conn.inj (Option.some.inj hOpen)).symm
    rw [hFds, Function.update_of_ne hNeFd, hOpen]
  refine ⟨?_, ?_, ?_, ?_, ?_⟩
  · rw [hNext, hLost]
    have hConns : s'.closedConns = s.closedConns ++ [c] := by
      unfold State.closedConns
      rw [hClosed, List.filterMap_append]
      rfl
    rw [hConns]
    refine List.Perm.trans ?_ (hPerm.symm.trans h.places)
    rw [← List.append_assoc, List.append_assoc _ [c], List.singleton_append]
    exact List.perm_middle
  · intro p hp
    refine hOther (h.holds p (hHolders.mem_iff.mpr (List.mem_cons_of_mem _ hp))) ?_
    rintro rfl
    exact hFresh (List.mem_append_left _ (List.mem_append_left _ (List.mem_map_of_mem hp)))
  · intro c' hc'
    rw [hLost] at hc'
    obtain ⟨fd', hOpen⟩ := h.lostOpen c' hc'
    refine ⟨fd', hOther hOpen ?_⟩
    rintro rfl
    exact hFresh (List.mem_append_right _ hc')
  · intro e he c' hConn
    rw [hClosed] at he
    rcases List.mem_append.mp he with hOld | hNew
    · exact h.closedRight e hOld c' hConn
    · obtain rfl := List.mem_singleton.mp hNew
      rw [← hConn]
      exact hMine
  · intro fd' hFd' c' hConn
    rw [hFds] at hConn
    by_cases hSame : fd' = fd
    · rw [hSame, Function.update_self] at hConn
      cases hConn
    · rw [Function.update_of_ne hSame] at hConn
      exact h.socket fd' (hSocket ▸ hFd') c' hConn

/-- Connections are lost by whoever has them in hand. -/
theorem Placed.lose (h : Placed n s) (ps : List (Nat × Nat))
    (hHolders : (s.holders n).Perm (ps ++ s'.holders n)) (hFds : s'.fds = s.fds)
    (hClosed : s'.closed = s.closed) (hLost : s'.lost = s.lost ++ ps.map Prod.snd)
    (hNext : s'.next = s.next) (hSocket : s'.socket = s.socket) : Placed n s' := by
  refine ⟨?_, ?_, ?_, ?_, ?_⟩
  · have hConns : s'.closedConns = s.closedConns := by
      rw [State.closedConns, hClosed, State.closedConns]
    rw [hConns, hLost, hNext]
    refine List.Perm.trans ?_ h.places
    have hMap := (hHolders.map Prod.snd).symm
    rw [List.map_append] at hMap
    refine List.Perm.trans ?_ ((hMap.append_right _).append_right _)
    rw [← List.append_assoc]
    refine List.perm_append_comm.trans (.of_eq ?_)
    simp only [List.append_assoc]
  · intro p hp
    rw [hFds]
    exact h.holds p (hHolders.mem_iff.mpr (List.mem_append_right _ hp))
  · intro c hc
    rw [hLost] at hc
    rw [hFds]
    rcases List.mem_append.mp hc with hOld | hNew
    · exact h.lostOpen c hOld
    · obtain ⟨p, hp, rfl⟩ := List.mem_map.mp hNew
      exact ⟨p.1, h.holds p (hHolders.mem_iff.mpr (List.mem_append_left _ hp))⟩
  · rw [hClosed]
    exact h.closedRight
  · rw [hSocket, hFds]
    exact h.socket

theorem Goes.hand {main main' : Main} (h : Goes config s main main') : main'.hand = main.hand := by
  cases h <;> rfl

theorem Turns.hand {service service' : Service} (h : Turns s service service') :
    service'.hand = service.hand := by
  cases h <;> rfl

/-- A descriptor that is neither before nor after what others are. -/
theorem fds_update {fd : Nat} {use v : Option Use} (hBefore : s.fds fd ≠ v) (hAfter : use ≠ v)
    (fd' : Nat) : Function.update s.fds fd use fd' = v ↔ s.fds fd' = v := by
  by_cases hSame : fd' = fd
  · rw [hSame, Function.update_self]
    exact iff_of_false hAfter hBefore
  · rw [Function.update_of_ne hSame]

/-- A descriptor that is not open for a connection is opened or closed. -/
theorem conns_update {fd : Nat} {use : Option Use} (hBefore : ∀ c, s.fds fd ≠ some (.conn c))
    (hAfter : ∀ c, use ≠ some (.conn c)) (fd' c : Nat) :
    Function.update s.fds fd use fd' = some (.conn c) ↔ s.fds fd' = some (.conn c) :=
  fds_update (hBefore c) (hAfter c) fd'

/-- `main_socket` is not the descriptor of a connection, whatever has become of it. -/
theorem Placed.shut (h : Placed n s) {socket : Option Nat}
    (hSocket : socket = s.socket ∨ socket = none) (main : Main) (hMain : main.hand = s.main.hand) :
    Placed n { s.shut with socket, main } := by
  have hKept : ∀ fd, socket = some fd → s.socket = some fd := by
    intro fd hFd
    rcases hSocket with rfl | rfl
    · exact hFd
    · cases hFd
  have hHolders : ∀ {t : State}, t.main = main → t.queue = s.queue → t.service = s.service →
      (t.holders n).Perm (s.holders n) := by
    intro t hMain' hQueue hService
    refine .of_eq ?_
    rw [State.holders, State.holders, State.served, State.served, hMain', hMain, hQueue, hService]
  rcases shut_cases s with ⟨-, hShut⟩ | ⟨fd, hFd, hShut⟩
  · rw [hShut]
    exact h.plain (hHolders rfl rfl rfl) (fun _ _ => Iff.rfl)
      ⟨[], (List.append_nil _).symm, nofun⟩ rfl rfl
      fun fd hFd => Or.inl (hKept fd hFd)
  · rw [hShut]
    refine h.plain (hHolders rfl rfl rfl) (conns_update (h.socket fd hFd) nofun)
      ⟨[(.listening, s.fds fd)], rfl, fun e he => ?_⟩ rfl rfl fun fd hFd => Or.inl (hKept fd hFd)
    rw [List.mem_singleton.mp he]

/-- A new connection is with the main thread. -/
theorem Placed.accept {fd : Nat} (h : Placed n s) (hMain : s.main = .accepting)
    (hListens : s.listens = true) (hFree : s.fds fd = none) :
    Placed n ({ s with
      fds := Function.update s.fds fd (some (.conn s.next)), next := s.next + 1 }.setMain
      (.accepted (some (fd, s.next)))) := by
  have hOther : ∀ {fd' c}, s.fds fd' = some (.conn c) →
      Function.update s.fds fd (some (.conn s.next)) fd' = some (.conn c) := by
    intro fd' c hOpen
    have hNe : fd' ≠ fd := by
      rintro rfl
      rw [hFree] at hOpen
      cases hOpen
    rw [Function.update_of_ne hNe, hOpen]
  have hBefore : s.holders n = s.queue ++ s.served n := by
    rw [State.holders, hMain]
    rfl
  refine ⟨?_, ?_, ?_, h.closedRight, ?_⟩
  · show ((s.next :: (s.queue ++ s.served n).map Prod.snd) ++ s.closedConns ++ s.lost).Perm
      (List.range (s.next + 1))
    rw [List.range_succ, ← hBefore]
    exact (h.places.cons s.next).trans (List.perm_append_singleton _ _).symm
  · intro p hp
    have hp : p ∈ (fd, s.next) :: (s.queue ++ s.served n) := hp
    rcases List.mem_cons.mp hp with rfl | hOld
    · exact Function.update_self ..
    · exact hOther (h.holds p (hBefore ▸ hOld))
  · intro c hc
    obtain ⟨fd', hOpen⟩ := h.lostOpen c hc
    exact ⟨fd', hOther hOpen⟩
  · intro fd' hSocket c hConn
    -- what the server listens on is not free
    have hUsed : s.fds fd' = some .listening := by
      have hSocket : s.socket = some fd' := hSocket
      rw [State.listens, hSocket] at hListens
      simpa using hListens
    have hNe : fd' ≠ fd := by
      rintro rfl
      rw [hFree] at hUsed
      cases hUsed
    have hConn : Function.update s.fds fd (some (.conn s.next)) fd' = some (.conn c) := hConn
    rw [Function.update_of_ne hNe, hUsed] at hConn
    cases hConn

theorem placed_moves (hCreated : Created config s) (h : Placed config.nThreads s)
    (hMoves : Moves config s a s') : Placed config.nThreads s' := by
  have hNone : ∃ l, s.closed = s.closed ++ l ∧ ∀ e ∈ l, e.1 = .listening :=
    ⟨[], (List.append_nil _).symm, nofun⟩
  cases hMoves with
  | nothing => exact h
  | started hMain =>
    refine h.plain (.of_eq ?_) (fun _ _ => Iff.rfl) hNone rfl rfl fun fd hFd => Or.inl hFd
    simp only [State.holders, hMain]
    rfl
  | shut socket hSocket =>
    have hShut := h.shut (hSocket.imp_left And.right) s.shut.main (by rw [s.shut_main])
    exact hShut
  | created hMain =>
    refine h.plain (.of_eq ?_) (fun _ _ => Iff.rfl) hNone rfl rfl fun fd hFd => Or.inl hFd
    have hServed : (((config.create s).setMain .opening).served config.nThreads) =
        s.served config.nThreads := by
      refine List.filterMap_congr fun t _ => ?_
      show (if t < config.nThreads then Service.looping else s.service t).hand = _
      rw [(hCreated t).mpr (Or.inl (by rw [hMain]; rfl))]
      split_ifs <;> rfl
    rw [State.holders, hServed, State.holders, hMain]
    rfl
  | noSocket hMain =>
    refine h.plain (.of_eq ?_) (fun _ _ => Iff.rfl) hNone rfl rfl fun fd hFd => ?_
    · simp only [State.holders, hMain]
      rfl
    · cases hFd
  | opened fd hMain hFree =>
    have hFreeConn : ∀ c, s.fds fd ≠ some (.conn c) := fun c => by rw [hFree]; nofun
    refine h.plain (.of_eq ?_) (conns_update hFreeConn nofun) hNone rfl rfl fun fd' hFd => Or.inr ?_
    · simp only [State.holders, hMain]
      rfl
    · rw [← Option.some.inj hFd]
      exact hFreeConn
  | goes main hGoes =>
    refine h.plain (.of_eq ?_) (fun _ _ => Iff.rfl) hNone rfl rfl fun fd hFd => Or.inl hFd
    exact congrArg (· ++ s.queue ++ s.served config.nThreads) hGoes.hand
  | accepted fd hMain hListens hFree => exact h.accept hMain hListens hFree
  | lost fd c main hHand hMain =>
    refine h.lose [(fd, c)] (.of_eq ?_) rfl rfl rfl rfl rfl
    have hHand' : main.hand = [] := by rcases hMain with rfl | rfl <;> rfl
    show s.main.hand ++ s.queue ++ _ = [(fd, c)] ++ (main.hand ++ s.queue ++ _)
    rw [hHand, hHand', List.append_assoc, List.append_assoc]
    rfl
  | refused fd c hHand =>
    refine h.close fd c (.of_eq ?_) rfl rfl rfl rfl rfl
    show s.main.hand ++ s.queue ++ _ = _
    rw [hHand]
    rfl
  | queued fd c ip hHand hAllows hOpen =>
    refine h.plain ?_ (fun _ _ => Iff.rfl) hNone rfl rfl fun fd hFd => Or.inl hFd
    show ([] ++ (s.queue ++ [(fd, c)]) ++ s.served config.nThreads).Perm
      (s.main.hand ++ s.queue ++ s.served config.nThreads)
    rw [hHand, List.nil_append]
    exact List.perm_append_comm.append_right _
  | left hMain => exact h.shut (Or.inr rfl) .stopping (by rw [hMain]; rfl)
  | discarded hMain =>
    refine h.lose s.queue (.of_eq ?_) rfl rfl rfl rfl rfl
    show s.main.hand ++ s.queue ++ _ = s.queue ++ ([] ++ [] ++ _)
    rw [hMain]
    rfl
  | turns t service ha hTurns =>
    refine h.plain (.of_eq ?_) (fun _ _ => Iff.rfl) hNone rfl rfl fun fd hFd => Or.inl hFd
    exact congrArg (s.main.hand ++ s.queue ++ ·) (served_same hTurns.hand)
  | taken t fd c rest ha hService hOpen hQueue =>
    refine h.plain ?_ (fun _ _ => Iff.rfl) hNone rfl rfl fun fd hFd => Or.inl hFd
    have hTake := served_take (s := s) (p := (fd, c)) (.serving fd c)
      (hCreated.lt (t := t) (by rw [hService]; nofun)) (by rw [hService]; rfl) rfl
    show (s.main.hand ++ rest ++ ((s.setService t (.serving fd c)).served config.nThreads)).Perm
      (s.main.hand ++ s.queue ++ s.served config.nThreads)
    rw [hQueue]
    refine (hTake.append_left _).trans ?_
    -- it stood in front of the queue
    rw [List.append_assoc, List.append_assoc]
    exact List.perm_middle.append_left _
  | served t fd c ha hService =>
    refine h.close fd c ?_ rfl rfl rfl rfl rfl
    have hDrop := served_drop (s := s) (p := (fd, c)) .looping
      (hCreated.lt (t := t) (by rw [hService]; nofun)) (by rw [hService]; rfl) rfl
    refine (hDrop.append_left (s.main.hand ++ s.queue)).trans ?_
    exact List.perm_middle
  | openedOther fd hFree =>
    exact h.plain (.refl _) (conns_update (fun c => by rw [hFree]; nofun) nofun) hNone rfl rfl
      fun fd hFd => Or.inl hFd
  | closedOther fd hOther =>
    exact h.plain (.refl _) (conns_update (fun c => by rw [hOther]; nofun) nofun) hNone rfl rfl
      fun fd hFd => Or.inl hFd

end HectorCore.SimpleServer
