import HectorCore.Processing.Processor

/-!
# Trace — what a worker thread hears from its input and its modules

A traced environment is the environment itself, which keeps what it was asked and what it
answered: the resources that came in, and the calls of the SIMPLE and MULTI modules. A run over
it is a run over the environment, with a record that says what the modules and queues did to
the thread and nothing about what the thread made of it.
-/

namespace HectorCore.Processing

variable {σ : Type}

inductive ModuleCall (σ : Type) where
  /-- `GetItem` or `ProcessInput` gave a resource. -/
  | read (r : Resource)
  | simple (i : Nat) (r : Resource) (answer : Option Resource)
  /-- `ProcessMulti` of module `k`, with the environment after it. -/
  | multi (k : Nat) (mi : ModuleInfo) (a : MultiAnswer) (state : σ)
  deriving DecidableEq

structure Traced (σ : Type) where
  state : σ
  calls : List (ModuleCall σ)
  deriving DecidableEq

/-- A question that is not traced. -/
def Traced.ask {α : Type} (f : σ → α × σ) (s : Traced σ) : α × Traced σ :=
  ((f s.state).1, { s with state := (f s.state).2 })

/-- A question for a resource. -/
def Traced.read (f : σ → Option Resource × σ) (s : Traced σ) : Option Resource × Traced σ :=
  ((f s.state).1, ⟨(f s.state).2, s.calls ++ (f s.state).1.toList.map .read⟩)

/-- The same environment, which remembers what came in and the calls of the modules. -/
def World.traced (w : World σ) : World (Traced σ) where
  isRunning := Traced.ask w.isRunning
  getItem wait := Traced.read (w.getItem wait)
  pauseInput := Traced.ask w.pauseInput
  awaitInput := Traced.ask w.awaitInput
  processInput i sleep := Traced.read (w.processInput i sleep)
  processOutput i r := Traced.ask (w.processOutput i r)
  processSimple i r s :=
    let (answer, state) := w.processSimple i r s.state
    (answer, ⟨state, s.calls ++ [.simple i r answer]⟩)
  processMulti k mi s :=
    let (a, state) := w.processMulti k mi s.state
    (a, ⟨state, s.calls ++ [.multi k mi a state]⟩)
  putItem queue priority r wait := Traced.ask (w.putItem queue priority r wait)
  clone r := Traced.ask (w.clone r)

/-- Before the first question. -/
def Traced.new (s : σ) : Traced σ := ⟨s, []⟩

/-- The thread begins another iteration in the state `t`. -/
def Begins (w : World σ) (p : Processor) (fuel : Nat) (s : σ) (t : Thread σ) : Prop :=
  ∃ n t₀, runThread w p fuel n (Thread.start p s) = some t₀ ∧ t₀.call w.isRunning = (true, t)

end HectorCore.Processing
