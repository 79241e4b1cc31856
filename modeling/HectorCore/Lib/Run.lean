import Mathlib.Logic.Function.Basic
import Mathlib.Data.List.Basic
import Mathlib.Data.List.Induction

/-!
# Runs of a partial step function

A concurrent component is a partial function `step : State → Label → Option State`:
the label says which thread moves and how its environment answers, and `none` means
that the step is not enabled there. A schedule is a list of labels; `run` executes it.

Invariant rules:

* `run_invariant`       — what every step preserves holds after every run;
* `run_invariant_of_ok` — the same for runs whose steps all meet a side condition `ok`
  on the state before the step and the label (`AllOk`);
* `run_history`         — the same for what is said of the schedule and the state together;
* `allOk_iff_split`     — `AllOk` label by label;
* `AllOk.imp`           — a condition that follows from another one, or from an invariant;
* `AllOk.run_prefix`    — a condition that enables the steps;
* `allOk_congr`         — two side conditions that agree along a run;
* `run_iff_allOk`       — a property that does not come back once a step has missed `ok`;
* `always_iff_allOk`    — a property holds all along a run (`Always`) if and only if every step
  meets `ok`, where `ok` decides whether a step preserves the property.
-/

namespace HectorCore.Lib

variable {State Label : Type*}

/-- Execute a schedule; `none` as soon as one of its steps is not enabled. -/
def run (step : State → Label → Option State) : State → List Label → Option State
  | s, [] => some s
  | s, a :: as => (step s a).bind fun s' => run step s' as

/-- Every step that the schedule takes from `s` meets `ok`. -/
def AllOk (step : State → Label → Option State) (ok : State → Label → Prop) :
    State → List Label → Prop
  | _, [] => True
  | s, a :: as => ok s a ∧ ∀ s', step s a = some s' → AllOk step ok s' as

/-- `P` holds in `s` and in every state that the schedule reaches from there. -/
def Always (step : State → Label → Option State) (P : State → Prop) : State → List Label → Prop
  | s, [] => P s
  | s, a :: as => P s ∧ ∀ s', step s a = some s' → Always step P s' as

variable {step : State → Label → Option State}

/-- A condition that can be tested can be tested along a schedule. -/
instance decidableAllOk {ok : State → Label → Prop} [∀ s a, Decidable (ok s a)] :
    ∀ (as : List Label) (s : State), Decidable (AllOk step ok s as)
  | [], _ => isTrue trivial
  | a :: as, s =>
    have : Decidable (∀ s', step s a = some s' → AllOk step ok s' as) :=
      match h : step s a with
      | none => isTrue fun _ h' => absurd h' (by simp)
      | some s₁ =>
        match decidableAllOk as s₁ with
        | isTrue hRest => isTrue fun _ h' => Option.some.inj h' ▸ hRest
        | isFalse hRest => isFalse fun hAll => hRest (hAll s₁ rfl)
    inferInstanceAs (Decidable (ok s a ∧ ∀ s', step s a = some s' → AllOk step ok s' as))

@[simp] theorem run_nil (s : State) : run step s [] = some s := rfl

theorem run_cons_eq_some {s s'' : State} {a : Label} {as : List Label} :
    run step s (a :: as) = some s'' ↔
      ∃ s', step s a = some s' ∧ run step s' as = some s'' :=
  Option.bind_eq_some_iff

theorem run_append_eq_some {s s'' : State} {as bs : List Label} :
    run step s (as ++ bs) = some s'' ↔
      ∃ s', run step s as = some s' ∧ run step s' bs = some s'' := by
  induction as generalizing s with
  | nil => simp
  | cons a as ih =>
    constructor
    · intro hRun
      obtain ⟨t, hFirst, hRest⟩ := run_cons_eq_some.mp hRun
      obtain ⟨s', hAs, hBs⟩ := ih.mp hRest
      exact ⟨s', run_cons_eq_some.mpr ⟨t, hFirst, hAs⟩, hBs⟩
    · rintro ⟨s', hRun, hBs⟩
      obtain ⟨t, hFirst, hAs⟩ := run_cons_eq_some.mp hRun
      exact run_cons_eq_some.mpr ⟨t, hFirst, ih.mpr ⟨s', hAs, hBs⟩⟩

/-- A condition that every label of the schedule meets in every state. -/
theorem AllOk.of_forall {ok : State → Label → Prop} :
    ∀ {as : List Label} {s : State}, (∀ s, ∀ a ∈ as, ok s a) → AllOk step ok s as
  | [], _, _ => trivial
  | a :: _, s, h =>
    ⟨h s a List.mem_cons_self,
      fun _ _ => AllOk.of_forall fun s a hMem => h s a (List.mem_cons_of_mem _ hMem)⟩

/-- What every step preserves holds after every run. -/
theorem run_invariant (Inv : State → Prop)
    (hStep : ∀ s a s', Inv s → step s a = some s' → Inv s') :
    ∀ {as : List Label} {s s' : State}, run step s as = some s' → Inv s → Inv s' := by
  intro as
  induction as with
  | nil =>
    intro s s' hRun hInv
    rw [run_nil, Option.some.injEq] at hRun
    exact hRun ▸ hInv
  | cons a as ih =>
    intro s s' hRun hInv
    obtain ⟨t, hFirst, hRest⟩ := run_cons_eq_some.mp hRun
    exact ih hRest (hStep s a t hInv hFirst)

/-- What every step meeting `ok` preserves holds after every run whose steps all meet `ok`. -/
theorem run_invariant_of_ok (Inv : State → Prop) {ok : State → Label → Prop}
    (hStep : ∀ s a s', Inv s → ok s a → step s a = some s' → Inv s') :
    ∀ {as : List Label} {s s' : State},
      AllOk step ok s as → run step s as = some s' → Inv s → Inv s' := by
  intro as
  induction as with
  | nil =>
    intro s s' _ hRun hInv
    rw [run_nil, Option.some.injEq] at hRun
    exact hRun ▸ hInv
  | cons a as ih =>
    intro s s' hOk hRun hInv
    obtain ⟨t, hFirst, hRest⟩ := run_cons_eq_some.mp hRun
    exact ih (hOk.2 t hFirst) hRest (hStep s a t hInv hOk.1 hFirst)

/-- Two conditions that agree in the states that the schedule reaches while the first is met. -/
theorem allOk_congr (Inv : State → Prop) {ok ok' : State → Label → Prop}
    (hInv : ∀ s a s', Inv s → ok s a → step s a = some s' → Inv s')
    (hOk : ∀ s a s', Inv s → step s a = some s' → (ok s a ↔ ok' s a)) :
    ∀ {as : List Label} {s s' : State},
      run step s as = some s' → Inv s → (AllOk step ok s as ↔ AllOk step ok' s as) := by
  intro as
  induction as with
  | nil => exact fun _ _ => Iff.rfl
  | cons a as ih =>
    intro s s' hRun hs
    obtain ⟨t, hFirst, hRest⟩ := run_cons_eq_some.mp hRun
    have hSame := hOk s a t hs hFirst
    constructor
    · intro hAll
      refine ⟨hSame.mp hAll.1, ?_⟩
      intro t' ht'
      cases hFirst.symm.trans ht'
      exact (ih hRest (hInv s a t hs hAll.1 hFirst)).mp (hAll.2 t hFirst)
    · intro hAll
      have hFirstOk := hSame.mpr hAll.1
      refine ⟨hFirstOk, ?_⟩
      intro t' ht'
      cases hFirst.symm.trans ht'
      exact (ih hRest (hInv s a t hs hFirstOk hFirst)).mpr (hAll.2 t hFirst)

/-- A condition is met along a schedule if every label meets it where the run has got to by then. -/
theorem allOk_iff_split {ok : State → Label → Prop} {as : List Label} {s : State} :
    AllOk step ok s as ↔ ∀ before a after s', as = before ++ a :: after →
      run step s before = some s' → ok s' a := by
  induction as generalizing s with
  | nil =>
    refine iff_of_true trivial ?_
    intro before a after s' hSplit
    exact absurd hSplit (by simp)
  | cons b as ih =>
    constructor
    · rintro ⟨hFirst, hRest⟩ before a after s' hSplit hRun
      cases before with
      | nil =>
        cases hSplit
        exact Option.some.inj hRun ▸ hFirst
      | cons c before =>
        obtain ⟨rfl, hTail⟩ := List.cons.inj hSplit
        obtain ⟨t, hStep, hRun⟩ := run_cons_eq_some.mp hRun
        exact ih.mp (hRest t hStep) before a after s' hTail hRun
    · intro hAll
      refine ⟨hAll [] b as s rfl rfl, fun t hStep => ih.mpr ?_⟩
      intro before a after s' hSplit hRun
      exact hAll (b :: before) a after s' (by rw [hSplit, List.cons_append])
        (run_cons_eq_some.mpr ⟨t, hStep, hRun⟩)

/-- What a condition implies in the states that the schedule reaches. -/
theorem AllOk.imp (Inv : State → Prop) {good : Label → Prop} {ok ok' : State → Label → Prop}
    (hInv : ∀ s a s', Inv s → good a → ok s a → step s a = some s' → Inv s')
    (hImp : ∀ s a, Inv s → good a → ok s a → ok' s a) :
    ∀ {as : List Label} {s : State},
      (∀ a ∈ as, good a) → Inv s → AllOk step ok s as → AllOk step ok' s as := by
  intro as
  induction as with
  | nil => exact fun _ _ _ => trivial
  | cons a as ih =>
    intro s hGood hs hAll
    have ha := hGood a List.mem_cons_self
    refine ⟨hImp s a hs ha hAll.1, fun t hFirst => ?_⟩
    exact ih (fun b hMem => hGood b (List.mem_cons_of_mem _ hMem)) (hInv s a t hs ha hAll.1 hFirst)
      (hAll.2 t hFirst)

/-- What an invariant implies there. -/
theorem AllOk.of_invariant (Inv : State → Prop) {good : Label → Prop} {ok : State → Label → Prop}
    (hInv : ∀ s a s', Inv s → good a → step s a = some s' → Inv s')
    (hOk : ∀ s a, Inv s → good a → ok s a) {as : List Label} {s : State} (hGood : ∀ a ∈ as, good a)
    (hs : Inv s) : AllOk step ok s as := by
  have hAll : AllOk step (fun _ _ => True) s as := AllOk.of_forall fun _ _ _ => trivial
  refine AllOk.imp Inv ?_ ?_ hGood hs hAll
  · intro s a s' hs ha _ hStep
    exact hInv s a s' hs ha hStep
  · intro s a hs ha _
    exact hOk s a hs ha

/-- A schedule of which every step meets a condition that enables it can be executed, and so can
what it begins with. -/
theorem AllOk.run_prefix {ok : State → Label → Prop}
    (hEnabled : ∀ s a, ok s a → ∃ s', step s a = some s') {as bs : List Label} {s : State}
    (h : AllOk step ok s (as ++ bs)) : ∃ s', run step s as = some s' := by
  induction as generalizing s with
  | nil => exact ⟨s, rfl⟩
  | cons a as ih =>
    obtain ⟨t, hFirst⟩ := hEnabled s a h.1
    obtain ⟨s', hRest⟩ := ih (h.2 t hFirst)
    exact ⟨s', run_cons_eq_some.mpr ⟨t, hFirst, hRest⟩⟩

/-- What every step brings from a schedule to the one that is longer by its label. -/
theorem run_history (Inv : List Label → State → Prop) {s₀ : State} (hStart : Inv [] s₀)
    (hStep : ∀ as a s s', Inv as s → step s a = some s' → Inv (as ++ [a]) s') :
    ∀ {as : List Label} {s : State}, run step s₀ as = some s → Inv as s := by
  intro as
  induction as using List.reverseRecOn with
  | nil =>
    intro s hRun
    exact Option.some.inj hRun ▸ hStart
  | append_singleton as a ih =>
    intro s hRun
    obtain ⟨t, hBefore, hLast⟩ := run_append_eq_some.mp hRun
    obtain ⟨s', hFirst, hEnd⟩ := run_cons_eq_some.mp hLast
    exact Option.some.inj hEnd ▸ hStep as a t s' (ih hBefore) hFirst

/-- What a step keeps if it meets `ok`, and no step restores. -/
theorem run_iff_allOk (Inv : State → Prop) {P : State → Prop} {ok : State → Label → Prop}
    (hInv : ∀ s a s', Inv s → step s a = some s' → Inv s')
    (hStep : ∀ s a s', Inv s → step s a = some s' → (P s' ↔ P s ∧ ok s a)) :
    ∀ {as : List Label} {s s' : State},
      run step s as = some s' → Inv s → (P s' ↔ P s ∧ AllOk step ok s as) := by
  intro as
  induction as with
  | nil =>
    intro s s' hRun _
    exact Option.some.inj hRun ▸ (and_iff_left trivial).symm
  | cons a as ih =>
    intro s s' hRun hs
    obtain ⟨t, hFirst, hRest⟩ := run_cons_eq_some.mp hRun
    have hTail : (∀ t', step s a = some t' → AllOk step ok t' as) ↔ AllOk step ok t as := by
      refine ⟨fun hAll => hAll t hFirst, fun hAll t' ht' => ?_⟩
      cases hFirst.symm.trans ht'
      exact hAll
    rw [ih hRest (hInv s a t hs hFirst), hStep s a t hs hFirst, AllOk, hTail, and_assoc]

theorem Always.head {P : State → Prop} {s : State} :
    ∀ {as : List Label}, Always step P s as → P s
  | [], h => h
  | _ :: _, h => h.1

/-- What `P` implies in the states that the labels of the schedule lead to. -/
theorem Always.imp (Inv : State → Prop) {ok : Label → Prop} {P Q : State → Prop}
    (hInv : ∀ s a s', Inv s → ok a → step s a = some s' → Inv s') (hImp : ∀ s, Inv s → P s → Q s) :
    ∀ {as : List Label} {s : State},
      (∀ a ∈ as, ok a) → Inv s → Always step P s as → Always step Q s as := by
  intro as
  induction as with
  | nil =>
    intro s _ hs hP
    exact hImp s hs hP
  | cons a as ih =>
    intro s hOk hs hP
    refine ⟨hImp s hs hP.1, ?_⟩
    intro t hFirst
    exact ih (fun b hMem => hOk b (List.mem_cons_of_mem _ hMem))
      (hInv s a t hs (hOk a List.mem_cons_self) hFirst) (hP.2 t hFirst)

theorem always_iff_allOk (Inv : State → Prop) {P : State → Prop} {ok : State → Label → Prop}
    (hInv : ∀ s a s', Inv s → step s a = some s' → Inv s')
    (hStep : ∀ s a s', Inv s → P s → step s a = some s' → (P s' ↔ ok s a)) :
    ∀ {as : List Label} {s s' : State},
      run step s as = some s' → Inv s → P s → (Always step P s as ↔ AllOk step ok s as) := by
  intro as
  induction as with
  | nil =>
    intro s s' _ _ hP
    exact ⟨fun _ => trivial, fun _ => hP⟩
  | cons a as ih =>
    intro s s' hRun hs hP
    obtain ⟨t, hFirst, hRest⟩ := run_cons_eq_some.mp hRun
    have ht := hInv s a t hs hFirst
    have hOk := hStep s a t hs hP hFirst
    constructor
    · intro hAlways
      have hTail := hAlways.2 t hFirst
      refine ⟨hOk.mp hTail.head, ?_⟩
      intro t' ht'
      cases hFirst.symm.trans ht'
      exact (ih hRest ht hTail.head).mp hTail
    · intro hAll
      refine ⟨hP, ?_⟩
      intro t' ht'
      cases hFirst.symm.trans ht'
      exact (ih hRest ht (hOk.mpr hAll.1)).mpr (hAll.2 t hFirst)

end HectorCore.Lib
