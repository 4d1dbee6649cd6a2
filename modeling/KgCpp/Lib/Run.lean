import Mathlib.Data.List.Basic
import Mathlib.Tactic

/-!
# Runs of machines

A component that is used by calling it over and over is a step function. Two
shapes are enough here:

- `run step s is`: a *total* step function `σ → ι → σ × ω` fed a list of
  inputs, with the list of its outputs. A property of one step becomes a
  property of runs by `run_invariant`, and two machines that agree step by step
  along a relation of their states give the same outputs (`Simulation.run_eq`).
- `exec step s is`: a *partial* step function `σ → ι → Option σ` (an input may
  not be enabled), where `exec_invariant` is the same principle for the states
  of the runs that exist.
-/

namespace Lib

universe u v w x

variable {σ : Type u} {τ : Type x} {ι : Type v} {ω : Type w}

/-! ## Total machines -/

/-- Feed a list of inputs to a machine, collecting its outputs. -/
def run (step : σ → ι → σ × ω) : σ → List ι → σ × List ω
  | s, [] => (s, [])
  | s, i :: is => ((run step (step s i).1 is).1, (step s i).2 :: (run step (step s i).1 is).2)

@[simp] theorem run_nil (step : σ → ι → σ × ω) (s : σ) : run step s [] = (s, []) := rfl

@[simp] theorem run_cons (step : σ → ι → σ × ω) (s : σ) (i : ι) (is : List ι) :
    run step s (i :: is) =
      ((run step (step s i).1 is).1, (step s i).2 :: (run step (step s i).1 is).2) := rfl

theorem run_append (step : σ → ι → σ × ω) (s : σ) (is js : List ι) :
    run step s (is ++ js) =
      ((run step (run step s is).1 js).1,
        (run step s is).2 ++ (run step (run step s is).1 js).2) := by
  induction is generalizing s with
  | nil => rfl
  | cons i is ih => simp [ih]

/-- What every admitted input preserves holds after every run of admitted
inputs. -/
theorem run_invariant {step : σ → ι → σ × ω} (ok : ι → Prop) (P : σ → Prop)
    (hstep : ∀ s i, P s → ok i → P (step s i).1) {s : σ} (hs : P s) (is : List ι)
    (hok : ∀ i ∈ is, ok i) : P (run step s is).1 := by
  induction is generalizing s with
  | nil => exact hs
  | cons i is ih =>
    exact ih (hstep s i hs (hok i (List.mem_cons_self ..)))
      fun j hj => hok j (List.mem_cons_of_mem _ hj)

/-- A relation between the inputs so far, the outputs so far and the state, kept
by every step with an admitted output, holds after every run of such outputs. -/
theorem run_history (step : σ → ι → σ × ω) (ok : ω → Prop) (P : List ι → List ω → σ → Prop)
    (hstep : ∀ is os s i, P is os s → ok (step s i).2 →
      P (is ++ [i]) (os ++ [(step s i).2]) (step s i).1)
    {s : σ} (hs : P [] [] s) (is : List ι) (hok : ∀ o ∈ (run step s is).2, ok o) :
    P is (run step s is).2 (run step s is).1 := by
  induction is using List.reverseRecOn with
  | nil => exact hs
  | append_singleton is i ih =>
    rw [run_append] at hok ⊢
    refine hstep _ _ _ i (ih fun o ho => hok o (List.mem_append_left _ ho)) ?_
    exact hok _ (List.mem_append_right _ (List.mem_singleton_self _))

/-- `R` is a simulation between two machines on the admitted inputs: related
states answer alike and stay related. -/
def Simulation (step : σ → ι → σ × ω) (step' : τ → ι → τ × ω) (ok : ι → Prop)
    (R : σ → τ → Prop) : Prop :=
  ∀ s t i, R s t → ok i →
    R (step s i).1 (step' t i).1 ∧ (step s i).2 = (step' t i).2

/-- Simulated machines have the same outputs, and their states stay related. -/
theorem Simulation.run_eq {step : σ → ι → σ × ω} {step' : τ → ι → τ × ω}
    {ok : ι → Prop} {R : σ → τ → Prop} (h : Simulation step step' ok R) {s : σ} {t : τ}
    (hst : R s t) (is : List ι) (hok : ∀ i ∈ is, ok i) :
    R (run step s is).1 (run step' t is).1 ∧ (run step s is).2 = (run step' t is).2 := by
  induction is generalizing s t with
  | nil => exact ⟨hst, rfl⟩
  | cons i is ih =>
    obtain ⟨hR, hout⟩ := h s t i hst (hok i (List.mem_cons_self ..))
    obtain ⟨hR', hout'⟩ := ih hR fun j hj => hok j (List.mem_cons_of_mem _ hj)
    exact ⟨hR', by rw [run_cons, run_cons, hout, hout']⟩

/-! ## Partial machines -/

/-- Feed a list of inputs to a machine; `none` when one of them is not enabled
where it comes. -/
def exec (step : σ → ι → Option σ) : σ → List ι → Option σ
  | s, [] => some s
  | s, i :: is => (step s i).bind fun s' => exec step s' is

@[simp] theorem exec_nil (step : σ → ι → Option σ) (s : σ) : exec step s [] = some s := rfl

theorem exec_cons {step : σ → ι → Option σ} {s s' : σ} {i : ι} {is : List ι} :
    exec step s (i :: is) = some s' ↔ ∃ t, step s i = some t ∧ exec step t is = some s' := by
  rw [exec, Option.bind_eq_some_iff]

theorem exec_append {step : σ → ι → Option σ} {s s' : σ} {is js : List ι} :
    exec step s (is ++ js) = some s' ↔
      ∃ t, exec step s is = some t ∧ exec step t js = some s' := by
  induction is generalizing s with
  | nil => simp
  | cons i is ih =>
    rw [List.cons_append, exec_cons]
    constructor
    · rintro ⟨t, ht, hexec⟩
      obtain ⟨m, hm, hjs⟩ := ih.mp hexec
      exact ⟨m, exec_cons.mpr ⟨t, ht, hm⟩, hjs⟩
    · rintro ⟨m, hm, hjs⟩
      obtain ⟨t, ht, hexec⟩ := exec_cons.mp hm
      exact ⟨t, ht, ih.mpr ⟨m, hexec, hjs⟩⟩

/-- What every step preserves holds after every run. -/
theorem exec_invariant {step : σ → ι → Option σ} {P : σ → Prop}
    (hstep : ∀ s i s', P s → step s i = some s' → P s') {s s' : σ} (hs : P s)
    {is : List ι} (h : exec step s is = some s') : P s' := by
  induction is generalizing s with
  | nil =>
    cases h
    exact hs
  | cons i is ih =>
    obtain ⟨t, ht, hexec⟩ := exec_cons.mp h
    exact ih (hstep s i t hs ht) hexec

/-- A relation between the inputs so far and the state, kept by every step. -/
theorem exec_history {step : σ → ι → Option σ} {P : List ι → σ → Prop} {s : σ}
    (hstep : ∀ is t i t', exec step s is = some t → P is t → step t i = some t' →
      P (is ++ [i]) t') (hs : P [] s) (is : List ι) :
    ∀ s', exec step s is = some s' → P is s' := by
  induction is using List.reverseRecOn with
  | nil =>
    intro s' h
    cases h
    exact hs
  | append_singleton is i ih =>
    intro s' h
    obtain ⟨t, ht, hi⟩ := exec_append.mp h
    obtain ⟨t', ht', hnil⟩ := exec_cons.mp hi
    cases hnil
    exact hstep is t i s' ht (ih t ht) ht'

/-- `B` holds in every state a run goes through. -/
def Throughout (step : σ → ι → Option σ) (B : σ → Prop) (s : σ) (is : List ι) : Prop :=
  ∀ js t, js <+: is → exec step s js = some t → B t

section Throughout

variable {step : σ → ι → Option σ} {B : σ → Prop} {s t : σ} {i : ι} {is js : List ι}

theorem throughout_nil : Throughout step B s [] ↔ B s := by
  constructor
  · intro h
    exact h [] s (List.prefix_refl _) rfl
  · intro h js t hjs ht
    cases List.prefix_nil.mp hjs
    cases ht
    exact h

theorem throughout_cons :
    Throughout step B s (i :: is) ↔ B s ∧ ∀ t, step s i = some t → Throughout step B t is := by
  constructor
  · intro h
    refine ⟨h [] s List.nil_prefix rfl, fun t ht js u hjs hu => ?_⟩
    exact h (i :: js) u (List.cons_prefix_cons.mpr ⟨rfl, hjs⟩) (exec_cons.mpr ⟨t, ht, hu⟩)
  · rintro ⟨hB, h⟩ js u hjs hu
    cases js with
    | nil =>
      cases hu
      exact hB
    | cons j js =>
      obtain ⟨rfl, hpre⟩ := List.cons_prefix_cons.mp hjs
      obtain ⟨t, ht, hu⟩ := exec_cons.mp hu
      exact h t ht js u hpre hu

theorem Throughout.start (h : Throughout step B s is) : B s := h [] s List.nil_prefix rfl

theorem Throughout.append (hs : Throughout step B s is) (hexec : exec step s is = some t)
    (ht : Throughout step B t js) : Throughout step B s (is ++ js) := by
  induction is generalizing s with
  | nil =>
    cases hexec
    exact ht
  | cons i is ih =>
    obtain ⟨u, hu, hexec⟩ := exec_cons.mp hexec
    obtain ⟨hB, hs⟩ := throughout_cons.mp hs
    refine throughout_cons.mpr ⟨hB, fun u' hu' => ?_⟩
    cases hu.symm.trans hu'
    exact ih (hs u hu) hexec

/-- What the admitted inputs preserve holds in every state of a run of them. -/
theorem throughout_of_step (ok : ι → Prop)
    (hstep : ∀ s i s', B s → ok i → step s i = some s' → B s') (hs : B s)
    (hok : ∀ i ∈ is, ok i) : Throughout step B s is := by
  induction is generalizing s with
  | nil => exact throughout_nil.mpr hs
  | cons i is ih =>
    refine throughout_cons.mpr ⟨hs, fun t ht => ?_⟩
    exact ih (hstep s i t hs (hok i (List.mem_cons_self ..)) ht)
      fun j hj => hok j (List.mem_cons_of_mem _ hj)

instance decidableThroughout [DecidablePred B] :
    ∀ (s : σ) (is : List ι), Decidable (Throughout step B s is)
  | _, [] => decidable_of_iff _ throughout_nil.symm
  | s, i :: is =>
    match h : step s i with
    | none => decidable_of_iff (B s) (by simp [throughout_cons, h])
    | some t =>
      have := decidableThroughout t is
      decidable_of_iff (B s ∧ Throughout step B t is) (by simp [throughout_cons, h])

end Throughout

/-- What every step from such states preserves holds after the run. -/
theorem Throughout.exec_invariant {step : σ → ι → Option σ} {B P : σ → Prop}
    (hstep : ∀ s i s', B s → P s → step s i = some s' → P s') {s s' : σ} {is : List ι}
    (hB : Throughout step B s is) (hs : P s) (h : exec step s is = some s') : P s' := by
  refine exec_history (P := fun js t => js <+: is → P t) (fun js t i t' ht ih hi hpre => ?_)
    (fun _ => hs) is s' h (List.prefix_refl is)
  have hjs := (List.prefix_append js [i]).trans hpre
  exact hstep t i t' (hB js t hjs ht) (ih hjs) hi

/-- Some run leads to where `P` holds. -/
def Reaches (step : σ → ι → Option σ) (P : σ → Prop) (s : σ) : Prop :=
  ∃ is t, exec step s is = some t ∧ P t

section Reaches

variable {step : σ → ι → Option σ} {P : σ → Prop} {s t : σ} {i : ι}

theorem Reaches.here (h : P s) : Reaches step P s := ⟨[], s, rfl, h⟩

theorem Reaches.cons (hi : step s i = some t) (h : Reaches step P t) : Reaches step P s := by
  obtain ⟨is, u, hexec, hu⟩ := h
  exact ⟨i :: is, u, exec_cons.mpr ⟨t, hi, hexec⟩, hu⟩

theorem Reaches.trans {Q : σ → Prop} (h : Reaches step Q s)
    (hQ : ∀ t, Q t → Reaches step P t) : Reaches step P s := by
  obtain ⟨is, t, hexec, ht⟩ := h
  obtain ⟨js, u, hexec', hu⟩ := hQ t ht
  exact ⟨is ++ js, u, exec_append.mpr ⟨t, hexec, hexec'⟩, hu⟩

/-- A run of a machine is one of every machine that takes its steps. -/
theorem exec_mono {step' : σ → ι → Option σ}
    (hstep : ∀ s i t, step s i = some t → step' s i = some t) {is : List ι}
    (h : exec step s is = some t) : exec step' s is = some t := by
  induction is generalizing s with
  | nil => exact h
  | cons i is ih =>
    obtain ⟨u, hu, hexec⟩ := exec_cons.mp h
    exact exec_cons.mpr ⟨u, hstep s i u hu, ih hexec⟩

theorem Reaches.mono {step' : σ → ι → Option σ}
    (hstep : ∀ s i t, step s i = some t → step' s i = some t) (h : Reaches step P s) :
    Reaches step' P s := by
  obtain ⟨is, t, hexec, ht⟩ := h
  exact ⟨is, t, exec_mono hstep hexec, ht⟩

/-- What every step preserves holds where a run leads. -/
theorem Reaches.invariant {Q : σ → Prop} (h : Reaches step P s)
    (hstep : ∀ s i s', Q s → step s i = some s' → Q s') (hs : Q s) : ∃ t, P t ∧ Q t := by
  obtain ⟨is, t, hexec, ht⟩ := h
  exact ⟨t, ht, exec_invariant hstep hs hexec⟩

end Reaches

/-- `R` is a bisimulation between two partial machines on the admitted inputs:
related states have the same inputs enabled, and stay related. -/
def Bisimulation (step : σ → ι → Option σ) (step' : τ → ι → Option τ) (ok : ι → Prop)
    (R : σ → τ → Prop) : Prop :=
  ∀ s t i, R s t → ok i → Option.Rel R (step s i) (step' t i)

/-- Bisimilar machines have the same runs, to related states. -/
theorem Bisimulation.exec_rel {step : σ → ι → Option σ} {step' : τ → ι → Option τ}
    {ok : ι → Prop} {R : σ → τ → Prop} (h : Bisimulation step step' ok R) {s : σ} {t : τ}
    (hst : R s t) (is : List ι) (hok : ∀ i ∈ is, ok i) :
    Option.Rel R (exec step s is) (exec step' t is) := by
  induction is generalizing s t with
  | nil => exact .some hst
  | cons i is ih =>
    have hi := h s t i hst (hok i (List.mem_cons_self ..))
    rw [exec, exec]
    cases hs : step s i <;> cases ht : step' t i <;> rw [hs, ht] at hi <;> cases hi
    · exact .none
    · rename_i hR
      exact ih hR fun j hj => hok j (List.mem_cons_of_mem _ hj)

end Lib
