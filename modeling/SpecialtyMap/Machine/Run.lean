import Mathlib.Data.List.Basic
import Mathlib.Tactic.Common

/-!
# Runs of event-driven machines

A machine is a step function on a state type, driven by a list of events. `exec` is a run of a total
machine, `execM` a run of one whose steps may fail. `AllStates` and `AllSteps` speak about
everything a run passes through: the states it visits, and the events it takes in the states it
takes them in. `AllStatesM` and `AllStepsM` do so where steps may fail, `AllStatesM` of runs that do
not.

The rules of this file are the inductions the screens are verified with: an invariant kept by every
step holds at the end of every run, a machine whose steps cannot fail under an invariant never
fails, and a property of the visited states that one step keeps exactly when it meets a condition is
kept by exactly the runs whose steps all meet it.
-/

namespace SpecialtyMap.Machine

variable {σ ε κ : Type*}

def exec (step : σ → ε → σ) (s : σ) (es : List ε) : σ := es.foldl step s

/-- The state after a list of events, when a step may fail. -/
def execM (step : σ → ε → Except κ σ) (s : σ) (es : List ε) : Except κ σ := es.foldlM step s

/-- `G` holds in every state the run visits, the first and the last included. -/
def AllStates (step : σ → ε → σ) (G : σ → Prop) : σ → List ε → Prop
  | s, [] => G s
  | s, e :: es => G s ∧ AllStates step G (step s e) es

/-- `P` holds of every event of the run, in the state that takes it. -/
def AllSteps (step : σ → ε → σ) (P : σ → ε → Prop) : σ → List ε → Prop
  | _, [] => True
  | s, e :: es => P s e ∧ AllSteps step P (step s e) es

/-- The run does not fail, and `G` holds in every state it visits. -/
def AllStatesM (step : σ → ε → Except κ σ) (G : σ → Prop) : σ → List ε → Prop
  | s, [] => G s
  | s, e :: es => G s ∧ ∃ s', step s e = .ok s' ∧ AllStatesM step G s' es

/-- `P` holds of every event a run takes before it fails, in the state that takes it. -/
def AllStepsM (step : σ → ε → Except κ σ) (P : σ → ε → Prop) : σ → List ε → Prop
  | _, [] => True
  | s, e :: es => P s e ∧ ∀ s', step s e = .ok s' → AllStepsM step P s' es

/-- A step of a machine that may call back, with the list of the values it has called back with. -/
def collect {ω : Type*} (step : σ → ε → σ × Option ω) (s : σ × List ω) (e : ε) : σ × List ω :=
  ((step s.1 e).1, s.2 ++ (step s.1 e).2.toList)

section
variable {step : σ → ε → σ}

@[simp] lemma exec_nil (s : σ) : exec step s [] = s := rfl

@[simp] lemma exec_cons (s : σ) (e : ε) (es : List ε) :
    exec step s (e :: es) = exec step (step s e) es := rfl

lemma exec_append (s : σ) (es es' : List ε) :
    exec step s (es ++ es') = exec step (exec step s es) es' := List.foldl_append

/-- What every step keeps holds at the end of every run. -/
lemma exec_invariant {I : σ → Prop} (keep : ∀ s e, I s → I (step s e)) {s : σ} (init : I s)
    (es : List ε) : I (exec step s es) := by
  induction es generalizing s with
  | nil => exact init
  | cons e es ih => exact ih (keep s e init)

/-- Two machines that stay related step by step end their runs related. -/
lemma exec_simulation {τ : Type*} {step' : τ → ε → τ} {R : σ → τ → Prop}
    (sim : ∀ s t e, R s t → R (step s e) (step' t e)) {s : σ} {t : τ} (init : R s t) (es : List ε) :
    R (exec step s es) (exec step' t es) := by
  induction es generalizing s t with
  | nil => exact init
  | cons e es ih => exact ih (sim s t e init)

lemma AllStates.first {G : σ → Prop} {s : σ} {es : List ε} (all : AllStates step G s es) : G s := by
  cases es with
  | nil => exact all
  | cons e es => exact all.1

/-- A condition on the events alone holds of all steps when it holds of all events. -/
lemma allSteps_events {P : ε → Prop} {s : σ} {es : List ε} :
    AllSteps step (fun _ e => P e) s es ↔ ∀ e ∈ es, P e := by
  induction es generalizing s with
  | nil => simp [AllSteps]
  | cons e es ih => simp [AllSteps, ih]

/-- What the events of a run keep holds in every state it visits. -/
lemma allStates_invariant {I : σ → Prop} {P : ε → Prop} (keep : ∀ s e, I s → P e →
    I (step s e)) {s : σ}
    (init : I s) {es : List ε} (events : ∀ e ∈ es, P e) : AllStates step I s es := by
  induction es generalizing s with
  | nil => exact init
  | cons e es ih =>
    obtain ⟨first, rest⟩ := List.forall_mem_cons.mp events
    exact ⟨init, ih (keep s e init first) rest⟩

lemma AllStates.mono {G G' : σ → Prop} (weaker : ∀ s, G s → G' s) {s : σ} {es : List ε}
    (all : AllStates step G s es) : AllStates step G' s es := by
  induction es generalizing s with
  | nil => exact weaker s all
  | cons e es ih => exact ⟨weaker s all.1, ih all.2⟩

/-- What holds of every event in the states a run visits holds of its steps. -/
lemma AllStates.steps {G : σ → Prop} {P : σ → ε → Prop} (every : ∀ s e, G s → P s e) {s : σ}
    {es : List ε} (all : AllStates step G s es) : AllSteps step P s es := by
  induction es generalizing s with
  | nil => trivial
  | cons e es ih => exact ⟨every s e all.1, ih all.2⟩

lemma allSteps_append {P : σ → ε → Prop} {s : σ} {es es' : List ε} :
    AllSteps step P s (es ++ es') ↔ AllSteps step P s es ∧
    AllSteps step P (exec step s es) es' := by
  induction es generalizing s with
  | nil => exact ⟨fun all => ⟨trivial, all⟩, And.right⟩
  | cons e es ih =>
    rw [List.cons_append, AllSteps, AllSteps, ih, and_assoc, exec_cons]

/-- If one step is allowed and leads to a good state exactly when it meets `P`, then the runs that
take allowed steps and visit good states only are those whose steps all meet `P`. -/
lemma allStates_allSteps_iff {I G : σ → Prop} {Q P : σ → ε → Prop}
    (exact_step : ∀ s e, I s → (Q s e ∧ G (step s e) ↔ P s e))
    (keep : ∀ s e, I s → P s e → I (step s e)) {s : σ} (init : I s) (good : G s) (es : List ε) :
    AllStates step G s es ∧ AllSteps step Q s es ↔ AllSteps step P s es := by
  induction es generalizing s with
  | nil => simp [AllStates, AllSteps, good]
  | cons e es ih =>
    constructor
    · rintro ⟨⟨-, states⟩, allowed, steps⟩
      -- the state after `e` is visited, so it is good and the rest of the run starts from it
      have p := (exact_step s e init).mp ⟨allowed, states.first⟩
      exact ⟨p, (ih (keep s e init p) states.first).mp ⟨states, steps⟩⟩
    · rintro ⟨p, rest⟩
      obtain ⟨allowed, next⟩ := (exact_step s e init).mpr p
      obtain ⟨states, steps⟩ := (ih (keep s e init p) next).mpr rest
      exact ⟨⟨good, states⟩, allowed, steps⟩

/-- If one step leads to a good state exactly when it meets `P`, then the runs that visit good
states only are those whose steps all meet `P`. -/
lemma allStates_iff_allSteps {I G : σ → Prop} {P : σ → ε → Prop}
    (exact_step : ∀ s e, I s → (G (step s e) ↔ P s e))
    (keep : ∀ s e, I s → P s e → I (step s e)) {s : σ} (init : I s) (good : G s) (es : List ε) :
    AllStates step G s es ↔ AllSteps step P s es := by
  have both : ∀ s e, I s → (True ∧ G (step s e) ↔ P s e) := by
    simpa only [true_and] using exact_step
  rw [← allStates_allSteps_iff both keep init good]
  exact ⟨fun states => ⟨states, allSteps_events.mpr fun _ _ => trivial⟩, And.left⟩

end

section
variable {step : σ → ε → Except κ σ}

@[simp] lemma execM_cons (s : σ) (e : ε) (es : List ε) :
    execM step s (e :: es) = step s e >>= fun s' => execM step s' es := rfl

lemma execM_append (s : σ) (es es' : List ε) :
    execM step s (es ++ es') = execM step s es >>= fun s' => execM step s' es' := List.foldlM_append

/-- Two computations succeed one after the other when both do. -/
lemma ok_bind_iff.{u, v} {κ : Type u} {α β : Type v} {x : Except κ α} {f : α → Except κ β} {b : β} :
    x >>= f = .ok b ↔ ∃ a, x = .ok a ∧ f a = .ok b := by
  cases x with
  | error _ =>
    constructor
    · intro run
      cases run
    · rintro ⟨_, ok, -⟩
      cases ok
  | ok a =>
    constructor
    · exact fun run => ⟨a, rfl, run⟩
    · rintro ⟨_, ok, run⟩
      cases ok
      exact run

lemma execM_cons_ok {s s' : σ} {e : ε} {es : List ε} :
    execM step s (e :: es) = .ok s' ↔ ∃ t, step s e = .ok t ∧
    execM step t es = .ok s' := ok_bind_iff

/-- A machine whose steps never fail runs as the total one. -/
lemma execM_total {step : σ → ε → σ} (s : σ) (es : List ε) :
    execM (fun s e => (.ok (step s e) : Except κ σ)) s es = .ok (exec step s es) := by
  induction es generalizing s with
  | nil => rfl
  | cons e es ih => exact ih (step s e)

/-- A machine whose steps succeed from, and stay in, an invariant on events of a kind never fails on
runs of such events and ends in it. -/
lemma execM_invariant {I : σ → Prop} {P : ε → Prop}
    (keep : ∀ s e, I s → P e → ∃ s', step s e = .ok s' ∧ I s') {s : σ} (init : I s) {es : List ε}
    (events : ∀ e ∈ es, P e) : ∃ s', execM step s es = .ok s' ∧ I s' := by
  induction es generalizing s with
  | nil => exact ⟨s, rfl, init⟩
  | cons e es ih =>
    obtain ⟨first, others⟩ := List.forall_mem_cons.mp events
    obtain ⟨s', next, inv⟩ := keep s e init first
    obtain ⟨s'', rest, inv'⟩ := ih inv others
    refine ⟨s'', ?_, inv'⟩
    rw [execM_cons, next]
    exact rest

/-- What the events of a run meet under an invariant that such events keep holds of its steps. -/
lemma AllStepsM.of_invariant {I : σ → Prop} {P : σ → ε → Prop}
    (keep : ∀ s e s', I s → P s e → step s e = .ok s' → I s') {s : σ} (init : I s) {es : List ε}
    (every : ∀ e ∈ es, ∀ s, I s → P s e) : AllStepsM step P s es := by
  induction es generalizing s with
  | nil => trivial
  | cons e es ih =>
    obtain ⟨first, rest⟩ := List.forall_mem_cons.mp every
    have meets := first s init
    exact ⟨meets, fun t next => ih (keep s e t init meets next) rest⟩

/-- What every step that meets a condition keeps holds at the end of every run whose
steps all meet it. -/
lemma execM_keeps {I : σ → Prop} {Q : σ → ε → Prop}
    (keep : ∀ s e s', I s → Q s e → step s e = .ok s' → I s') {s s' : σ} (init : I s) {es : List ε}
    (meets : AllStepsM step Q s es) (run : execM step s es = .ok s') : I s' := by
  induction es generalizing s with
  | nil =>
    cases run
    exact init
  | cons e es ih =>
    obtain ⟨t, next, rest⟩ := execM_cons_ok.mp run
    exact ih (keep s e t init meets.1 next) (meets.2 t next) rest

/-- A machine that stays related to a total one, and does not fail on events of a kind, does not
fail on runs of such events and ends related. -/
lemma execM_simulation {τ : Type*} {step' : τ → ε → τ} {R : σ → τ → Prop} {P : ε → Prop}
    (sim : ∀ s t e, R s t → P e → ∃ s', step s e = .ok s' ∧ R s' (step' t e)) {s : σ} {t : τ}
    (init : R s t) {es : List ε} (events : ∀ e ∈ es, P e) :
    ∃ s', execM step s es = .ok s' ∧ R s' (exec step' t es) := by
  induction es generalizing s t with
  | nil => exact ⟨s, rfl, init⟩
  | cons e es ih =>
    obtain ⟨first, rest⟩ := List.forall_mem_cons.mp events
    obtain ⟨s', next, related⟩ := sim s t e init first
    obtain ⟨s'', run, related'⟩ := ih related rest
    exact ⟨s'', execM_cons_ok.mpr ⟨s', next, run⟩, related'⟩

lemma AllStatesM.first {G : σ → Prop} {s : σ} {es : List ε}
    (all : AllStatesM step G s es) : G s := by
  cases es with
  | nil => exact all
  | cons e es => exact all.1

/-- If one step succeeds and leads to a good state exactly when it meets `P`, then the runs that do
not fail and visit good states only are those whose steps all meet `P`. -/
lemma allStatesM_iff_allStepsM {I G : σ → Prop} {P : σ → ε → Prop}
    (exact_step : ∀ s e, I s → ((∃ s', step s e = .ok s' ∧ G s') ↔ P s e))
    (keep : ∀ s e s', I s → P s e → step s e = .ok s' → I s') {s : σ} (init : I s) (good : G s)
    (es : List ε) : AllStatesM step G s es ↔ AllStepsM step P s es := by
  induction es generalizing s with
  | nil => exact iff_of_true good trivial
  | cons e es ih =>
    constructor
    · rintro ⟨-, t, next, states⟩
      have p := (exact_step s e init).mp ⟨t, next, states.first⟩
      refine ⟨p, fun t' same => ?_⟩
      cases next.symm.trans same
      exact (ih (keep s e t init p next) states.first).mp states
    · rintro ⟨p, steps⟩
      obtain ⟨t, next, good'⟩ := (exact_step s e init).mpr p
      exact ⟨good, t, next, (ih (keep s e t init p next) good').mpr (steps t next)⟩

/-- In a run whose steps all meet a condition, success is a matter of another one: that under which
one step succeeds. -/
lemma execM_ok_iff {I : σ → Prop} {P Q : σ → ε → Prop}
    (exact_step : ∀ s e, I s → Q s e → ((∃ s', step s e = .ok s') ↔ P s e))
    (keep : ∀ s e s', I s → Q s e → step s e = .ok s' → I s') {s : σ} (init : I s) {es : List ε}
    (meets : AllStepsM step Q s es) : (∃ s', execM step s es = .ok s') ↔ AllStepsM step P s es := by
  induction es generalizing s with
  | nil => exact ⟨fun _ => trivial, fun _ => ⟨s, rfl⟩⟩
  | cons e es ih =>
    obtain ⟨q, others⟩ := meets
    constructor
    · rintro ⟨s', run⟩
      obtain ⟨t, next, rest⟩ := execM_cons_ok.mp run
      refine ⟨(exact_step s e init q).mp ⟨t, next⟩, fun t' same => ?_⟩
      cases next.symm.trans same
      exact (ih (keep s e t init q next) (others t next)).mp ⟨s', rest⟩
    · rintro ⟨p, steps⟩
      obtain ⟨t, next⟩ := (exact_step s e init q).mpr p
      obtain ⟨s', rest⟩ := (ih (keep s e t init q next) (others t next)).mpr (steps t next)
      exact ⟨s', execM_cons_ok.mpr ⟨t, next, rest⟩⟩

/-- A run of a system is, on a part of it, a run of the part, with each step as the events it has
there. -/
lemma execM_project {τ ε' : Type*} {step' : τ → ε' → Except κ τ} (part : σ → τ)
    (events : ε → List ε')
    (project : ∀ s e s', step s e = .ok s' → execM step' (part s) (events e) = .ok (part s'))
    {s s' : σ} {es : List ε} (run : execM step s es = .ok s') :
    execM step' (part s) (es.flatMap events) = .ok (part s') := by
  induction es generalizing s with
  | nil =>
    cases run
    rfl
  | cons e es ih =>
    obtain ⟨t, next, rest⟩ := execM_cons_ok.mp run
    rw [List.flatMap_cons, execM_append, project s e t next]
    exact ih rest

end

end SpecialtyMap.Machine
