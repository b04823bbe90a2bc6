import Mathlib.Tactic.TypeStar

/-! Runs of a deterministic transition function over a list of events, and the
rules by which a fact about one step becomes a fact about every run. -/

namespace Transition

variable {σ τ ε : Type*}

/-- The state after the events, in order. -/
def run (f : σ → ε → σ) (s : σ) (es : List ε) : σ := es.foldl f s

/-- `P` holds of every event of the run and the state it meets. -/
def Along (f : σ → ε → σ) (P : σ → ε → Prop) : σ → List ε → Prop
  | _, [] => True
  | s, e :: es => P s e ∧ Along f P (f s e) es

@[simp] theorem run_nil (f : σ → ε → σ) (s : σ) : run f s [] = s := rfl

@[simp] theorem run_cons (f : σ → ε → σ) (s : σ) (e : ε) (es : List ε) :
    run f s (e :: es) = run f (f s e) es := rfl

theorem run_append (f : σ → ε → σ) (s : σ) (es fs : List ε) :
    run f s (es ++ fs) = run f (run f s es) fs := List.foldl_append

@[simp] theorem along_nil (f : σ → ε → σ) (P : σ → ε → Prop) (s : σ) : Along f P s [] := trivial

@[simp] theorem along_cons {f : σ → ε → σ} {P : σ → ε → Prop} {s : σ} {e : ε} {es : List ε} :
    Along f P s (e :: es) ↔ P s e ∧ Along f P (f s e) es := Iff.rfl

instance Along.decidable (f : σ → ε → σ) (P : σ → ε → Prop) [∀ s e, Decidable (P s e)] :
    ∀ s es, Decidable (Along f P s es)
  | _, [] => isTrue trivial
  | s, e :: es => @instDecidableAnd _ _ _ (Along.decidable f P (f s e) es)

theorem along_of_forall {f : σ → ε → σ} {P : σ → ε → Prop} {es : List ε}
    (h : ∀ s, ∀ e ∈ es, P s e) (s : σ) : Along f P s es := by
  induction es generalizing s with
  | nil => trivial
  | cons e es ih => exact ⟨h s e (by simp), ih (fun s f hf => h s f (by simp [hf])) _⟩

theorem Along.and {f : σ → ε → σ} {P Q : σ → ε → Prop} {s : σ} {es : List ε}
    (hP : Along f P s es) (hQ : Along f Q s es) :
    Along f (fun s e => P s e ∧ Q s e) s es := by
  induction es generalizing s with
  | nil => trivial
  | cons e es ih => exact ⟨⟨hP.1, hQ.1⟩, ih hP.2 hQ.2⟩

/-- Conditions that agree wherever `R` holds agree along the runs that keep to `R`. -/
theorem Along.iff_of {f : σ → ε → σ} {P Q R : σ → ε → Prop} {s : σ} {es : List ε}
    (h : Along f R s es) (hPQ : ∀ s e, R s e → (P s e ↔ Q s e)) :
    Along f P s es ↔ Along f Q s es := by
  induction es generalizing s with
  | nil => exact Iff.rfl
  | cons e es ih => exact and_congr (hPQ s e h.1) (ih h.2)

/-- What every step allowed by `P` preserves holds at the end of every run. -/
theorem Along.invariant {f : σ → ε → σ} {P : σ → ε → Prop} {I : σ → Prop}
    (hstep : ∀ s e, I s → P s e → I (f s e)) {s : σ} {es : List ε}
    (h : Along f P s es) (hs : I s) : I (run f s es) := by
  induction es generalizing s with
  | nil => exact hs
  | cons e es ih => exact ih h.2 (hstep s e hs h.1)

/-- Along a run an invariant turns the condition `P` of each step into `Q`. -/
theorem Along.imp {f : σ → ε → σ} {P Q : σ → ε → Prop} {I : σ → Prop}
    (hstep : ∀ s e, I s → P s e → I (f s e)) (hQ : ∀ s e, I s → P s e → Q s e)
    {s : σ} {es : List ε} (h : Along f P s es) (hs : I s) : Along f Q s es := by
  induction es generalizing s with
  | nil => trivial
  | cons e es ih => exact ⟨hQ s e hs h.1, ih h.2 (hstep s e hs h.1)⟩

/-- Two systems that keep a relation step by step keep it over every run. -/
theorem Along.simulation {f : σ → ε → σ} {g : τ → ε → τ} {P : σ → ε → Prop}
    {R : σ → τ → Prop}
    (hstep : ∀ s t e, R s t → P s e → R (f s e) (g t e)) {s : σ} {t : τ} {es : List ε}
    (h : Along f P s es) (hs : R s t) : R (run f s es) (run g t es) := by
  induction es generalizing s t with
  | nil => exact hs
  | cons e es ih => exact ih h.2 (hstep s t e hs h.1)

end Transition
