import Mathlib.Data.List.Basic

/-! Runs of a deterministic machine over a list of inputs: the state that a run reaches, a condition
on each of its steps, the invariants that follow from one step, and the relation between a run and
the run of only some of its inputs. -/

namespace Lib

variable {S I O : Type*}

/-- The state after the inputs, from `s`. -/
def run (step : S → I → S) (s : S) (is : List I) : S := is.foldl step s

@[simp] theorem run_nil (step : S → I → S) (s : S) : run step s [] = s := rfl

@[simp] theorem run_cons (step : S → I → S) (s : S) (i : I) (is : List I) :
    run step s (i :: is) = run step (step s i) is := rfl

theorem run_append (step : S → I → S) (s : S) (is js : List I) :
    run step s (is ++ js) = run step (run step s is) js := List.foldl_append ..

/-- Each step of the run satisfies `G`, a condition on the state before it and its input. -/
def Along (step : S → I → S) (G : S → I → Prop) : S → List I → Prop
  | _, [] => True
  | s, i :: is => G s i ∧ Along step G (step s i) is

instance decidableAlong (step : S → I → S) (G : S → I → Prop) [∀ s i, Decidable (G s i)] :
    ∀ s is, Decidable (Along step G s is)
  | _, [] => instDecidableTrue
  | s, i :: is =>
    have := decidableAlong step G (step s i) is
    inferInstanceAs (Decidable (G s i ∧ Along step G (step s i) is))

theorem along_append {step : S → I → S} {G : S → I → Prop} {s : S} {is js : List I} :
    Along step G s (is ++ js) ↔ Along step G s is ∧ Along step G (run step s is) js := by
  induction is generalizing s with
  | nil => simp [Along]
  | cons i is ih => simp [Along, ih, and_assoc]

theorem Along.mono {step : S → I → S} {G H : S → I → Prop} {s : S} {is : List I}
    (h : Along step G s is) (hGH : ∀ s i, G s i → H s i) : Along step H s is := by
  induction is generalizing s with
  | nil => trivial
  | cons i is ih => exact ⟨hGH _ _ h.1, ih h.2⟩

/-- A condition on the inputs alone. -/
theorem along_of_forall {step : S → I → S} {G : S → I → Prop} {is : List I}
    (h : ∀ i ∈ is, ∀ s, G s i) (s : S) : Along step G s is := by
  induction is generalizing s with
  | nil => trivial
  | cons i is ih =>
    exact ⟨h i List.mem_cons_self s, ih (fun j hj => h j (List.mem_cons_of_mem i hj)) (step s i)⟩

theorem along_congr {step : S → I → S} {G H : S → I → Prop} (hGH : ∀ s i, G s i ↔ H s i) {s : S}
    {is : List I} : Along step G s is ↔ Along step H s is :=
  ⟨fun h => h.mono fun s i => (hGH s i).mp, fun h => h.mono fun s i => (hGH s i).mpr⟩

/-- Two machines whose steps agree under `G` agree on every run whose steps satisfy `G`. -/
theorem Along.run_eq {step step' : S → I → S} {G : S → I → Prop}
    (hstep : ∀ s i, G s i → step s i = step' s i) {s : S} {is : List I}
    (h : Along step G s is) : run step s is = run step' s is := by
  induction is generalizing s with
  | nil => rfl
  | cons i is ih =>
    rw [run_cons, run_cons, ← hstep s i h.1]
    exact ih h.2

theorem Along.of_prefix {step : S → I → S} {G : S → I → Prop} {s : S} {is js : List I}
    (h : Along step G s js) (hpre : is <+: js) : Along step G s is := by
  obtain ⟨ks, rfl⟩ := hpre
  exact (along_append.mp h).1

theorem Along.and {step : S → I → S} {G H : S → I → Prop} {s : S} {is : List I}
    (hG : Along step G s is) (hH : Along step H s is) :
    Along step (fun s i => G s i ∧ H s i) s is := by
  induction is generalizing s with
  | nil => trivial
  | cons i is ih => exact ⟨⟨hG.1, hH.1⟩, ih hG.2 hH.2⟩

/-- A property that every step keeps holds after every run. -/
theorem run_invariant {step : S → I → S} {P : S → Prop} (hstep : ∀ s i, P s → P (step s i)) {s : S}
    (h0 : P s) (is : List I) : P (run step s is) := by
  induction is generalizing s with
  | nil => exact h0
  | cons i is ih => exact ih (hstep s i h0)

/-- A property that every step under `G` keeps holds after every run whose steps satisfy `G`. -/
theorem Along.invariant {step : S → I → S} {G : S → I → Prop} {P : S → Prop}
    (hstep : ∀ s i, P s → G s i → P (step s i)) {s : S} (h0 : P s) {is : List I}
    (h : Along step G s is) : P (run step s is) := by
  induction is generalizing s with
  | nil => exact h0
  | cons i is ih => exact ih (hstep s i h0 h.1) h.2

/-- What holds before each step after which it holds, holds before each step of a run after which it
holds. -/
theorem along_of_run {step : S → I → S} {P : S → Prop} (hback : ∀ s i, P (step s i) → P s) {s : S}
    {is : List I} (h : P (run step s is)) : Along step (fun s _ => P s) s is := by
  induction is generalizing s with
  | nil => trivial
  | cons i is ih =>
    have hrest := ih h
    refine ⟨hback s i ?_, hrest⟩
    cases is with
    | nil => exact h
    | cons j is => exact hrest.1

/-- A property that every step under `G` keeps holds before each step of a run under `G`. -/
theorem Along.along_invariant {step : S → I → S} {G : S → I → Prop} {P : S → Prop}
    (hstep : ∀ s i, P s → G s i → P (step s i)) {s : S} (h0 : P s) {is : List I}
    (h : Along step G s is) : Along step (fun s _ => P s) s is := by
  induction is generalizing s with
  | nil => trivial
  | cons i is ih => exact ⟨h0, ih (hstep s i h0 h.1) h.2⟩

/-- Bounded waiting.  While a run waits, each of its steps ends the wait or leaves the measure `m`
no larger, and the inputs that satisfy `tick` make it smaller.  Then a run with more ticks than the
measure ends the wait. -/
theorem Along.exists_end {step : S → I → S} {G : S → I → Prop} {s : S} {is : List I}
    (h : Along step G s is) (waits : S → Prop) (ends : S → I → Prop) (m : S → Nat) (tick : I → Bool)
    (hstep : ∀ s i, waits s → G s i → ends s i ∨
      waits (step s i) ∧ m (step s i) + (if tick i then 1 else 0) ≤ m s)
    (hwaits : waits s) (hticks : m s < is.countP tick) :
    ∃ pre i post, is = pre ++ i :: post ∧ ends (run step s pre) i := by
  induction is generalizing s with
  | nil => simp at hticks
  | cons i is ih =>
    rcases hstep s i hwaits h.1 with hend | ⟨hwaits', hle⟩
    · exact ⟨[], i, is, rfl, hend⟩
    · have hticks' : m (step s i) < is.countP tick := by
        rw [List.countP_cons] at hticks
        split at hle <;> simp_all <;> omega
      obtain ⟨pre, j, post, his, hend⟩ := ih h.2 hwaits' hticks'
      exact ⟨i :: pre, j, post, by rw [his]; rfl, hend⟩

/-- The outputs of a run, one for each input. -/
def outputs (step : S → I → S) (out : S → I → O) : S → List I → List O
  | _, [] => []
  | s, i :: is => out s i :: outputs step out (step s i) is

/-- When each step of a machine is a run of another machine on what the step puts out, a run of the
first is one of the second on all that it puts out. -/
theorem Along.run_flatten_outputs {T : Type*} {step : S → I → S} {out : S → I → List O} {f : S → T}
    {fine : T → O → T} {G : S → I → Prop}
    (hstep : ∀ s i, G s i → f (step s i) = run fine (f s) (out s i)) {s : S} {is : List I}
    (h : Along step G s is) :
    f (run step s is) = run fine (f s) (outputs step out s is).flatten := by
  induction is generalizing s with
  | nil => rfl
  | cons i is ih => rw [run_cons, ih h.2, hstep s i h.1, outputs, List.flatten_cons, run_append]

/-- The outputs of those steps of a run whose input satisfies `own`. -/
def ownOutputs (step : S → I → S) (out : S → I → O) (own : I → Bool) : S → List I → List O
  | _, [] => []
  | s, i :: is =>
    if own i then out s i :: ownOutputs step out own (step s i) is
    else ownOutputs step out own (step s i) is

/-- When a relation `R` between the state of a run and the state of the run of its own inputs alone
is kept by every step under `G`, own or not, and own steps from related states give the same output,
then the own outputs of the whole run are those of the run of the own inputs alone. -/
theorem Along.ownOutputs_eq {step : S → I → S} {out : S → I → O} {own : I → Bool}
    {G : S → I → Prop} {R : S → S → Prop}
    (hown : ∀ s t i, own i = true → G s i → R s t → R (step s i) (step t i) ∧ out s i = out t i)
    (hother : ∀ s t i, own i = false → G s i → R s t → R (step s i) t) {s t : S} {is : List I}
    (hR : R s t) (h : Along step G s is) :
    ownOutputs step out own s is = outputs step out t (is.filter own) := by
  induction is generalizing s t with
  | nil => rfl
  | cons i is ih =>
    cases hi : own i
    · simp only [ownOutputs, hi, Bool.false_eq_true, ↓reduceIte, List.filter_cons]
      exact ih (hother s t i hi h.1 hR) h.2
    · obtain ⟨hR', hout⟩ := hown s t i hi h.1 hR
      simp only [ownOutputs, hi, ↓reduceIte, List.filter_cons, outputs, hout]
      rw [ih hR' h.2]

end Lib
