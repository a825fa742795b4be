import Mathlib.Data.List.DropRight

/-! Logs of events: the part of a log since the last event of a kind, and logs in which the events
before each event justify it. -/

namespace Lib

variable {E : Type*} {p : E → Bool} {J : List E → E → Prop}

/-- The events after the last one that satisfies `p`, or all if none does. -/
def since (p : E → Bool) (log : List E) : List E := log.rtakeWhile fun e => !p e

@[simp] theorem since_nil : since p [] = [] := rfl

/-- Events are added to the part since the last one that satisfies `p`, or they begin a new one. -/
@[simp] theorem since_append_cons (log : List E) (e : E) (es : List E) :
    since p (log ++ e :: es) =
      if (e :: es).any p then since p (e :: es) else since p log ++ e :: es := by
  generalize e :: es = es
  induction es using List.reverseRecOn with
  | nil => simp
  | append_singleton es e ih =>
    cases he : p e
    · simp only [since, ← List.append_assoc, he, List.rtakeWhile_concat, Bool.not_false, ↓reduceIte,
        List.any_append, List.any_cons, List.any_nil, Bool.or_false]
      rw [← since, ← since, ← since, ih]
      split <;> simp
    · simp [since, ← List.append_assoc, he]

@[simp] theorem since_singleton (e : E) : since p [e] = if p e then [] else [e] := by
  cases he : p e <;> simp [since, List.rtakeWhile, he]

@[simp] theorem since_cons_cons (e f : E) (es : List E) :
    since p (e :: f :: es) =
      if (f :: es).any p then since p (f :: es) else since p [e] ++ f :: es :=
  since_append_cons [e] f es

/-- Each of the events `es` after `log` is justified by those before it. -/
def JustifiedFrom (J : List E → E → Prop) : List E → List E → Prop
  | _, [] => True
  | log, e :: es => J log e ∧ JustifiedFrom J (log ++ [e]) es

/-- Each event of the log is justified by those before it. -/
def JustifiedLog (J : List E → E → Prop) (log : List E) : Prop := JustifiedFrom J [] log

theorem justifiedFrom_append {log es fs : List E} :
    JustifiedFrom J log (es ++ fs) ↔ JustifiedFrom J log es ∧ JustifiedFrom J (log ++ es) fs := by
  induction es generalizing log with
  | nil => simp [JustifiedFrom]
  | cons e es ih => simp [JustifiedFrom, ih, and_assoc]

theorem justifiedLog_append {log es : List E} :
    JustifiedLog J (log ++ es) ↔ JustifiedLog J log ∧ JustifiedFrom J log es := by
  have h := @justifiedFrom_append E J [] log es
  rwa [List.nil_append] at h

theorem JustifiedLog.justified {log pre post : List E} {e : E} (h : JustifiedLog J log)
    (hlog : log = pre ++ e :: post) : J pre e := by
  subst hlog
  exact (justifiedLog_append.mp h).2.1

end Lib
