import InternetPrinting.Http.Dialogue
import Mathlib.Data.List.Forall2

/-!
# Dialogues in lockstep

Two dialogues are in lockstep if they make matching calls for as long as their
calls have the same outcomes, and end together with matching results. Two runs
of them over transports of any kind then match up to where the outcomes differ,
so throughout if the outcomes never do.
-/

namespace InternetPrinting.Http

/-- Lists one of which continues the other. -/
def Comparable {α : Type} (xs ys : List α) : Prop :=
  xs <+: ys ∨ ys <+: xs

theorem comparable_cons {α : Type} {x y : α} {xs ys : List α} :
    Comparable (x :: xs) (y :: ys) ↔ x = y ∧ Comparable xs ys := by
  simp only [Comparable, List.cons_prefix_cons]
  constructor
  · rintro (⟨rfl, first⟩ | ⟨rfl, second⟩)
    · exact ⟨rfl, .inl first⟩
    · exact ⟨rfl, .inr second⟩
  · rintro ⟨rfl, first | second⟩
    · exact .inl ⟨rfl, first⟩
    · exact .inr ⟨rfl, second⟩

/-- The outcomes of the calls of a dialogue in order. -/
def Run.outcomes {σ α : Type} (r : Run σ α) : List Outcome :=
  r.exchanges.map (·.2)

namespace Dialogue

variable {α β γ δ : Type} {calls : Call → Call → Prop} {results : α → β → Prop}
  {lastResults : γ → δ → Prop}

/-- Dialogues that make matching calls as long as the outcomes are the same, and
end with matching results. -/
inductive Lockstep (calls : Call → Call → Prop) (results : α → β → Prop) :
    Dialogue α → Dialogue β → Prop
  | done {a : α} {b : β} (same : results a b) : Lockstep calls results (.done a) (.done b)
  | call {c d : Call} {next : Outcome → Dialogue α} {next' : Outcome → Dialogue β}
      (same : calls c d) (rest : ∀ outcome, Lockstep calls results (next outcome) (next' outcome)) :
      Lockstep calls results (.call c next) (.call d next')

namespace Lockstep

variable {d : Dialogue α} {e : Dialogue β} {f : α → Dialogue γ} {g : β → Dialogue δ}

theorem bind (first : Lockstep calls results d e)
    (second : ∀ a b, results a b → Lockstep calls lastResults (f a) (g b)) :
    Lockstep calls lastResults (d.bind f) (e.bind g) := by
  induction first with
  | done same => exact second _ _ same
  | call same rest ih => exact .call same ih

/-- Runs in lockstep match if their outcomes, and whatever outcomes come behind
them, do not differ before one of the sequences ends. -/
theorem run (lockstep : Lockstep calls results d e) {σ τ : Type} (t : Transport σ)
    (u : Transport τ) (s : σ) (s' : τ) {rest rest' : List Outcome}
    (agree : Comparable ((d.run t s).outcomes ++ rest) ((e.run u s').outcomes ++ rest')) :
    results (d.run t s).result (e.run u s').result ∧
      List.Forall₂ calls (d.run t s).calls (e.run u s').calls ∧ Comparable rest rest' := by
  induction lockstep generalizing s s' with
  | done same => exact ⟨same, .nil, agree⟩
  | @call c d next next' same _ ih =>
      -- The outcomes of the two calls head the sequences, so they are equal.
      obtain ⟨outcome, behind⟩ : (t.send s c).1 = (u.send s' d).1 ∧ _ := comparable_cons.mp agree
      simp only [Dialogue.run, ← outcome] at behind ⊢
      obtain ⟨ended, matching, left⟩ := ih (t.send s c).1 _ _ behind
      exact ⟨ended, .cons same matching, left⟩

end Lockstep

end Dialogue

end InternetPrinting.Http
