import InternetPrinting.Fault
import InternetPrinting.Http.Exchange

/-!
# Dialogues with a server

A dialogue is what a client does between two points of rest: it ends with a
result, or it makes a call and goes on as the outcome tells it. It does not
say how calls are carried. A transport does: it carries one call at a time,
can be closed, and knows whether it holds a connection. Running a dialogue
over a transport yields the result and every call in order with its outcome.
-/

namespace InternetPrinting.Http

/-- How a call ended. -/
abbrev Outcome := Except Fault Reply

/-- A result, or a call and what follows each of its outcomes. -/
inductive Dialogue (α : Type)
  | done (result : α)
  | call (call : Call) (next : Outcome → Dialogue α)

namespace Dialogue

variable {α β γ : Type}

/-- Go on with another dialogue when one has ended. -/
def bind : Dialogue α → (α → Dialogue β) → Dialogue β
  | .done result, f => f result
  | .call c next, f => .call c fun outcome => (next outcome).bind f

instance : Monad Dialogue where
  pure := .done
  bind := bind

/-- Make one call and end with its outcome. -/
def ask (c : Call) : Dialogue Outcome :=
  .call c .done

@[simp] theorem bind_done (result : α) (f : α → Dialogue β) :
    (done result).bind f = f result := rfl

@[simp] theorem bind_call (c : Call) (next : Outcome → Dialogue α) (f : α → Dialogue β) :
    (call c next).bind f = call c fun outcome => (next outcome).bind f := rfl

theorem bind_assoc (d : Dialogue α) (f : α → Dialogue β) (g : β → Dialogue γ) :
    (d.bind f).bind g = d.bind fun result => (f result).bind g := by
  induction d with
  | done result => rfl
  | call c next ih => simp only [bind_call, ih]

theorem bind_done_right (d : Dialogue α) : d.bind done = d := by
  induction d with
  | done result => rfl
  | call c next ih => simp only [bind_call, ih]

end Dialogue

/-- Something that carries calls, with states of type `σ`. -/
structure Transport (σ : Type) where
  send : σ → Call → Outcome × σ
  close : σ → σ
  isConnected : σ → Bool

/-- What came of a dialogue: its result, the calls in order with their
outcomes, and the state of the transport behind them. -/
structure Run (σ α : Type) where
  result : α
  exchanges : List (Call × Outcome)
  state : σ

/-- The calls of a dialogue in order. -/
def Run.calls {σ α : Type} (r : Run σ α) : List Call :=
  r.exchanges.map (·.1)

namespace Dialogue

variable {σ α β : Type}

/-- Carry out a dialogue. -/
def run (t : Transport σ) (state : σ) : Dialogue α → Run σ α
  | .done result => ⟨result, [], state⟩
  | .call c next =>
    let sent := t.send state c
    let rest := run t sent.2 (next sent.1)
    ⟨rest.result, (c, sent.1) :: rest.exchanges, rest.state⟩

@[simp] theorem run_done (t : Transport σ) (state : σ) (result : α) :
    run t state (done result) = ⟨result, [], state⟩ := rfl

/-- A dialogue after another starts where the other one left the transport,
and its exchanges come behind. -/
theorem run_bind (t : Transport σ) (state : σ) (d : Dialogue α) (f : α → Dialogue β) :
    run t state (d.bind f) =
      let first := run t state d
      let second := run t first.state (f first.result)
      ⟨second.result, first.exchanges ++ second.exchanges, second.state⟩ := by
  induction d generalizing state with
  | done result => rfl
  | call c next ih => simp [run, ih]

end Dialogue

end InternetPrinting.Http
