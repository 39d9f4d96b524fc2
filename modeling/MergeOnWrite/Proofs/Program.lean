/-
What programs ask, and how sequences of them run.

# Main statements

- `Program.run_bind`: a sequence runs as its parts do, one after the other.
- `Program.yields_bind`: a conversation with a sequence is one with each of
  its parts.
- `Program.yields_talk`: what a run asks and is answered is a conversation in
  which the program comes to the result of the run.
- `Program.wellFounded_goesOn`: a program goes on only so often.
-/
import MergeOnWrite.Program

namespace MergeOnWrite

namespace Program

variable {Q : Type} {A : Q → Type} {α β : Type}

/-- True of programs that ask questions of a kind only. -/
def Asks (kind : Q → Prop) : Program Q A α → Prop
  | .done _ => True
  | .ask q next => kind q ∧ ∀ x, (next x).Asks kind

theorem Asks.bind {kind : Q → Prop} {p : Program Q A α}
    {f : α → Program Q A β} (hp : p.Asks kind) (hf : ∀ a, (f a).Asks kind) :
    (p.bind f).Asks kind := by
  induction p with
  | done a => exact hf a
  | ask q next ih => exact ⟨hp.1, fun x => ih x (hp.2 x)⟩

/-- True of what may be left of a program after its first question. -/
def GoesOn (rest : Program Q A α) : Program Q A α → Prop
  | .done _ => False
  | .ask _ next => ∃ x, rest = next x

/-- A program goes on only so often, whatever it is answered. -/
theorem wellFounded_goesOn :
    WellFounded (GoesOn (Q := Q) (A := A) (α := α)) := by
  refine ⟨fun p => ?_⟩
  induction p with
  | done a => exact ⟨_, fun rest h => h.elim⟩
  | ask q next ih =>
      refine ⟨_, fun rest h => ?_⟩
      obtain ⟨x, rfl⟩ := h
      exact ih x

theorem run_ask {σ : Type} (answer : σ → (q : Q) → σ × A q) (q : Q)
    (next : A q → Program Q A α) (state : σ) :
    (ask q next).run answer state
      = (next (answer state q).2).run answer (answer state q).1 :=
  rfl

/-- A sequence runs as its parts do, one after the other. -/
theorem run_bind {σ : Type} (answer : σ → (q : Q) → σ × A q)
    (p : Program Q A α) (f : α → Program Q A β) (state : σ) :
    (p.bind f).run answer state
      = (f (p.run answer state).2).run answer (p.run answer state).1 := by
  induction p generalizing state with
  | done a => rfl
  | ask q next ih => exact ih _ _

/-- True when a program comes to a result in a conversation: what it asks
and what it is answered, one after the other. -/
def Yields : Program Q A α → List ((q : Q) × A q) → α → Prop
  | .done a, log, b => log = [] ∧ b = a
  | .ask q next, log, b =>
    ∃ x rest, log = ⟨q, x⟩ :: rest ∧ (next x).Yields rest b

theorem yields_bind {p : Program Q A α} {f : α → Program Q A β} {b : β} :
    ∀ {log : List ((q : Q) × A q)}, (p.bind f).Yields log b
      ↔ ∃ first a rest, log = first ++ rest ∧ p.Yields first a
        ∧ (f a).Yields rest b := by
  induction p with
  | done a =>
      intro log
      constructor
      · intro h
        exact ⟨[], a, log, rfl, ⟨rfl, rfl⟩, h⟩
      · rintro ⟨_, _, rest, rfl, ⟨rfl, rfl⟩, h⟩
        exact h
  | ask q next ih =>
      intro log
      constructor
      · rintro ⟨x, rest, rfl, h⟩
        obtain ⟨first, a, rest, rfl, hp, hf⟩ := (ih x).1 h
        exact ⟨⟨q, x⟩ :: first, a, rest, rfl, ⟨x, first, rfl, hp⟩, hf⟩
      · rintro ⟨_, a, rest, rfl, ⟨x, first, rfl, hp⟩, hf⟩
        exact ⟨x, first ++ rest, rfl, (ih x).2 ⟨first, a, rest, rfl, hp, hf⟩⟩

section Talk

variable {σ : Type} (answer : σ → (q : Q) → σ × A q)

/-- What is asked and answered in a run. -/
def talk : Program Q A α → σ → List ((q : Q) × A q)
  | .done _, _ => []
  | .ask q next, state =>
    ⟨q, (answer state q).2⟩
      :: (next (answer state q).2).talk (answer state q).1

theorem yields_talk (p : Program Q A α) (state : σ) :
    p.Yields (p.talk answer state) (p.run answer state).2 := by
  induction p generalizing state with
  | done a => exact ⟨rfl, rfl⟩
  | ask q next ih => exact ⟨_, _, rfl, ih _ _⟩

theorem talk_bind (p : Program Q A α) (f : α → Program Q A β) (state : σ) :
    (p.bind f).talk answer state = p.talk answer state
      ++ (f (p.run answer state).2).talk answer (p.run answer state).1 := by
  induction p generalizing state with
  | done a => rfl
  | ask q next ih => exact congrArg (List.cons _) (ih _ _)

end Talk

end Program

end MergeOnWrite
