/-
Programs that ask questions of their surroundings.

A program is either done or asks one question and goes on with the
answer. What may be asked, and what an answer is, is up to the family of
questions `Q`; who answers, and from which state, is up to who runs the
program.

# Main statements

- `instLawfulMonad`: programs compose as a sequence of questions does, so
  a composed program can be read and reasoned about line by line.
-/

namespace MergeOnWrite

/-- A program that asks questions of a family; `A q` is what the answer to
the question `q` is. -/
inductive Program (Q : Type) (A : Q → Type) (α : Type) where
  | done (a : α)
  | ask (q : Q) (next : A q → Program Q A α)

namespace Program

variable {Q : Type} {A : Q → Type} {α β : Type}

/-- Goes on with the result of a program. -/
def bind : Program Q A α → (α → Program Q A β) → Program Q A β
  | .done a, f => f a
  | .ask q next, f => .ask q fun x => (next x).bind f

instance : Monad (Program Q A) where
  pure := .done
  bind := bind

theorem bind_done (p : Program Q A α) : p.bind .done = p := by
  induction p with
  | done a => rfl
  | ask q next ih => simp [bind, ih]

theorem bind_assoc {γ : Type} (p : Program Q A α) (f : α → Program Q A β)
    (g : β → Program Q A γ) :
    (p.bind f).bind g = p.bind fun a => (f a).bind g := by
  induction p with
  | done a => rfl
  | ask q next ih => simp [bind, ih]

instance instLawfulMonad : LawfulMonad (Program Q A) :=
  LawfulMonad.mk' (Program Q A) bind_done (fun _ _ => rfl) bind_assoc

/-- The result of a program whose questions are answered one by one from a
state. -/
def run {σ : Type} (answer : σ → (q : Q) → σ × A q) :
    Program Q A α → σ → σ × α
  | .done a, state => (state, a)
  | .ask q next, state =>
    let (state, x) := answer state q
    (next x).run answer state

end Program

end MergeOnWrite
