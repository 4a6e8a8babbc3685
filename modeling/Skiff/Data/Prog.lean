import Mathlib.Tactic.Common

/-!
# Sequential programs over a set of operations

A `Prog Op Res α` is a program that performs operations `o : Op`, receives an
answer of type `Res o` to each, and ends with a value. It says nothing about what
the operations do, so one program text can be run by several parties against a
shared component, one operation at a time.

`Prog.wp` is the rule used for such parties. A ghost state follows the answers the
program has seen, `ok` is what must hold before each operation is issued, and the
rule speaks only about this one program: whatever happens between its operations
is visible to it through the answers alone.
-/

namespace Skiff

inductive Prog (Op : Type) (Res : Op → Type) (α : Type) where
  | ret (value : α)
  | op (o : Op) (next : Res o → Prog Op Res α)

namespace Prog

variable {Op : Type} {Res : Op → Type} {α β : Type}

def bind (p : Prog Op Res α) (f : α → Prog Op Res β) : Prog Op Res β :=
  match p with
  | ret value => f value
  | op o next => op o fun answer => (next answer).bind f

instance : Monad (Prog Op Res) where
  pure := ret
  bind := bind

/-- Perform one operation and return its answer. -/
def perform (o : Op) : Prog Op Res (Res o) := op o ret

@[simp] theorem pure_eq (value : α) : (pure value : Prog Op Res α) = ret value := rfl

@[simp] theorem ret_bind (value : α) (f : α → Prog Op Res β) : (ret value >>= f) = f value := rfl

@[simp] theorem op_bind (o : Op) (next : Res o → Prog Op Res α) (f : α → Prog Op Res β) :
    (op o next >>= f) = op o fun answer => next answer >>= f := rfl

variable {f : α → Prog Op Res β}

section Wp

variable {γ : Type} (seen : γ → (o : Op) → Res o → γ) (ok : γ → Op → Prop)

/-- Every operation the program can issue is `ok` for the answers seen so far, and
every way to finish satisfies `post`. -/
def wp : Prog Op Res α → γ → (γ → α → Prop) → Prop
  | ret value, ghost, post => post ghost value
  | op o next, ghost, post => ok ghost o ∧ ∀ answer, wp (next answer) (seen ghost o answer) post

variable {seen ok}

theorem wp_mono {p : Prog Op Res α} {ghost : γ} {post post' : γ → α → Prop}
    (h : wp seen ok p ghost post) (weaker : ∀ ghost value, post ghost value → post' ghost value) :
    wp seen ok p ghost post' := by
  induction p generalizing ghost with
  | ret value => exact weaker ghost value h
  | op o next ih => exact ⟨h.1, fun answer => ih answer (h.2 answer)⟩

/-- Sequencing: the second program starts from the ghost state the first leaves. -/
theorem wp_bind {p : Prog Op Res α} {ghost : γ} {post : γ → β → Prop}
    (h : wp seen ok p ghost fun ghost value => wp seen ok (f value) ghost post) :
    wp seen ok (p >>= f) ghost post := by
  induction p generalizing ghost with
  | ret value => exact h
  | op o next ih => exact ⟨h.1, fun answer => ih answer (h.2 answer)⟩

end Wp

section Runs

/-- A whole run: the operations performed with their answers, and the value at the end. -/
inductive Runs : Prog Op Res α → List ((o : Op) × Res o) → α → Prop
  | ret (value : α) : Runs (ret value) [] value
  | op {o : Op} {next : Res o → Prog Op Res α} {trace : List ((o : Op) × Res o)} {value : α}
      (answer : Res o) (h : Runs (next answer) trace value) :
      Runs (op o next) (⟨o, answer⟩ :: trace) value

variable {p : Prog Op Res α} {trace : List ((o : Op) × Res o)}

theorem runs_ret {value value' : α} : Runs (ret value : Prog Op Res α) trace value' ↔
    trace = [] ∧ value' = value := by
  constructor
  · intro h
    cases h
    exact ⟨rfl, rfl⟩
  rintro ⟨rfl, rfl⟩
  exact .ret value'

theorem runs_op {o : Op} {next : Res o → Prog Op Res α} {value : α} :
    Runs (op o next) trace value ↔
      ∃ answer rest, trace = ⟨o, answer⟩ :: rest ∧ Runs (next answer) rest value := by
  constructor
  · intro h
    cases h with
    | op answer h => exact ⟨answer, _, rfl, h⟩
  rintro ⟨answer, rest, rfl, h⟩
  exact .op answer h

/-- A run of a sequence is a run of the first program and then one of the second. -/
theorem Runs.of_bind {value : β} (h : Runs (p >>= f) trace value) :
    ∃ before a after, trace = before ++ after ∧ Runs p before a ∧ Runs (f a) after value := by
  induction p generalizing trace with
  | ret a => exact ⟨[], a, trace, rfl, .ret a, h⟩
  | op o next ih =>
    obtain ⟨answer, rest, rfl, hrest⟩ := runs_op.mp h
    obtain ⟨before, a, after, rfl, hp, hf⟩ := ih answer hrest
    exact ⟨_, a, after, rfl, .op answer hp, hf⟩

/-- What holds before each operation of a program holds of each operation of its runs. -/
theorem Runs.ok_of_wp {ok : Op → Prop} {post : Unit → α → Prop} {value : α}
    (h : Runs p trace value) (hwp : wp (fun _ _ _ => ()) (fun _ => ok) p () post) :
    ∀ performed ∈ trace, ok performed.1 := by
  induction h with
  | ret value => exact fun performed hmem => absurd hmem List.not_mem_nil
  | op answer h ih =>
    intro performed hmem
    obtain rfl | hmem := List.mem_cons.mp hmem
    · exact hwp.1
    · exact ih (hwp.2 answer) performed hmem

end Runs

end Prog
end Skiff
