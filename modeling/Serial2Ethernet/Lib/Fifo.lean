/-
# A FIFO that fills while it is read

Effects happen one after another. Some of them take the oldest element of the
FIFO, the others leave it alone, and before each of them, and after the last,
elements arrive. Whatever the order, what has been taken followed by what is
left is what has arrived (`Accounts`).
-/
import Mathlib

namespace Lib

variable {α ε : Type} (arriving : ℕ → List α) (takes : ε → Prop) [DecidablePred takes]

/-- One effect, and what arrives after it. -/
def fifoStep (s : ℕ × List α) (e : ε) : ℕ × List α :=
  (s.1 + 1, (if takes e then s.2.tail else s.2) ++ arriving (s.1 + 1))

/-- The contents after some effects. -/
def fifo (es : List ε) : List α := (es.foldl (fifoStep arriving takes) (0, arriving 0)).2

/-- What has arrived when `n` effects have happened. -/
def arrived (n : ℕ) : List α := (List.range (n + 1)).flatMap arriving

/-- What has been taken, followed by what is left, is what has arrived. -/
def Accounts (taken : List α) (es : List ε) : Prop :=
  taken ++ fifo arriving takes es = arrived arriving es.length

theorem foldl_fifoStep (es : List ε) :
    es.foldl (fifoStep arriving takes) (0, arriving 0) = (es.length, fifo arriving takes es) := by
  refine Prod.ext ?_ rfl
  induction es using List.reverseRecOn with
  | nil => rfl
  | append_singleton es e ih =>
    rw [List.foldl_append, List.length_append]
    exact congrArg (· + 1) ih

theorem fifo_append (es : List ε) (e : ε) : fifo arriving takes (es ++ [e]) =
    (if takes e then (fifo arriving takes es).tail else fifo arriving takes es) ++
      arriving (es.length + 1) := by
  rw [fifo, List.foldl_append, foldl_fifoStep]
  rfl

theorem arrived_succ (n : ℕ) : arrived arriving (n + 1) = arrived arriving n ++ arriving (n + 1) := by
  rw [arrived, List.range_succ, List.flatMap_append, List.flatMap_singleton]
  rfl

theorem accounts_nil : Accounts arriving takes [] [] := by
  simp [Accounts, fifo, arrived]

variable {arriving takes} {taken : List α} {es : List ε} {e : ε}

/-- An effect that leaves the FIFO alone. -/
theorem Accounts.pass (h : Accounts arriving takes taken es) (he : ¬ takes e) :
    Accounts arriving takes taken (es ++ [e]) := by
  unfold Accounts at h ⊢
  calc taken ++ fifo arriving takes (es ++ [e])
      = taken ++ fifo arriving takes es ++ arriving (es.length + 1) := by
        rw [fifo_append, if_neg he, List.append_assoc]
    _ = arrived arriving (es.length + 1) := by rw [h, arrived_succ]
    _ = arrived arriving (es ++ [e]).length := by rw [List.length_append, List.length_singleton]

/-- An effect that takes the oldest element. -/
theorem Accounts.take (h : Accounts arriving takes taken es) (he : takes e) {a : α} {rest : List α}
    (ha : fifo arriving takes es = a :: rest) : Accounts arriving takes (taken ++ [a]) (es ++ [e]) := by
  unfold Accounts at h ⊢
  rw [ha] at h
  calc taken ++ [a] ++ fifo arriving takes (es ++ [e])
      = taken ++ a :: rest ++ arriving (es.length + 1) := by
        rw [fifo_append, if_pos he, ha, List.tail_cons]
        simp
    _ = arrived arriving (es.length + 1) := by rw [h, arrived_succ]
    _ = arrived arriving (es ++ [e]).length := by rw [List.length_append, List.length_singleton]

theorem Accounts.passes (es' : List ε) (h : Accounts arriving takes taken es)
    (hall : ∀ e ∈ es', ¬ takes e) : Accounts arriving takes taken (es ++ es') := by
  induction es' generalizing es with
  | nil => rwa [List.append_nil]
  | cons e es' ih =>
    rw [List.forall_mem_cons] at hall
    have hrest := ih (h.pass hall.1) hall.2
    rwa [List.append_assoc] at hrest

theorem length_fifo_pass (he : ¬ takes e) :
    (fifo arriving takes es).length ≤ (fifo arriving takes (es ++ [e])).length := by
  rw [fifo_append, if_neg he, List.length_append]
  exact Nat.le_add_right _ _

theorem length_fifo_take {a : α} {rest : List α} (he : takes e)
    (ha : fifo arriving takes es = a :: rest) :
    rest.length ≤ (fifo arriving takes (es ++ [e])).length := by
  rw [fifo_append, if_pos he, ha, List.tail_cons, List.length_append]
  exact Nat.le_add_right _ _

end Lib
