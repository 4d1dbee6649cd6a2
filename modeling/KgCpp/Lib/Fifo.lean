import Mathlib.Data.List.Basic
import Mathlib.Tactic

/-!
# Queues and what has passed through them

A queue is a list: elements go in at the back and come out at the front. An
`Event` is what one operation did to it, `Steps l es l'` that the events took the
content from `l` to `l'`. Since the last clearing, what went in is what came out
followed by what is still there (`Steps.puts_eq`).
-/

namespace Lib

namespace Fifo

universe u

variable {α : Type u}

/-- What an operation did to a queue. -/
inductive Event (α : Type u) where
  | put (xs : List α)
  | take (xs : List α)
  | look
  | clear

/-- The content before and after an event. -/
inductive Step : List α → Event α → List α → Prop
  | put (l xs : List α) : Step l (.put xs) (l ++ xs)
  | take (xs l : List α) : Step (xs ++ l) (.take xs) l
  | look (l : List α) : Step l .look l
  | clear (l : List α) : Step l .clear []

/-- The content before and after a history of events. -/
inductive Steps (l : List α) : List (Event α) → List α → Prop
  | nil : Steps l [] l
  | snoc {es : List (Event α)} {m l' : List α} {e : Event α} :
      Steps l es m → Step m e l' → Steps l (es ++ [e]) l'

/-- What went in since the last clearing. -/
def puts (es : List (Event α)) : List α :=
  es.foldl (fun acc e =>
    match e with
    | .put xs => acc ++ xs
    | .clear => []
    | _ => acc) []

/-- What came out since the last clearing. -/
def takes (es : List (Event α)) : List α :=
  es.foldl (fun acc e =>
    match e with
    | .take xs => acc ++ xs
    | .clear => []
    | _ => acc) []

section History

variable (es : List (Event α)) (xs : List α)

@[simp] theorem puts_put : puts (es ++ [.put xs]) = puts es ++ xs := by
  rw [puts, List.foldl_append]
  rfl

@[simp] theorem puts_take : puts (es ++ [.take xs]) = puts es := by
  rw [puts, List.foldl_append]
  rfl

@[simp] theorem puts_look : puts (es ++ [.look]) = puts es := by
  rw [puts, List.foldl_append]
  rfl

@[simp] theorem puts_clear : puts (es ++ [.clear]) = [] := by
  rw [puts, List.foldl_append]
  rfl

@[simp] theorem takes_put : takes (es ++ [.put xs]) = takes es := by
  rw [takes, List.foldl_append]
  rfl

@[simp] theorem takes_take : takes (es ++ [.take xs]) = takes es ++ xs := by
  rw [takes, List.foldl_append]
  rfl

@[simp] theorem takes_look : takes (es ++ [.look]) = takes es := by
  rw [takes, List.foldl_append]
  rfl

@[simp] theorem takes_clear : takes (es ++ [.clear]) = [] := by
  rw [takes, List.foldl_append]
  rfl

end History

/-- **Conservation**: what went into a queue that began empty is what came out of
it, in order, and then what it holds. -/
theorem Steps.puts_eq {es : List (Event α)} {l : List α} (h : Steps [] es l) :
    puts es = takes es ++ l := by
  induction h with
  | nil => rfl
  | snoc _ hstep ih =>
    cases hstep with
    | put l xs => rw [puts_put, takes_put, ih, List.append_assoc]
    | take xs l => rw [puts_take, takes_take, ih, List.append_assoc]
    | look l => rw [puts_look, takes_look, ih]
    | clear l => rw [puts_clear, takes_clear, List.append_nil]

end Fifo

end Lib
