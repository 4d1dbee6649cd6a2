import KgCpp.Bytes.Fragmentation
import KgCpp.Lib.Fifo
import KgCpp.Lib.Run

/-!
# A fragment as a linear queue

`FragmentationFields` has the bare fields of `basic_fragmentation_t`: a pointer that may
be null and three counters whose arithmetic wraps, with copies that go wrong
outside the array. Nothing is promised about the fields; `Fragmentation` is what
they are in every state the calls can reach (`fields_step`), so in no run does a
counter wrap or a copy leave the array.

`fragmentation_linear`: after any calls, what was written since the last `reinit`
or `reset` is what was read since, followed by the readable bytes.
-/

namespace KgCpp.Bytes

open Lib

/-- `memcpy` of `n` bytes out of an array, from position `pos` on. -/
def load (array : Option (List Byte)) (pos n : Nat) : Option (List Byte) :=
  if n = 0 then some []
  else array.bind fun a => if pos + n ≤ a.length then some (window a pos n) else none

/-- `memcpy` of bytes into an array, from position `pos` on. -/
def store (array : Option (List Byte)) (pos : Nat) (bytes : List Byte) :
    Option (Option (List Byte)) :=
  if bytes = [] then some array
  else array.bind fun a =>
    if pos + bytes.length ≤ a.length then some (some (blit a pos bytes)) else none

theorem load_some {a : List Byte} {pos n : Nat} (h : pos + n ≤ a.length) :
    load (some a) pos n = some (window a pos n) := by
  unfold load
  split
  · rename_i hn
    rw [hn, window_zero]
  · exact if_pos h

theorem store_some {a bytes : List Byte} {pos : Nat} (h : pos + bytes.length ≤ a.length) :
    store (some a) pos bytes = some (some (blit a pos bytes)) := by
  unfold store
  split
  · rename_i hn
    rw [hn, blit_nil]
  · exact if_pos h

/-- The fields of `basic_fragmentation_t`. -/
structure FragmentationFields where
  array : Option (List Byte)
  capacity : Nat
  offset : Nat
  size : Nat
deriving DecidableEq

namespace FragmentationFields

/-- The constructor, as `Fragmentation.create`. -/
def create (fresh : Nat → Nat → Byte) (k size : Nat) (arrayFails : Bool) :
    FragmentationFields :=
  if size = 0 then ⟨none, 0, 0, 0⟩
  else if arrayFails then ⟨none, 0, 0, 0⟩
  else ⟨some (createArray fresh k size), size, 0, 0⟩

/-- `reinit`. -/
def reinit (f : FragmentationFields) : FragmentationFields :=
  { f with offset := 0, size := 0 }

/-- `reset`. -/
def reset (_ : FragmentationFields) : FragmentationFields := ⟨none, 0, 0, 0⟩

/-- `get_free`. -/
def getFree (f : FragmentationFields) : Nat := subSize (subSize f.capacity f.offset) f.size

/-- `write`. -/
def write (f : FragmentationFields) (bytes : List Byte) : Option (Nat × FragmentationFields) := do
  let free := f.getFree
  let need := if bytes.length > free then free else bytes.length
  let array ← store f.array (f.offset + f.size) (bytes.take need)
  pure (need, { f with array := array, size := addSize f.size need })

/-- `read`. -/
def read (f : FragmentationFields) (n : Nat) :
    Option (Nat × List Byte × FragmentationFields) := do
  let need := if n > f.size then f.size else n
  let bytes ← load f.array f.offset need
  pure (need, bytes, { f with size := subSize f.size need, offset := addSize f.offset need })

/-- `copy_to` without skip. -/
def copyTo (f : FragmentationFields) (n : Nat) : Option (Nat × List Byte) := do
  let need := if n > f.size then f.size else n
  let bytes ← load f.array f.offset need
  pure (need, bytes)

/-- `copy_to` with skip. -/
def copyToSkip (f : FragmentationFields) (skip n : Nat) : Option (Nat × List Byte) :=
  if skip ≥ f.size then some (0, [])
  else do
    let offset := addSize f.offset skip
    let size := subSize f.size skip
    let need := if n > size then size else n
    let bytes ← load f.array offset need
    pure (need, bytes)

end FragmentationFields

/-! ## Calls -/

namespace Fragmentation

/-- A call on a fragment. -/
inductive Call where
  | write (bytes : List Byte)
  | read (n : Nat)
  | copyTo (n : Nat)
  | copyToSkip (skip n : Nat)
  | reinit
  | reset
deriving DecidableEq

/-- What a call returns, with the bytes it hands out. -/
abbrev Answer := Nat × List Byte

/-- What a call did to the readable bytes. -/
def Call.event : Call → Answer → Fifo.Event Byte
  | .write bytes, (n, _) => .put (bytes.take n)
  | .read _, (_, out) => .take out
  | .copyTo _, _ => .look
  | .copyToSkip _ _, _ => .look
  | .reinit, _ => .clear
  | .reset, _ => .clear

/-- What the calls did to the readable bytes. -/
def history (calls : List Call) (answers : List Answer) : List (Fifo.Event Byte) :=
  List.zipWith Call.event calls answers

/-- A call, on a fragment. -/
def step (f : Fragmentation) : Call → Fragmentation × Answer
  | .write bytes => ((f.write bytes).2, (f.write bytes).1, [])
  | .read n => ((f.read n).2.2, (f.read n).1, (f.read n).2.1)
  | .copyTo n => (f, f.copyTo n)
  | .copyToSkip skip n => (f, f.copyToSkip skip n)
  | .reinit => (f.reinit, 0, [])
  | .reset => (f.reset, 0, [])

end Fragmentation

namespace FragmentationFields

open Fragmentation (Call Answer)

/-- A call, on the bare fields. -/
def step (f : FragmentationFields) : Call → Option (FragmentationFields × Answer)
  | .write bytes => (f.write bytes).map fun p => (p.2, p.1, [])
  | .read n => (f.read n).map fun p => (p.2.2, p.1, p.2.1)
  | .copyTo n => (f.copyTo n).map fun p => (f, p)
  | .copyToSkip skip n => (f.copyToSkip skip n).map fun p => (f, p)
  | .reinit => some (f.reinit, 0, [])
  | .reset => some (f.reset, 0, [])

/-- Calls one after another. -/
def exec (f : FragmentationFields) : List Call → Option (FragmentationFields × List Answer)
  | [] => some (f, [])
  | c :: cs => (f.step c).bind fun p => (p.1.exec cs).map fun q => (q.1, p.2 :: q.2)

/-- The bytes at `[offset, offset + size)`. -/
def content (f : FragmentationFields) : List Byte := window (f.array.getD []) f.offset f.size

end FragmentationFields

/-! ## The fields of a fragment -/

namespace Fragmentation

open FragmentationFields (getFree)

variable (f : Fragmentation)

/-- The fields of a fragment: the pointer is null exactly with a capacity of 0. -/
def fields : FragmentationFields where
  array := if f.capacity = 0 then none else some f.array
  capacity := f.capacity
  offset := f.offset
  size := f.size

theorem fields_create (fresh : Nat → Nat → Byte) (k size : Nat) (arrayFails : Bool) :
    FragmentationFields.create fresh k size arrayFails =
      (create fresh k size arrayFails).fields := by
  unfold FragmentationFields.create create
  by_cases hsize : size = 0
  · rw [if_pos hsize, if_pos hsize]
    rfl
  · rw [if_neg hsize, if_neg hsize]
    cases arrayFails with
    | true => rfl
    | false =>
      show _ = FragmentationFields.mk (if size = 0 then none else _) _ _ _
      rw [if_neg hsize]
      rfl

theorem array_eq_nil (h : f.capacity = 0) : f.array = [] :=
  List.eq_nil_of_length_eq_zero (by rw [f.length_array, h])

@[simp] theorem fields_getD : f.fields.array.getD [] = f.array := by
  unfold fields
  by_cases h : f.capacity = 0
  · rw [if_pos h, f.array_eq_nil h]
    rfl
  · rw [if_neg h]
    rfl

theorem fields_content : f.fields.content = f.content := by
  rw [FragmentationFields.content, fields_getD]
  rfl

/-- Copies out of the array. -/
theorem load_fields {pos n : Nat} (h : pos + n ≤ f.capacity) :
    load f.fields.array pos n = some (window f.array pos n) := by
  by_cases hcap : f.capacity = 0
  · have hn : n = 0 := by omega
    rw [hn, window_zero]
    exact if_pos rfl
  · have harr : f.fields.array = some f.array := if_neg hcap
    rw [harr, load_some (by rw [f.length_array]; exact h)]

/-- Copies into the array: the pointer stays what it is. -/
theorem store_fields {pos : Nat} {bytes : List Byte} (h : pos + bytes.length ≤ f.capacity) :
    store f.fields.array pos bytes =
      some (if f.capacity = 0 then none else some (blit f.array pos bytes)) := by
  by_cases hcap : f.capacity = 0
  · have hn : bytes = [] := List.eq_nil_of_length_eq_zero (by omega)
    rw [if_pos hcap, hn, store, if_pos rfl, fields, if_pos hcap]
  · have harr : f.fields.array = some f.array := if_neg hcap
    rw [if_neg hcap, harr, store_some (by rw [f.length_array]; exact h)]

theorem fields_write (hcap : f.capacity < 2 ^ 64) (bytes : List Byte) :
    f.fields.write bytes = some ((f.write bytes).1, (f.write bytes).2.fields) := by
  have hacc := f.accepted_le bytes.length
  have hlen : (bytes.take (f.accepted bytes.length)).length = f.accepted bytes.length := by
    rw [List.length_take]
    omega
  have hstore : store f.fields.array (f.offset + f.size)
      (bytes.take (f.accepted bytes.length)) = _ := f.store_fields (by omega)
  have hsize : addSize f.size (f.accepted bytes.length) = f.size + f.accepted bytes.length :=
    addSize_of_lt (by omega)
  show (store f.fields.array (f.offset + f.size)
    (bytes.take (f.accepted bytes.length))).bind _ = _
  rw [hstore]
  show some (f.accepted bytes.length, FragmentationFields.mk _ f.capacity f.offset
    (addSize f.size (f.accepted bytes.length))) = _
  rw [hsize]
  rfl

theorem load_read (n : Nat) :
    load f.fields.array f.offset (f.available n) =
      some (window f.array f.offset (f.available n)) := by
  have hbound := f.bound
  have hav := f.available_eq n
  exact f.load_fields (by omega)

theorem fields_read (hcap : f.capacity < 2 ^ 64) (n : Nat) :
    f.fields.read n = some ((f.read n).1, (f.read n).2.1, (f.read n).2.2.fields) := by
  have hbound := f.bound
  have hav := f.available_eq n
  have hsize : subSize f.size (f.available n) = f.size - f.available n :=
    subSize_of_le (by omega)
  have hoffset : addSize f.offset (f.available n) = f.offset + f.available n :=
    addSize_of_lt (by omega)
  show (load f.fields.array f.offset (f.available n)).bind _ = _
  rw [f.load_read n]
  show some (f.available n, window f.array f.offset (f.available n),
    FragmentationFields.mk _ f.capacity (addSize f.offset (f.available n))
      (subSize f.size (f.available n))) = _
  rw [hsize, hoffset]
  rfl

theorem fields_copyTo (n : Nat) : f.fields.copyTo n = some (f.copyTo n) := by
  show (load f.fields.array f.offset (f.available n)).bind _ = _
  rw [f.load_read n]
  rfl

theorem fields_copyToSkip (hcap : f.capacity < 2 ^ 64) (skip n : Nat) :
    f.fields.copyToSkip skip n = some (f.copyToSkip skip n) := by
  have hbound := f.bound
  unfold FragmentationFields.copyToSkip copyToSkip
  show (if skip ≥ f.size then _ else _) = _
  split
  · rfl
  · rename_i hskip
    have hoffset : addSize f.offset skip = f.offset + skip := addSize_of_lt (by omega)
    have hsize : subSize f.size skip = f.size - skip := subSize_of_le (by omega)
    have hneed : (if n > f.size - skip then f.size - skip else n) ≤ f.size - skip := by
      split <;> omega
    show (load f.fields.array (addSize f.offset skip)
      (if n > subSize f.size skip then subSize f.size skip else n)).bind _ = _
    rw [hoffset, hsize, f.load_fields (by omega)]
    show some (if n > subSize f.size skip then subSize f.size skip else n, window f.array
      (f.offset + skip) (if n > f.size - skip then f.size - skip else n)) = _
    rw [hsize]

/-- Each call on the fields does what it does on the fragment. -/
theorem fields_step (hcap : f.capacity < 2 ^ 64) (c : Call) :
    f.fields.step c = some ((f.step c).1.fields, (f.step c).2) := by
  cases c with
  | write bytes =>
    rw [FragmentationFields.step, f.fields_write hcap]
    rfl
  | read n =>
    rw [FragmentationFields.step, f.fields_read hcap]
    rfl
  | copyTo n =>
    rw [FragmentationFields.step, f.fields_copyTo]
    rfl
  | copyToSkip skip n =>
    rw [FragmentationFields.step, f.fields_copyToSkip hcap]
    rfl
  | reinit => rfl
  | reset => rfl

theorem capacity_step (c : Call) :
    (f.step c).1.capacity = if c = .reset then 0 else f.capacity := by
  cases c <;> rfl

/-- Calls on the fields do what they do on the fragment. -/
theorem fields_exec (calls : List Call) (hcap : f.capacity < 2 ^ 64) :
    f.fields.exec calls = some ((run step f calls).1.fields, (run step f calls).2) := by
  induction calls generalizing f with
  | nil => rfl
  | cons c cs ih =>
    have hle : (f.step c).1.capacity < 2 ^ 64 := by
      rw [capacity_step]
      split <;> omega
    rw [FragmentationFields.exec, f.fields_step hcap c, Option.bind_some, ih _ hle]
    rfl

/-! ## What passes through a fragment -/

/-- A call does to the readable bytes what its event says. -/
theorem step_event (c : Call) :
    Fifo.Step f.content (c.event (f.step c).2) (f.step c).1.content := by
  cases c with
  | write bytes =>
    have hpre : bytes.take f.getFree = bytes.take (f.write bytes).1 := by
      show _ = bytes.take (f.accepted bytes.length)
      rw [accepted_eq, List.take_eq_take_iff]
      omega
    show Fifo.Step f.content (.put (bytes.take (f.write bytes).1)) (f.write bytes).2.content
    rw [content_write, hpre]
    exact .put _ _
  | read n =>
    obtain ⟨-, hout, hrest⟩ := f.read_eq n
    show Fifo.Step f.content (.take (f.read n).2.1) (f.read n).2.2.content
    rw [hout, hrest]
    conv => arg 1; rw [← List.take_append_drop n f.content]
    exact .take _ _
  | copyTo n => exact .look _
  | copyToSkip skip n => exact .look _
  | reinit =>
    show Fifo.Step f.content .clear f.reinit.content
    rw [content_reinit]
    exact .clear _
  | reset => exact .clear _

/-- The bytes before the readable ones. -/
def passed : List Byte := window f.array 0 f.offset

/-- The bytes read stay in the array, in front of the readable ones. -/
theorem passed_step (c : Call) {es : List (Fifo.Event Byte)} (h : f.passed = Fifo.takes es) :
    (f.step c).1.passed = Fifo.takes (es ++ [c.event (f.step c).2]) := by
  cases c with
  | write bytes =>
    have hbound := f.bound
    have hlen := f.length_array
    have hkeep : window (f.write bytes).2.array 0 f.offset = f.passed :=
      window_blit_left (by omega) (by omega)
    rw [Call.event, Fifo.takes_put, ← h]
    exact hkeep
  | read n =>
    have hjoin := window_append f.array 0 f.offset (f.available n)
    rw [Nat.zero_add] at hjoin
    rw [Call.event, Fifo.takes_take, ← h]
    exact hjoin.symm
  | copyTo n =>
    rw [Call.event, Fifo.takes_look, ← h]
    rfl
  | copyToSkip skip n =>
    rw [Call.event, Fifo.takes_look, ← h]
    rfl
  | reinit =>
    rw [Call.event, Fifo.takes_clear]
    exact window_zero _ _
  | reset =>
    rw [Call.event, Fifo.takes_clear]
    rfl

/-- What holds of a fragment and of the calls made on it so far. -/
structure Linear (calls : List Call) (answers : List Answer) (f : Fragmentation) : Prop where
  length_eq : answers.length = calls.length
  steps : Fifo.Steps [] (history calls answers) f.content
  passed : f.passed = Fifo.takes (history calls answers)

theorem linear_create (fresh : Nat → Nat → Byte) (k size : Nat) (arrayFails : Bool) :
    Linear [] [] (create fresh k size arrayFails) where
  length_eq := rfl
  steps := by
    rw [content_create]
    exact .nil
  passed := by
    unfold create
    split
    · rfl
    · split <;> rfl

variable {f}

theorem Linear.step {calls : List Call} {answers : List Answer} (h : Linear calls answers f)
    (c : Call) : Linear (calls ++ [c]) (answers ++ [(f.step c).2]) (f.step c).1 := by
  have hhistory : history (calls ++ [c]) (answers ++ [(f.step c).2]) =
      history calls answers ++ [c.event (f.step c).2] :=
    List.zipWith_append h.length_eq.symm
  exact
    { length_eq := by
        rw [List.length_append, List.length_append, h.length_eq]
        rfl
      steps := by
        rw [hhistory]
        exact h.steps.snoc (f.step_event c)
      passed := by
        rw [hhistory]
        exact f.passed_step c h.passed }

/-- After any calls on a new fragment. -/
theorem linear_run (fresh : Nat → Nat → Byte) (k size : Nat) (arrayFails : Bool)
    (calls : List Call) :
    Linear calls (run Fragmentation.step (create fresh k size arrayFails) calls).2
      (run Fragmentation.step (create fresh k size arrayFails) calls).1 :=
  run_history _ (fun _ => True) Linear (fun _ _ _ c h _ => h.step c) (linear_create ..) calls
    fun _ _ => trivial

theorem capacity_create (fresh : Nat → Nat → Byte) (k size : Nat) (arrayFails : Bool) :
    (create fresh k size arrayFails).capacity = if arrayFails then 0 else size := by
  unfold create
  by_cases hsize : size = 0
  · rw [if_pos hsize, hsize, ite_self]
    rfl
  · rw [if_neg hsize]
    cases arrayFails <;> rfl

theorem capacity_run (f : Fragmentation) (calls : List Call) :
    (run Fragmentation.step f calls).1.capacity = if .reset ∈ calls then 0 else f.capacity := by
  induction calls generalizing f with
  | nil => rfl
  | cons c cs ih =>
    show (run Fragmentation.step (f.step c).1 cs).1.capacity = _
    rw [ih, capacity_step]
    by_cases hc : c = .reset
    · rw [if_pos hc, ite_self, if_pos (by rw [hc]; exact List.mem_cons_self ..)]
    · have hmem : .reset ∈ c :: cs ↔ .reset ∈ cs := by
        rw [List.mem_cons, or_iff_right (Ne.symm hc)]
      rw [if_neg hc]
      exact if_congr hmem.symm rfl rfl

end Fragmentation

/-! ## The queue -/

namespace FragmentationFields

open Fragmentation (Call Answer history)

/-- The fields are those of a queue over the array through which `events` have passed. -/
structure LinearQueue (events : List (Fifo.Event Byte)) (f : FragmentationFields) : Prop where
  /-- The array has `capacity` bytes. -/
  array : (f.array.getD []).length = f.capacity
  /-- The readable bytes are inside the array. -/
  bound : f.offset + f.size ≤ f.capacity
  /-- The subtractions of `get_free` do not wrap. -/
  free : f.getFree = f.capacity - f.offset - f.size
  /-- What went in is what came out, followed by the readable bytes. -/
  conserved : Fifo.puts events = Fifo.takes events ++ f.content
  /-- What came out stands in front of the readable bytes. -/
  passed : window (f.array.getD []) 0 f.offset = Fifo.takes events
  /-- `write` takes the longest prefix that fits. -/
  write (bytes : List Byte) : ∃ f', f.write bytes =
      some (min bytes.length (f.capacity - f.offset - f.size), f') ∧
    f'.content = f.content ++ bytes.take (f.capacity - f.offset - f.size) ∧
    f'.capacity = f.capacity ∧ f'.offset = f.offset
  /-- `read` removes the first bytes. -/
  read (n : Nat) : ∃ f', f.read n = some (min n f.size, f.content.take n, f') ∧
    f'.content = f.content.drop n ∧ f'.capacity = f.capacity
  /-- `copy_to` hands out what `read` would, and changes nothing. -/
  copyTo (n : Nat) : f.step (.copyTo n) = some (f, min n f.size, f.content.take n)
  /-- `copy_to` with skip hands out what a `read` behind a `read` of the skipped bytes
  would, and changes nothing. -/
  copyToSkip (skip n : Nat) : ∃ m out, f.step (.copyToSkip skip n) = some (f, m, out) ∧
    ∃ k front f₁ f₂, f.read skip = some (k, front, f₁) ∧ f₁.read n = some (m, out, f₂)

end FragmentationFields

namespace Fragmentation

theorem linearQueue (f : Fragmentation) (hcap : f.capacity < 2 ^ 64) {calls : List Call}
    {answers : List Answer} (h : Linear calls answers f) :
    f.fields.LinearQueue (history calls answers) where
  array := by
    rw [fields_getD]
    exact f.length_array
  bound := f.bound
  free := f.getFree_eq
  conserved := by
    rw [fields_content]
    exact h.steps.puts_eq
  passed := by
    rw [fields_getD]
    exact h.passed
  write bytes := by
    have hacc := f.accepted_eq bytes.length
    refine ⟨(f.write bytes).2.fields, ?_, ?_, rfl, rfl⟩
    · rw [f.fields_write hcap]
      show some (f.accepted bytes.length, _) = _
      rw [hacc, f.getFree_eq]
      rfl
    · rw [fields_content, fields_content, content_write, f.getFree_eq]
      rfl
  read n := by
    obtain ⟨-, hout, hrest⟩ := f.read_eq n
    refine ⟨(f.read n).2.2.fields, ?_, ?_, rfl⟩
    · rw [f.fields_read hcap, hout, fields_content]
      show some (f.available n, _) = _
      rw [f.available_eq]
      rfl
    · rw [fields_content, fields_content, hrest]
  copyTo n := by
    rw [FragmentationFields.step, f.fields_copyTo, f.copyTo_eq, fields_content,
      List.length_take, length_content]
    rfl
  copyToSkip skip n := by
    obtain ⟨-, -, hrest⟩ := f.read_eq skip
    obtain ⟨hcount, hout, -⟩ := (f.read skip).2.2.read_eq n
    refine ⟨((f.read skip).2.2.read n).1, ((f.read skip).2.2.read n).2.1, ?_, (f.read skip).1,
      (f.read skip).2.1, (f.read skip).2.2.fields, ((f.read skip).2.2.read n).2.2.fields,
      f.fields_read hcap skip, (f.read skip).2.2.fields_read hcap n⟩
    rw [FragmentationFields.step, f.fields_copyToSkip hcap, f.copyToSkip_eq, hcount, hout, hrest]
    rfl

end Fragmentation

/-- After any calls on a new fragment its fields are those of a queue. An array that
could not be allocated acts like one of no bytes. -/
theorem fragmentation_linear (fresh : Nat → Nat → Byte) (k size : Nat) (hsize : size < 2 ^ 64)
    (arrayFails : Bool) (calls : List Fragmentation.Call) :
    ∃ f answers, (FragmentationFields.create fresh k size arrayFails).exec calls =
        some (f, answers) ∧
      f.LinearQueue (Fragmentation.history calls answers) ∧
      f.capacity = if arrayFails ∨ .reset ∈ calls then 0 else size := by
  have hcreate := Fragmentation.capacity_create fresh k size arrayFails
  have hcap : (Fragmentation.create fresh k size arrayFails).capacity < 2 ^ 64 := by
    rw [hcreate]
    split <;> omega
  have hrun := Fragmentation.capacity_run (.create fresh k size arrayFails) calls
  refine ⟨_, _, ?_, Fragmentation.linearQueue _ ?_ (Fragmentation.linear_run fresh k size
    arrayFails calls), ?_⟩
  · rw [Fragmentation.fields_create]
    exact Fragmentation.fields_exec _ calls hcap
  · rw [hrun]
    split <;> omega
  · show (run Fragmentation.step _ calls).1.capacity = _
    rw [hrun, hcreate]
    cases arrayFails with
    | true => rw [if_pos rfl, ite_self, if_pos (.inl rfl)]
    | false => simp

example :
    (FragmentationFields.create (fun _ _ => 0) 0 3 false).exec
        [.write [1, 2], .read 1, .write [3, 4, 5], .copyToSkip 1 9] =
      some (⟨some [1, 2, 3], 3, 1, 2⟩, [(2, []), (1, [1]), (1, []), (1, [3])]) := by
  decide

theorem fragmentation_linear_three :
    3 < 2 ^ 64 ∧ ∃ f answers, (FragmentationFields.create (fun _ _ => 0) 0 3 false).exec
        [.write [1, 2], .read 1, .write [3, 4, 5]] = some (f, answers) ∧
      f.LinearQueue (Fragmentation.history [.write [1, 2], .read 1, .write [3, 4, 5]] answers) ∧
      f.capacity = if (false : Bool) ∨ .reset ∈ ([.write [1, 2], .read 1, .write [3, 4, 5]] :
        List Fragmentation.Call) then 0 else 3 :=
  ⟨by decide, fragmentation_linear (fun _ _ => 0) 0 3 (by decide) false _⟩

end KgCpp.Bytes
