import KgCpp.Lib.Run
import KgCpp.Bytes.BufferContent

/-!
# Runs of a buffer

A buffer is used by calling its operations one after another on a fresh object.
`step` is one call with what the caller sees of it; a run is `Lib.run step`.

- `refines_queue`: without allocation failures the caller cannot tell a buffer
  from a list of bytes (`queueStep`), however the bytes are spread over
  fragments and however fragments come back from the cache.
- `write_all_or_nothing_iff`: with allocation failures, in whatever state
  earlier failures left the buffer, `write` keeps its promise of writing all or
  nothing exactly when it does not make a fragment whose byte array is missing:
  the constructor of the fragment swallows that failure, and `write` returns the
  full count for bytes that no fragment holds.
-/

namespace KgCpp.Bytes.Buffer

open Lib

/-- One call of a public operation. -/
inductive Call where
  | write (bytes : List Byte) (faults : WriteFaults)
  | read (n : Nat)
  | copyTo (n : Nat)
  | size
  | reset (clearcache : Bool)
  | resetCache
deriving DecidableEq, Repr

/-- What the caller sees of a call: a returned count, and the bytes written to
its memory. -/
inductive Answer where
  | count (n : Nat)
  | bytes (n : Nat) (bytes : List Byte)
  | nothing
deriving DecidableEq, Repr

/-- No allocation of the call fails. -/
def Call.succeeds : Call → Bool
  | .write _ faults => faults == .none
  | _ => true

/-- One call on a buffer. -/
def step (b : Buffer) : Call → Buffer × Answer
  | .write bytes faults => ((b.write bytes faults).2, .count (b.write bytes faults).1)
  | .read n => ((b.read n).2.2, .bytes (b.read n).1 (b.read n).2.1)
  | .copyTo n => (b, .bytes (b.copyTo n).1 (b.copyTo n).2)
  | .size => (b, .count b.size)
  | .reset clearcache => (b.reset clearcache, .nothing)
  | .resetCache => (b.resetCache, .nothing)

/-- The same call on a queue of bytes. -/
def queueStep (q : List Byte) : Call → List Byte × Answer
  | .write bytes _ => (q ++ bytes, .count bytes.length)
  | .read n => (q.drop n, .bytes (min n q.length) (q.take n))
  | .copyTo n => (q, .bytes (min n q.length) (q.take n))
  | .size => (q, .count q.length)
  | .reset _ => ([], .nothing)
  | .resetCache => (q, .nothing)

/-- Every call keeps a buffer well-formed, whatever its allocations do. -/
theorem wf_step {b : Buffer} (h : b.WF) (c : Call) : (b.step c).1.WF := by
  cases c with
  | write bytes faults => exact wf_write h bytes faults
  | read n => exact (read_spec h n).2.2.1
  | copyTo n => exact h
  | size => exact h
  | reset clearcache => exact (reset_spec h clearcache).1
  | resetCache => exact (resetCache_spec h).1

/-- The state of a fresh buffer after a run of calls. -/
def after (capacity : Int32) (fresh : Nat → Nat → Byte) (calls : List Call) : Buffer :=
  (run step (create capacity fresh) calls).1

theorem wf_after (capacity : Int32) (fresh : Nat → Nat → Byte) (calls : List Call) :
    (after capacity fresh calls).WF :=
  run_invariant (fun _ => True) WF (fun _ c h _ => wf_step h c)
    (wf_create capacity fresh) calls fun _ _ => trivial

/-! ## A buffer is a queue of bytes -/

/-- One call without allocation failures is the same call on the readable
bytes. -/
theorem step_simulates :
    Simulation step queueStep (fun c => c.succeeds = true)
      (fun b q => b.WF ∧ b.content = q) := by
  rintro b q c ⟨hwf, rfl⟩ hok
  have hwf' := wf_step hwf c
  cases c with
  | write bytes faults =>
    have hnone : faults = .none := by simpa [Call.succeeds] using hok
    subst hnone
    obtain ⟨hcount, hcont⟩ := write_none hwf bytes
    exact ⟨⟨hwf', hcont⟩, congrArg Answer.count hcount⟩
  | read n =>
    obtain ⟨hcount, hbytes, -, hcont⟩ := read_spec hwf n
    refine ⟨⟨hwf', hcont⟩, ?_⟩
    show Answer.bytes _ _ = Answer.bytes _ _
    rw [hcount, hbytes, List.length_take]
  | copyTo n =>
    refine ⟨⟨hwf', rfl⟩, ?_⟩
    show Answer.bytes _ _ = Answer.bytes _ _
    rw [copyTo_eq, List.length_take]
  | size => exact ⟨⟨hwf', rfl⟩, congrArg Answer.count b.size_eq⟩
  | reset clearcache => exact ⟨⟨hwf', (reset_spec hwf clearcache).2⟩, rfl⟩
  | resetCache => exact ⟨⟨hwf', (resetCache_spec hwf).2⟩, rfl⟩

/-- **A buffer is a queue of bytes**: over every run of calls whose allocations
succeed, on a fresh buffer of any construction capacity, the caller sees what a
list of bytes would show. -/
theorem refines_queue (capacity : Int32) (fresh : Nat → Nat → Byte) (calls : List Call)
    (hok : ∀ c ∈ calls, c.succeeds = true) :
    (run step (create capacity fresh) calls).2 = (run queueStep [] calls).2 :=
  (step_simulates.run_eq ⟨wf_create capacity fresh, content_create capacity fresh⟩
    calls hok).2

/-- A run with two live fragments, a drained one in the cache, and a cached
fragment that comes back with its old offset and bytes. -/
theorem refines_queue_recycled :
    (run step (create 4 fun _ _ => 0)
        [.write [1, 2, 3] .none, .write [4, 5, 6] .none, .read 4, .copyTo 9,
          .reset false, .write [7] .none, .size, .read 3]).2 =
      [.count 3, .count 3, .bytes 4 [1, 2, 3, 4], .bytes 2 [5, 6], .nothing, .count 1,
        .count 1, .bytes 1 [7]] :=
  (refines_queue 4 (fun _ _ => 0) _ (by decide)).trans (by decide)

/-! ## `write` under allocation failures -/

/-- `write` wrote all of `bytes`, or nothing, and its count tells which. -/
def AllOrNothing (b : Buffer) (bytes : List Byte) (faults : WriteFaults) : Prop :=
  ((b.write bytes faults).1 = bytes.length ∧
      (b.write bytes faults).2.content = b.content ++ bytes) ∨
    ((b.write bytes faults).1 = 0 ∧ (b.write bytes faults).2.content = b.content)

/-- **When `write` is all or nothing**: in every state that calls with any
allocation failures can reach, a `write` of at least one byte is all or nothing
if and only if it is not one that makes a new fragment (the last one and the
cached one being too small) whose byte array alone cannot be allocated. -/
theorem write_all_or_nothing_iff (capacity : Int32) (fresh : Nat → Nat → Byte)
    (calls : List Call) (bytes : List Byte) (hn : bytes ≠ []) (faults : WriteFaults) :
    (after capacity fresh calls).AllOrNothing bytes faults ↔
      ¬ (after capacity fresh calls).LosesArray bytes.length faults := by
  have hpos : 0 < bytes.length := List.length_pos_of_ne_nil hn
  have hw := write_spec (wf_after capacity fresh calls) hn faults
  generalize after capacity fresh calls = b at hw
  rw [AllOrNothing]
  generalize b.write bytes faults = r at hw
  cases hw with
  | all _ hlose hcont => exact ⟨fun _ => hlose, fun _ => .inl ⟨rfl, hcont⟩⟩
  | nothing _ hlose _ hcont => exact ⟨fun _ => hlose, fun _ => .inr ⟨rfl, hcont⟩⟩
  | part _ hlose hcont =>
    constructor
    · rintro (⟨-, hall⟩ | ⟨hzero, -⟩)
      · -- the bytes beyond the last fragment's free ones are in no fragment
        have hlen := congrArg List.length (hcont.symm.trans hall)
        rw [List.length_append, List.length_append, List.length_take] at hlen
        have := hlose.1
        omega
      · exact absurd hzero (by omega)
    · intro hno
      exact absurd hlose hno

/-- With every allocation succeeding, the one-byte write is all. -/
theorem write_all_or_nothing_one :
    (after defaultCapacity (fun _ _ => 0) []).AllOrNothing [1] .none :=
  (write_all_or_nothing_iff defaultCapacity (fun _ _ => 0) [] [1] (by decide) .none).mpr (by decide)

/-- The first write of a fresh buffer, its byte array alone failing: the count
says one byte, and none is there. -/
theorem write_loses_byte :
    ¬ (after defaultCapacity (fun _ _ => 0) []).AllOrNothing [1] ⟨false, true, false⟩ := by
  unfold AllOrNothing
  decide

end KgCpp.Bytes.Buffer
