import KgCpp.Lib.Run
import KgCpp.Slice.SliceContent
import KgCpp.Slice.SliceRuns

/-!
# Looping over a slice

`for (T& v : s)` asks the slice for `begin` and `end` and goes with a pointer from
the one to the other, so what the loop does is decided by pointers alone. The body
has a state of its own, and may assign to `v`.

`forEach_eq`: the body sees the elements of the slice, one after the other, and what
it assigns is afterwards seen by every slice that shows the same places; nothing
else changes.
-/

namespace KgCpp.Slice

open Lib Memory

variable {T σ : Type}

namespace SliceImpl

/-- `begin`. -/
def begin (s : SliceImpl) : Action Fault (Memory T) Pointer :=
  if s.size ≠ 0 then do
    let p ← s.p
    pure (p.add s.pos)
  else pure none

/-- `end`. -/
def «end» (s : SliceImpl) : Action Fault (Memory T) Pointer :=
  if s.size ≠ 0 then do
    let p ← s.p
    pure ((p.add s.pos).add s.size)
  else pure none

/-- The loop from the pointer `it` on, for less than `fuel` rounds. -/
def forLoop (body : σ → T → σ × T) (last : Pointer) :
    Nat → Pointer → σ → Action Fault (Memory T) (Option σ)
  | 0, _, _ => pure none
  | fuel + 1, it, x =>
    if it = last then pure (some x)
    else do
      let v ← readAt it 0
      writeAt it 0 (body x v).2
      forLoop body last fuel (it.add 1) (body x v).1

/-- `for (T& v : s)`; `none` when the loop has not come to its end. -/
def forEach (s : SliceImpl) (body : σ → T → σ × T) (fuel : Nat) (x : σ) :
    Action Fault (Memory T) (Option σ) := do
  let first ← s.begin
  let last ← s.end
  forLoop body last fuel first x

section Rounds

variable {m m' : Memory T} {s : SliceImpl} {a : Ref} {k n : Nat} {body : σ → T → σ × T}

/-- A block is its first element and the block behind it. -/
theorem held_succ {v : T} (h : m.cell (a, k) = some v) (n : Nat) :
    m.held (some (a, k)) (n + 1) = v :: m.held (some (a, k + 1)) n := by
  have h1 := held_append m a k 1 n
  rw [held_one h, Nat.add_comm 1 n] at h1
  exact h1.symm

/-- One element written, and then those behind it. -/
theorem wrote_succ {m₁ : Memory T} {v : T} (h : Put m m₁ (a, k) v)
    (h' : m₁.Wrote m' a (k + 1) n) : m.Wrote m' a k (n + 1) where
  size := h'.size.trans h.size
  length := fun b => (h'.length b).trans (h.length b)
  outside := by
    intro b j hout
    have hne : b ≠ a ∨ j < k ∨ k + 1 ≤ j := by
      rcases hout with h | h
      · exact .inl h
      · exact .inr (by omega)
    have hne' : b ≠ a ∨ j < k + 1 ∨ k + 1 + n ≤ j := by
      rcases hout with h | h
      · exact .inl h
      · exact .inr (by omega)
    rw [h'.outside b j hne', h.wrote.outside b j hne]

/-- The loop over a block of `n` elements. -/
theorem forLoop_ok (body : σ → T → σ × T) (n : Nat) : ∀ {k fuel : Nat} {m : Memory T} (x : σ),
    a < m.arrays.size → k + n ≤ m.length a → n < fuel →
    ∃ m', forLoop body (some (a, k + n)) fuel (some (a, k)) x m =
        .ok (some (run body x (m.held (some (a, k)) n)).1) m' ∧
      m.Wrote m' a k n ∧
      m'.held (some (a, k)) n = (run body x (m.held (some (a, k)) n)).2 := by
  induction n with
  | zero =>
    intro k fuel m x ha hle hfuel
    obtain ⟨fuel, rfl⟩ : ∃ f, fuel = f + 1 := ⟨fuel - 1, by omega⟩
    have hnil : m.held (some (a, k)) 0 = [] := window_zero ..
    refine ⟨m, ?_, .refl m a k 0, ?_⟩
    · rw [forLoop, if_pos (by rw [Nat.add_zero]), hnil]
      rfl
    · rw [hnil, run_nil]
  | succ n ih =>
    intro k fuel m x ha hle hfuel
    obtain ⟨fuel, rfl⟩ : ∃ f, fuel = f + 1 := ⟨fuel - 1, by omega⟩
    obtain ⟨v, hv⟩ := cell_of_lt (m := m) (a := a) (k := k) (by omega)
    obtain ⟨m₁, hwrite, hput⟩ := writeAt_ok (m := m) (k := k) (i := 0) ha (by omega) (body x v).2
    rw [Nat.add_zero] at hput
    obtain ⟨m', hloop, hwrote, hheld⟩ := ih (k := k + 1) (m := m₁) (body x v).1
      (by rw [hput.size]; exact ha) (by rw [hput.length]; omega) (show n < fuel by omega)
    -- the round has not touched the elements that are still to come
    have hrest : m₁.held (some (a, k + 1)) n = m.held (some (a, k + 1)) n :=
      held_congr fun i _ => hput.other fun h => by
        have := (Prod.ext_iff.mp h).2
        dsimp only at this
        omega
    have hfirst : m'.cell (a, k) = some (body x v).2 := by
      rw [hwrote.outside a k (by omega), hput.self]
    refine ⟨m', ?_, wrote_succ hput hwrote, ?_⟩
    · have hne : ¬ (some (a, k) : Pointer) = some (a, k + (n + 1)) := by
        intro h
        have := (Prod.ext_iff.mp (Option.some.inj h)).2
        dsimp only at this
        omega
      rw [forLoop, if_neg hne, bind_of_ok (readAt_ok (by rw [Nat.add_zero]; exact hv)),
        bind_of_ok hwrite, add_some, held_succ hv, run_cons, ← hrest, ← hloop]
      congr 3
      omega
    · rw [held_succ hfirst, held_succ hv, run_cons, hheld, hrest]

/-- The loop over a slice. -/
theorem forEach_ok (h : s.Valid m) (body : σ → T → σ × T) {fuel : Nat} (hfuel : s.size < fuel)
    (x : σ) : ∃ m', s.forEach body fuel x m = .ok (some (run body x (s.elements m)).1) m' ∧
      m.Extends m' ∧ s.elements m' = (run body x (s.elements m)).2 ∧
      ∀ b j, (s.array = some b → j < s.pos ∨ s.pos + s.size ≤ j) →
        m'.cell (b, j) = m.cell (b, j) := by
  by_cases hne : s.size ≠ 0
  · obtain ⟨a, ha, hlt, hle⟩ := h.shows hne
    obtain ⟨m', hloop, hwrote, hheld⟩ := forLoop_ok body s.size x hlt hle hfuel
    have hbegin : s.begin m = .ok (some (a, s.pos)) m := by
      rw [begin, if_pos hne, bind_of_ok (p_ok ha), add_some, Nat.zero_add]
      rfl
    have hend : s.end m = .ok (some (a, s.pos + s.size)) m := by
      rw [«end», if_pos hne, bind_of_ok (p_ok ha), add_some, add_some, Nat.zero_add]
      rfl
    refine ⟨m', ?_, hwrote.extends, ?_, fun b j => cell_wrote hwrote ha⟩
    · rw [forEach, bind_of_ok hbegin, bind_of_ok hend, elements_some ha, hloop]
    · rw [elements_some ha, elements_some ha, hheld]
  · obtain ⟨fuel, rfl⟩ : ∃ f, fuel = f + 1 := ⟨fuel - 1, by omega⟩
    have hnil : ∀ m : Memory T, s.elements m = [] := fun m =>
      elements_of_size_eq_zero (by omega)
    refine ⟨m, ?_, .refl m, ?_, fun _ _ _ => rfl⟩
    · rw [forEach, begin, if_neg hne, «end», if_neg hne, hnil]
      rfl
    · rw [hnil, run_nil]

end Rounds

end SliceImpl

namespace State

/-- **A loop over a slice**: for every reachable state, slice and body. -/
theorem forEach_eq {fresh : Nat → Nat → T} {st : State T} (hst : Reachable fresh st)
    {s : SliceImpl} (hs : s ∈ st.slices) (body : σ → T → σ × T) {fuel : Nat}
    (hfuel : s.size < fuel) (x : σ) :
    ∃ m', s.forEach body fuel x st.memory =
        .ok (some (run body x (s.elements st.memory)).1) m' ∧
      s.elements m' = (run body x (s.elements st.memory)).2 ∧
      ∀ t ∈ st.slices, t.Valid m' ∧ ∀ i < t.size, (t.elements m')[i]? =
        if t.array = s.array ∧ s.pos ≤ t.pos + i ∧ t.pos + i < s.pos + s.size
        then (run body x (s.elements st.memory)).2[t.pos + i - s.pos]?
        else (t.elements st.memory)[i]? := by
  have hinv := inv_reachable hst
  obtain ⟨m', hloop, hext, helems, hout⟩ := SliceImpl.forEach_ok (hinv s hs) body hfuel x
  refine ⟨m', hloop, helems, fun t ht => ⟨(hinv t ht).extends hext, fun i hi => ?_⟩⟩
  obtain ⟨b, hb, -, -⟩ := (hinv t ht).shows (show t.size ≠ 0 by omega)
  rw [SliceImpl.getElem?_elements hb, if_pos hi, SliceImpl.getElem?_elements hb, if_pos hi]
  by_cases hin : t.array = s.array ∧ s.pos ≤ t.pos + i ∧ t.pos + i < s.pos + s.size
  · -- the place is one of `s`
    obtain ⟨harray, hle, hlt⟩ := hin
    rw [if_pos ⟨harray, hle, hlt⟩, ← helems,
      SliceImpl.getElem?_elements (harray.symm.trans hb), if_pos (by omega),
      show s.pos + (t.pos + i - s.pos) = t.pos + i by omega]
  · rw [if_neg hin]
    refine hout b _ fun ha => ?_
    by_contra hno
    exact hin ⟨hb.trans ha.symm, by omega, by omega⟩

/-- A slice of `1, 2, 3` and its tail. -/
def threeAndTail : State Nat :=
  ((((init fun _ k => k + 1).step (.create 3 0 ⟨false, false⟩)).1.step
    (.range ⟨some 0, 3, 3, 0⟩ 1 ⟨false, false⟩)).1)

theorem reachable_threeAndTail : Reachable (fun _ k => k + 1) threeAndTail := by
  refine .step _ (.step _ .init trivial) ?_
  show (⟨some 0, 3, 3, 0⟩ : SliceImpl) ∈ _
  decide

/-- The tail sees the running sums that a loop over the slice writes. -/
theorem forEach_eq_sums :
    ∃ m', (⟨some 0, 3, 3, 0⟩ : SliceImpl).forEach (fun x v => (x + v, x + v)) 4 0
        threeAndTail.memory = .ok (some 6) m' ∧
      (⟨some 0, 2, 2, 1⟩ : SliceImpl).elements m' = [3, 6] := by
  obtain ⟨m', hloop, -, hseen⟩ := forEach_eq reachable_threeAndTail
    (s := ⟨some 0, 3, 3, 0⟩) (by decide) (fun x v => (x + v, x + v)) (show 3 < 4 by decide) 0
  obtain ⟨hvalid, hcells⟩ := hseen ⟨some 0, 2, 2, 1⟩ (by decide)
  refine ⟨m', hloop, List.ext_getElem? fun i => ?_⟩
  by_cases hi : i < 2
  · rw [hcells i hi]
    interval_cases i <;> decide
  · rw [List.getElem?_eq_none (by
        rw [SliceImpl.length_elements hvalid]
        exact Nat.le_of_not_lt hi),
      List.getElem?_eq_none (Nat.le_of_not_lt hi)]

end State

end KgCpp.Slice
