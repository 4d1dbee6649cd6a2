import KgCpp.Slice.SliceAppendArray

/-!
# A slice of a slice

`range` cuts in three numbers: where the part begins, where it ends, and how far
it may grow. Its end is cut off at the capacity, so that `cut s begin fin` is the
result for any end, and cutting a part again is cutting the slice once
(`cut_cut`). Every element of a part is a place of the array, which the slice
shows under another index (`Shows`).
-/

namespace KgCpp.Slice

open Lib Memory

variable {T : Type}

namespace SliceImpl

/-- The part of `s` from `begin` to `fin`, when it has one. -/
def cut (s : SliceImpl) (begin fin : Nat) : SliceImpl :=
  ⟨s.array, s.capacity - begin, min fin s.capacity - begin, s.pos + begin⟩

/-- How a cut throws: without memory, or out of range, having changed nothing. -/
def Throws (m : Memory T) (fails bad : Prop) : Fault → Memory T → Prop := fun e m' =>
  m' = m ∧ (e = .badAlloc ∧ fails ∨ (∃ what, e = .outOfRange what) ∧ bad)

/-- What `r` shows are the places that `s` has from its element `k` on, in whatever the
program makes of the memory `m`. -/
structure Shows (m : Memory T) (s r : SliceImpl) (k : Nat) : Prop where
  /-- `r.at(i)` reads the place `k + i` of `s`. -/
  read : ∀ m', m.Extends m' → ∀ i < r.size, ∃ a v, s.array = some a ∧
    m'.cell (a, s.pos + (k + i)) = some v ∧ r.at' i m' = .ok v m'
  /-- `r.at(i) = v` writes that place and no other. -/
  write : ∀ m', m.Extends m' → ∀ i < r.size, ∀ v, ∃ a m'', s.array = some a ∧
    r.setAt i v m' = .ok ⟨⟩ m'' ∧ Put m' m'' (a, s.pos + (k + i)) v ∧
    (k + i < s.size → s.elements m'' = (s.elements m').set (k + i) v) ∧
    (s.size ≤ k + i → s.elements m'' = s.elements m')

/-- Cutting parts of `s` in the memory `m`. -/
structure Reslices (m : Memory T) (s : SliceImpl) : Prop where
  /-- A part of a part is a part, and both are there for the same arguments. -/
  compose : ∀ (a b c d : Nat) (faults faults' : Faults),
    Ends (do let r ← s.rangeTo a b faults; r.rangeTo c d faults') m
      (fun r m' => m' = m ∧ ¬ (s.capacity < a ∨ s.capacity < a + c) ∧
        s.rangeTo (a + c) (a + d) noFaults m = .ok r m ∧ Shows m s r (a + c))
      (Throws m (faults.impl ∨ faults'.impl) (s.capacity < a ∨ s.capacity < a + c))
  /-- `range(a)` is the part up to the size. -/
  tail : ∀ (a : Nat) (faults : Faults),
    Ends (s.range a faults) m
      (fun r m' => m' = m ∧ ¬ s.size < a ∧ s.rangeTo a s.size noFaults m = .ok r m ∧
        Shows m s r a)
      (Throws m faults.impl (s.size < a))

variable {m : Memory T} {s : SliceImpl}

theorem ends_makeImpl_throws (faults : Faults) (bad : Prop) :
    Ends (makeImpl faults) m (fun _ m' => m' = m) (Throws m faults.impl bad) :=
  ends_ite (fun h => ends_throw ⟨rfl, .inl ⟨rfl, h⟩⟩) fun _ => ends_pure rfl

/-- `range(begin, end)` makes a cut, or throws. -/
theorem ends_rangeTo (s : SliceImpl) (begin fin : Nat) (faults : Faults) :
    Ends (s.rangeTo begin fin faults) m
      (fun r m' => m' = m ∧ begin ≤ s.capacity ∧ r = s.cut begin fin)
      (Throws m faults.impl (s.capacity < begin)) := by
  refine ends_ite (fun hbad => ends_throw ⟨rfl, .inr ⟨⟨_, rfl⟩, hbad⟩⟩) fun hgood => ?_
  refine ends_bind (ends_makeImpl_throws faults _) ?_
  rintro _ _ rfl
  refine ends_pure ⟨rfl, by omega, ?_⟩
  have hfin : (if fin > s.capacity then s.capacity else fin) = min fin s.capacity := by
    split <;> omega
  have hsize : (if begin < min fin s.capacity then min fin s.capacity - begin else 0) =
      min fin s.capacity - begin := by
    split <;> omega
  rw [hfin, hsize]
  rfl

theorem rangeTo_ok {begin fin : Nat} (h : begin ≤ s.capacity) :
    s.rangeTo begin fin noFaults m = .ok (s.cut begin fin) m := by
  have hends := ends_rangeTo (m := m) s begin fin noFaults
  unfold Ends at hends
  cases hx : s.rangeTo begin fin noFaults m with
  | ok r m' =>
    rw [hx] at hends
    obtain ⟨rfl, -, rfl⟩ := hends
    rfl
  | error e m' =>
    rw [hx] at hends
    rcases hends.2 with ⟨-, hfails⟩ | ⟨-, hbad⟩
    · cases hfails
    · omega

/-- `range(begin)` cuts at the size. -/
theorem ends_range (h : s.Valid m) (begin : Nat) (faults : Faults) :
    Ends (s.range begin faults) m
      (fun r m' => m' = m ∧ begin ≤ s.size ∧ r = s.cut begin s.size)
      (Throws m faults.impl (s.size < begin)) := by
  have hle := h.size_le
  refine ends_ite (fun hbad => ends_throw ⟨rfl, .inr ⟨⟨_, rfl⟩, hbad⟩⟩) fun hgood => ?_
  refine ends_bind (ends_makeImpl_throws faults _) ?_
  rintro _ _ rfl
  refine ends_pure ⟨rfl, by omega, ?_⟩
  rw [cut, Nat.min_eq_left hle]

/-- A cut of a cut is a cut. -/
theorem cut_cut {a : Nat} (b c d : Nat) (h : a ≤ s.capacity) :
    (s.cut a b).cut c d = s.cut (a + c) (a + d) := by
  have hcap : s.capacity - a - c = s.capacity - (a + c) := by omega
  have hsize : min d (s.capacity - a) - c = min (a + d) s.capacity - (a + c) := by omega
  have hpos : s.pos + a + c = s.pos + (a + c) := by omega
  show SliceImpl.mk s.array (s.capacity - a - c) (min d (s.capacity - a) - c) (s.pos + a + c) = _
  rw [hcap, hsize, hpos]
  rfl

/-- An element of a cut is a place of the array. -/
theorem place_cut (h : s.Valid m) {k fin i : Nat} (hi : i < (s.cut k fin).size) :
    ∃ a, s.array = some a ∧ a < m.arrays.size ∧ s.pos + (k + i) < m.length a := by
  have hsize : i < min fin s.capacity - k := hi
  obtain ⟨a, ha, hlt, hlen⟩ := h.array_of_pos (by omega)
  exact ⟨a, ha, hlt, by omega⟩

/-- Writing one place of the array changes one element, or none that `s` shows. -/
theorem elements_put {m' : Memory T} {a : Ref} {j : Nat} {v : T} (ha : s.array = some a)
    (hlen : s.pos + j < m.length a) (hput : Put m m' (a, s.pos + j) v) :
    s.elements m' = (s.elements m).set j v := by
  refine List.ext_getElem? fun i => ?_
  rw [getElem?_elements ha, List.getElem?_set', getElem?_elements ha]
  by_cases hij : j = i
  · obtain ⟨w, hw⟩ := cell_of_lt hlen
    rw [if_pos hij, ← hij, hput.self, hw]
    split <;> rfl
  · have hne : ((a, s.pos + i) : Ref × Nat) ≠ (a, s.pos + j) := by
      rintro heq
      have hpos := (Prod.ext_iff.mp heq).2
      simp only at hpos
      omega
    rw [if_neg hij, hput.other hne]

theorem shows_cut (h : s.Valid m) (k fin : Nat) : Shows m s (s.cut k fin) k where
  read := by
    intro m' hext i hi
    obtain ⟨a, ha, hlt, hlen⟩ := place_cut (h.extends hext) hi
    obtain ⟨v, hv⟩ := cell_of_lt hlen
    have hplace : 0 + (i + (s.pos + k)) = s.pos + (k + i) := by omega
    have hp : (s.cut k fin).p m' = .ok (some (a, 0)) m' := p_ok ha
    refine ⟨a, v, ha, hv, ?_⟩
    rw [at', atWith, if_neg (by omega), bind_of_ok hp]
    exact readAt_ok (by rw [← hv, ← hplace]; rfl)
  write := by
    intro m' hext i hi v
    obtain ⟨a, ha, hlt, hlen⟩ := place_cut (h.extends hext) hi
    have hplace : 0 + (i + (s.pos + k)) = s.pos + (k + i) := by omega
    have hp : (s.cut k fin).p m' = .ok (some (a, 0)) m' := p_ok ha
    obtain ⟨m'', hok, hput⟩ := writeAt_ok (k := 0) (i := i + (s.pos + k)) hlt
      (by rw [hplace]; exact hlen) v
    rw [hplace] at hput
    have hset := elements_put ha hlen hput
    refine ⟨a, m'', ha, ?_, hput, fun _ => hset, fun hbehind => ?_⟩
    · rw [setAt, if_neg (by omega), bind_of_ok hp]
      exact hok
    · rw [hset, List.set_eq_of_length_le]
      rw [length_elements (h.extends hext)]
      exact hbehind

theorem reslices (h : s.Valid m) : Reslices m s where
  compose := by
    intro a b c d faults faults'
    refine ends_bind ((ends_rangeTo s a b faults).mono (fun _ _ hr => hr) ?_) ?_
    · rintro e m' ⟨hm, ⟨he, hfails⟩ | ⟨he, hbad⟩⟩
      · exact ⟨hm, .inl ⟨he, .inl hfails⟩⟩
      · exact ⟨hm, .inr ⟨he, .inl hbad⟩⟩
    · rintro r m' ⟨rfl, ha, rfl⟩
      refine (ends_rangeTo (s.cut a b) c d faults').mono ?_ ?_
      · rintro r m' ⟨rfl, hc, rfl⟩
        have hle : a + c ≤ s.capacity := by
          have hcap : c ≤ s.capacity - a := hc
          omega
        rw [cut_cut b c d ha]
        exact ⟨rfl, by omega, rangeTo_ok hle, shows_cut h _ _⟩
      · rintro e m' ⟨hm, ⟨he, hfails⟩ | ⟨he, hbad⟩⟩
        · exact ⟨hm, .inl ⟨he, .inr hfails⟩⟩
        · have hcap : s.capacity - a < c := hbad
          exact ⟨hm, .inr ⟨he, by omega⟩⟩
  tail := by
    intro a faults
    have hle := h.size_le
    refine (ends_range h a faults).mono ?_ fun _ _ he => he
    rintro r m' ⟨rfl, ha, rfl⟩
    exact ⟨rfl, by omega, rangeTo_ok (by omega), shows_cut h _ _⟩

end SliceImpl

namespace State

/-- Parts of parts of every slice a program can have are parts of the slice, over the
same places of its array. -/
theorem reslices_reachable {fresh : Nat → Nat → T} {st : State T} (h : Reachable fresh st)
    {s : SliceImpl} (hs : s ∈ st.slices) : s.Reslices st.memory :=
  SliceImpl.reslices (inv_reachable h s hs)

/-- With three elements and room for one more. -/
theorem reslices_three : SliceImpl.Reslices threeAndRoom.memory ⟨some 0, 4, 3, 0⟩ :=
  reslices_reachable reachable_threeAndRoom (by decide)

end State

end KgCpp.Slice
