import KgCpp.Lib.Copy
import KgCpp.Lib.Overlap
import KgCpp.Slice.Memory

/-!
# The memory place by place

`Memory.cell` is the memory as a function from places to what they hold, and
`Memory.held m p n` the block of `n` elements behind a pointer. A write changes
one place, a new array changes none of the old ones, and `std::copy` copies place
by place; so what a block holds after an operation follows from the places the
operation wrote (`Wrote`, `Keeps`).
-/

namespace KgCpp.Slice

open Lib

variable {T : Type}

namespace Memory

/-- What a place of an array holds, if it is one. -/
def cell (m : Memory T) (place : Ref × Nat) : Option T := (m.arrays.get place.1)[place.2]?

/-- The `n` elements a pointer points to. -/
def held (m : Memory T) : Pointer → Nat → List T
  | none, _ => []
  | some (a, k), n => window (m.arrays.get a) k n

/-- `m'` is `m` but for the `n` places of the array `a` from `k` on. -/
structure Wrote (m m' : Memory T) (a : Ref) (k n : Nat) : Prop where
  size : m'.arrays.size = m.arrays.size
  length : ∀ b, m'.length b = m.length b
  outside : ∀ b j, b ≠ a ∨ j < k ∨ k + n ≤ j → m'.cell (b, j) = m.cell (b, j)

/-- Nothing is written. -/
theorem Wrote.refl (m : Memory T) (a : Ref) (k n : Nat) : m.Wrote m a k n :=
  ⟨rfl, fun _ => rfl, fun _ _ _ => rfl⟩

theorem Wrote.extends {m m' : Memory T} {a : Ref} {k n : Nat} (h : m.Wrote m' a k n) :
    m.Extends m' := ⟨Nat.le_of_eq h.size.symm, fun b _ => h.length b⟩

/-- What `m` and `m'` hold in the arrays of `m` is the same. -/
def Keeps (m m' : Memory T) : Prop :=
  m.Extends m' ∧ ∀ b < m.arrays.size, ∀ j, m'.cell (b, j) = m.cell (b, j)

/-- A new array leaves the others as they are. -/
theorem keeps_alloc (m : Memory T) (cells : List T) :
    m.Keeps { m with arrays := m.arrays.alloc cells } := by
  refine ⟨⟨?_, fun a ha => ?_⟩, fun a ha j => ?_⟩
  · show m.arrays.size ≤ (m.arrays.alloc cells).size
    rw [Store.size_alloc]
    omega
  · exact congrArg List.length (Store.get_alloc_old ha cells)
  · exact congrArg (fun cells => cells[j]?) (Store.get_alloc_old ha cells)

theorem Keeps.wrote {m m' m'' : Memory T} {a : Ref} {k n : Nat} (h : m.Keeps m')
    (hnew : m.arrays.size ≤ a) (hw : m'.Wrote m'' a k n) : m.Keeps m'' := by
  refine ⟨h.1.trans hw.extends, fun b hb j => ?_⟩
  rw [hw.outside b j (.inl (Nat.ne_of_lt (Nat.lt_of_lt_of_le hb hnew))), h.2 b hb j]

theorem getElem?_window (l : List T) (k n i : Nat) :
    (window l k n)[i]? = if i < n then l[k + i]? else none := by
  rw [window, List.getElem?_take, List.getElem?_drop]

end Memory

open Memory

theorem getElem?_held (m : Memory T) (a : Ref) (k n i : Nat) :
    (m.held (some (a, k)) n)[i]? = if i < n then m.cell (a, k + i) else none :=
  getElem?_window _ k n i

/-- Two blocks hold the same when their places do. -/
theorem held_congr {m m' : Memory T} {a b : Ref} {j k n : Nat}
    (h : ∀ i < n, m'.cell (b, j + i) = m.cell (a, k + i)) :
    m'.held (some (b, j)) n = m.held (some (a, k)) n := by
  refine List.ext_getElem? fun i => ?_
  rw [getElem?_held, getElem?_held]
  by_cases hi : i < n
  · rw [if_pos hi, if_pos hi, h i hi]
  · rw [if_neg hi, if_neg hi]

theorem held_eq_iff {m m' : Memory T} {a b : Ref} {j k n : Nat} :
    m'.held (some (b, j)) n = m.held (some (a, k)) n ↔
      ∀ i < n, m'.cell (b, j + i) = m.cell (a, k + i) := by
  refine ⟨fun h i hi => ?_, held_congr⟩
  have hcell := congrArg (fun l => l[i]?) h
  simp only [getElem?_held, if_pos hi] at hcell
  exact hcell

/-- As many elements as there are places. -/
theorem length_held {m : Memory T} {p : Pointer} {n : Nat} (h : m.Points p n) :
    (m.held p n).length = n := by
  rcases h with rfl | ⟨a, k, rfl, -, hle⟩
  · cases p with
    | none => rfl
    | some place => exact congrArg List.length (window_zero ..)
  · exact length_window hle

/-- A block of one element. -/
theorem held_one {m : Memory T} {a : Ref} {k : Nat} {v : T} (h : m.cell (a, k) = some v) :
    m.held (some (a, k)) 1 = [v] := by
  refine List.ext_getElem? fun i => ?_
  rw [getElem?_held]
  cases i with
  | zero => rw [if_pos Nat.one_pos, Nat.add_zero, h, List.getElem?_cons_zero]
  | succ i => rw [if_neg (by omega), List.getElem?_cons_succ, List.getElem?_nil]

/-- Two blocks one behind the other. -/
theorem held_append (m : Memory T) (a : Ref) (k n n' : Nat) :
    m.held (some (a, k)) n ++ m.held (some (a, k + n)) n' = m.held (some (a, k)) (n + n') :=
  window_append _ k n n'

/-! ## Writing -/

section Effects

variable {m : Memory T}

/-- `m'` is `m` but for one place, which holds `v`. -/
structure Put (m m' : Memory T) (place : Ref × Nat) (v : T) : Prop where
  size : m'.arrays.size = m.arrays.size
  length : ∀ b, m'.length b = m.length b
  cell : m'.cell = Function.update m.cell place (some v)

theorem Put.self {m' : Memory T} {place : Ref × Nat} {v : T} (h : Put m m' place v) :
    m'.cell place = some v := by
  rw [h.cell, Function.update_self]

theorem Put.other {m' : Memory T} {place place' : Ref × Nat} {v : T} (h : Put m m' place v)
    (hne : place' ≠ place) : m'.cell place' = m.cell place' := by
  rw [h.cell, Function.update_of_ne hne]

/-- Writing what is there already. -/
theorem Put.same {m' : Memory T} {place : Ref × Nat} {v : T} (h : Put m m' place v)
    (hv : m.cell place = some v) : m'.cell = m.cell := by
  rw [h.cell, ← hv, Function.update_eq_self]

theorem Put.wrote {m' : Memory T} {a : Ref} {k : Nat} {v : T} (h : Put m m' (a, k) v) :
    m.Wrote m' a k 1 where
  size := h.size
  length := h.length
  outside := by
    intro b j hout
    refine h.other fun heq => ?_
    obtain ⟨rfl, rfl⟩ := Prod.ext_iff.mp heq
    rcases hout with hne | hlt | hle
    · exact hne rfl
    · exact absurd hlt (Nat.lt_irrefl _)
    · exact absurd hle (Nat.not_succ_le_self _)

/-- `p[i] = v`, place by place. -/
theorem writeAt_ok {a : Ref} {k i : Nat} (ha : a < m.arrays.size) (hi : k + i < m.length a)
    (v : T) : ∃ m', writeAt (some (a, k)) i v m = .ok () m' ∧ Put m m' (a, k + i) v := by
  refine ⟨m.setArray a ((m.arrays.get a).set (k + i) v), by rw [writeAt, if_pos hi],
    Store.size_set .., fun b => ?_, ?_⟩
  · by_cases hb : b = a
    · subst hb
      rw [Memory.length, setArray, Store.get_set_self ha, List.length_set, Memory.length]
    · rw [Memory.length, setArray, Store.get_set_ne hb, Memory.length]
  · refine funext fun place => ?_
    obtain ⟨b, j⟩ := place
    by_cases hb : b = a
    · subst hb
      rw [cell, setArray, Store.get_set_self ha, List.getElem?_set]
      by_cases hj : k + i = j
      · subst hj
        rw [Function.update_self, if_pos rfl]
        exact if_pos hi
      · rw [Function.update_of_ne (fun h => hj (Prod.ext_iff.mp h).2.symm), if_neg hj, cell]
    · rw [Function.update_of_ne (fun h => hb (Prod.ext_iff.mp h).1), cell, setArray,
        Store.get_set_ne hb, cell]

@[simp] theorem add_some (a : Ref) (k n : Nat) :
    Pointer.add (some (a, k)) n = some (a, k + n) := rfl

/-- Reading a place. -/
theorem readAt_ok {a : Ref} {k i : Nat} {v : T} (h : m.cell (a, k + i) = some v) :
    readAt (some (a, k)) i m = .ok v m := by
  rw [cell] at h
  rw [readAt, h]

/-- A place below the length of its array holds something. -/
theorem cell_of_lt {a : Ref} {k : Nat} (h : k < m.length a) : ∃ v, m.cell (a, k) = some v :=
  ⟨_, List.getElem?_eq_getElem h⟩

/-- A new array, when its allocation does not fail. -/
theorem newArray_ok (m : Memory T) (n : Nat) :
    ∃ m', newArray n false m = .ok m.arrays.size m' ∧ m.Keeps m' ∧
      m.arrays.size < m'.arrays.size ∧ m'.length m.arrays.size = n := by
  have hends : Ends (newArray n false) m _ (fun _ _ => True) := ends_newArray n trivial
  obtain ⟨-, -, hlt, hlen⟩ := hends
  exact ⟨_, rfl, keeps_alloc m _, hlt, hlen⟩

/-- What `n` copies from `src` to `dst` do to the memory. -/
structure Copied (m m' : Memory T) (src dst : Ref × Nat) (n : Nat) : Prop where
  size : m'.arrays.size = m.arrays.size
  length : ∀ b, m'.length b = m.length b
  cell : m'.cell =
    copyEach m.cell (fun i => (src.1, src.2 + i)) (fun i => (dst.1, dst.2 + i)) n

theorem places_injective (b : Ref) (j : Nat) : Function.Injective fun i => (b, j + i) :=
  fun _ _ h => Nat.add_left_cancel (Prod.ext_iff.mp h).2

/-- `std::copy`, place by place. -/
theorem copy_ok {a b : Ref} {k j n : Nat} (hk : k + n ≤ m.length a) (hb : b < m.arrays.size)
    (hj : j + n ≤ m.length b) :
    ∃ m', copy (some (a, k)) (some (b, j)) n m = .ok () m' ∧ Copied m m' (a, k) (b, j) n := by
  -- the loop has copied `i` elements, `n'` are left
  have key : ∀ (n' i : Nat) (mi : Memory T), i + n' = n → Copied m mi (a, k) (b, j) i →
      ∃ m', copyLoop (some (a, k)) (some (b, j)) i n' mi = .ok () m' ∧
        Copied m m' (a, k) (b, j) n := by
    intro n'
    induction n' with
    | zero =>
      rintro i mi rfl hi
      exact ⟨mi, rfl, hi⟩
    | succ n' ih =>
      intro i mi hn hi
      obtain ⟨v, hv⟩ := cell_of_lt (m := mi) (a := a) (k := k + i) (by rw [hi.length]; omega)
      obtain ⟨mi', hwrite, hput⟩ := writeAt_ok (m := mi) (k := j) (i := i)
        (by rw [hi.size]; exact hb) (by rw [hi.length]; omega) v
      obtain ⟨m', hloop, hcopied⟩ := ih (i + 1) mi' (by omega)
        ⟨hput.size.trans hi.size, fun c => (hput.length c).trans (hi.length c), by
          rw [hput.cell, copyEach_succ, ← hi.cell, hv]⟩
      refine ⟨m', ?_, hcopied⟩
      rw [copyLoop, bind_of_ok (readAt_ok hv), bind_of_ok hwrite]
      exact hloop
  exact key n 0 m (Nat.zero_add n) ⟨rfl, fun _ => rfl, rfl⟩

/-- A copy writes the places it copies to. -/
theorem Copied.wrote {m' : Memory T} {src dst : Ref × Nat} {n : Nat}
    (h : Copied m m' src dst n) : m.Wrote m' dst.1 dst.2 n where
  size := h.size
  length := h.length
  outside := by
    intro b j hout
    rw [h.cell]
    refine copyEach_outside fun i hi heq => ?_
    obtain ⟨rfl, rfl⟩ := Prod.ext_iff.mp heq
    rcases hout with hne | hlt | hle
    · exact hne rfl
    · exact absurd hlt (by simp)
    · exact absurd hle (by simpa using hi)

/-- Two blocks that do not overlap, or overlap so that a copy from the first
element to the last reads no place it has written. -/
def Apart (src dst : Ref × Nat) (n : Nat) : Prop :=
  src.1 = dst.1 → dst.2 ≤ src.2 ∨ src.2 + n ≤ dst.2

/-- A copy between such blocks copies what the source held. -/
theorem Copied.held {m' : Memory T} {a b : Ref} {k j n : Nat}
    (h : Copied m m' (a, k) (b, j) n) (hapart : Apart (a, k) (b, j) n) :
    m'.held (some (b, j)) n = m.held (some (a, k)) n := by
  refine held_congr fun i hi => ?_
  rw [h.cell]
  refine faithful_of_apart (places_injective b j) (fun i hi i' hi' heq => ?_) i hi
  obtain ⟨hba, hplace⟩ := Prod.ext_iff.mp heq
  have hcases : j ≤ k ∨ k + n ≤ j := hapart hba.symm
  have hplace' : j + i' = k + i := hplace
  omega

end Effects

end KgCpp.Slice
