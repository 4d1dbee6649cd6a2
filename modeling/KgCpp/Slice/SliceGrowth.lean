import KgCpp.Lib.Doubling
import KgCpp.Lib.Run
import KgCpp.Slice.SliceContent

/-!
# Building a slice by appending

A program makes a slice and then appends to it, over and over, single elements and
pieces of its arrays: `s = append(s, …)`. When one of the calls throws, it goes on
with the slice it has.

`builds`: the slice shows the elements it was made with and behind them what the
calls that returned have appended, in order. The arrays that were made on the way
have together less than four times as many elements as the slice shows in the end,
and their number is logarithmic.
-/

namespace KgCpp.Slice

open Lib SliceImpl Memory

variable {T : Type}

/-- The lengths of the arrays, oldest first. -/
def Memory.lengths (m : Memory T) : List Nat := m.arrays.cells.map List.length

/-- What one call appends: an element, or those behind a pointer. -/
inductive Piece (T : Type) where
  | one (val : T)
  | many (arrs : Pointer) (size : Nat)

namespace Piece

/-- How many elements. -/
def size : Piece T → Nat
  | .one _ => 1
  | .many _ n => n

/-- Which elements. -/
def elements (m : Memory T) : Piece T → List T
  | .one v => [v]
  | .many arrs n => m.held arrs n

/-- The elements are in the arrays of `m`. -/
def In (m : Memory T) : Piece T → Prop
  | .one _ => True
  | .many arrs n => m.Points arrs n

theorem length_elements {m : Memory T} {x : Piece T} (hx : x.In m) :
    (x.elements m).length = x.size := by
  cases x with
  | one v => rfl
  | many arrs n => exact length_held hx

/-- The call. -/
def append (s : SliceImpl) (faults : Faults) : Piece T → Action Fault (Memory T) SliceImpl
  | .one v => s.append v faults
  | .many arrs n => s.appendArray arrs n faults

end Piece

/-- `s = append(s, …)`. -/
def assign (st : Memory T × SliceImpl) (x : Piece T × Faults) :
    (Memory T × SliceImpl) × Except Fault Unit :=
  match x.1.append st.2 x.2 st.1 with
  | .ok r m => ((m, r), .ok ())
  | .error e m => ((m, st.2), .error e)

/-- What a call with this result has appended. -/
def shown (m : Memory T) (y : (Piece T × Faults) × Except Fault Unit) : List T :=
  match y.2 with
  | .ok _ => y.1.1.elements m
  | .error _ => []

/-! ## How many arrays a call makes -/

section Sizes

variable {m m' : Memory T} {s r : SliceImpl}

theorem ends_size_readAt (p : Pointer) (i : Nat) :
    Ends (readAt p i) m (fun _ m' => m'.arrays.size = m.arrays.size) fun _ _ => True := by
  cases p with
  | none => trivial
  | some place =>
    obtain ⟨a, k⟩ := place
    cases h : (m.arrays.get a)[k + i]? with
    | none => exact ends_of_error (e := .outOfBounds) (by rw [readAt, h]) trivial
    | some v => exact ends_of_ok (readAt_ok h) rfl

theorem ends_size_writeAt (p : Pointer) (i : Nat) (v : T) :
    Ends (writeAt p i v) m (fun _ m' => m'.arrays.size = m.arrays.size) fun _ _ => True := by
  cases p with
  | none => trivial
  | some place =>
    obtain ⟨a, k⟩ := place
    by_cases h : k + i < m.length a
    · exact ends_of_ok (a := ()) (by rw [writeAt, if_pos h]) (Store.size_set ..)
    · exact ends_of_error (e := .outOfBounds) (by rw [writeAt, if_neg h]) trivial

theorem ends_size_copy (src dist : Pointer) (n : Nat) :
    Ends (copy src dist n) m (fun _ m' => m'.arrays.size = m.arrays.size) fun _ _ => True := by
  unfold copy
  generalize 0 = i
  induction n generalizing i m with
  | zero => exact ends_pure rfl
  | succ n ih =>
    refine ends_bind (ends_size_readAt src i) fun v m₁ h₁ => ?_
    refine ends_bind (ends_size_writeAt dist i v) fun _ m₂ h₂ => ?_
    refine (ih (i + 1)).mono (fun _ _ h => ?_) fun _ _ _ => trivial
    rw [h, h₂, h₁]

theorem ends_size_p (s : SliceImpl) :
    Ends s.p m (fun _ m' => m' = m) fun _ _ => True := by
  rw [SliceImpl.p]
  cases s.array with
  | none => trivial
  | some a => exact ends_pure rfl

theorem ends_size_copyOld (s : SliceImpl) (dist : Pointer) :
    Ends (s.copyOld dist) m (fun _ m' => m'.arrays.size = m.arrays.size) fun _ _ => True := by
  refine ends_ite (fun _ => ?_) fun _ => ends_pure rfl
  have hget : Ends s.get m (fun _ m' => m' = m) fun _ _ => True := by
    refine ends_ite (fun _ => ?_) fun _ => ends_pure rfl
    exact ends_bind (ends_size_p s) fun _ _ h => ends_pure h
  refine ends_bind hget ?_
  rintro src _ rfl
  exact ends_size_copy src dist s.size

theorem ends_size_newArray (n : Nat) (fails : Bool) :
    Ends (newArray n fails) m (fun _ m' => m'.arrays.size = m.arrays.size + 1)
      fun _ _ => True := by
  cases fails with
  | true => trivial
  | false => exact Store.size_alloc ..

/-- At most one. -/
theorem ends_size_append (s : SliceImpl) (faults : Faults) (x : Piece T) :
    Ends (x.append s faults) m (fun _ m' => m'.arrays.size ≤ m.arrays.size + 1)
      fun _ _ => True := by
  have hmake : Ends (makeImpl faults) m (fun _ m' => m' = m) fun _ _ => True :=
    ends_makeImpl trivial
  cases x with
  | one v =>
    refine ends_bind hmake ?_
    rintro _ _ rfl
    refine ends_ite (fun _ => ?_) fun _ => ?_
    · refine ends_bind (ends_size_p s) ?_
      rintro p _ rfl
      exact ends_bind (ends_size_writeAt p _ v) fun _ _ h => ends_pure (h.le.trans (by omega))
    · refine ends_bind (ends_size_newArray _ _) fun a m₁ h₁ => ?_
      refine ends_bind (ends_size_copyOld s _) fun _ m₂ h₂ => ?_
      refine ends_bind (ends_size_writeAt _ _ v) fun _ m₃ h₃ => ends_pure ?_
      rw [h₃, h₂, h₁]
  | many arrs n =>
    refine ends_bind hmake ?_
    rintro _ _ rfl
    refine ends_ite (fun _ => ends_ite (fun _ => ?_) fun _ => ends_pure (by omega)) fun _ => ?_
    · refine ends_bind (ends_size_p s) ?_
      rintro p _ rfl
      exact ends_bind (ends_size_copy _ _ _) fun _ _ h => ends_pure (h.le.trans (by omega))
    · refine ends_bind (ends_size_newArray _ _) fun a m₁ h₁ => ?_
      refine ends_bind (ends_size_copyOld s _) fun _ m₂ h₂ => ?_
      refine ends_bind (ends_size_copy _ _ _) fun _ m₃ h₃ => ends_pure ?_
      rw [h₃, h₂, h₁]

end Sizes

/-! ## One call -/

section Call

variable {m m' : Memory T} {s r : SliceImpl} {n : Nat}

/-- What appending `xs` to a slice at the start of its array leaves. -/
structure Grew (m m' : Memory T) (s r : SliceImpl) (xs : List T) : Prop where
  elements : r.elements m' = s.elements m ++ xs
  size : r.size = s.size + xs.length
  pos : r.pos = 0
  outside : ∀ b < m.arrays.size, s.array ≠ some b → ∀ j, m'.cell (b, j) = m.cell (b, j)
  inPlace : s.size + xs.length ≤ s.capacity →
    r.array = s.array ∧ r.capacity = s.capacity ∧ m'.lengths = m.lengths
  inNew : s.capacity < s.size + xs.length →
    r.array = some m.arrays.size ∧ r.capacity = max (2 * s.capacity) (s.size + xs.length) ∧
      m'.lengths = m.lengths ++ [r.capacity]

theorem getElem?_lengths (m : Memory T) (b : Nat) :
    m.lengths[b]? = if b < m.arrays.size then some (m.length b) else none := by
  rw [lengths, List.getElem?_map, Memory.length, Store.get, List.getD_eq_getElem?_getD]
  by_cases h : b < m.arrays.size
  · rw [if_pos h, List.getElem?_eq_getElem h]
    rfl
  · rw [if_neg h, List.getElem?_eq_none (Nat.not_lt.mp h)]
    rfl

theorem lengths_eq (hsize : m'.arrays.size = m.arrays.size)
    (hlength : ∀ b, m'.length b = m.length b) : m'.lengths = m.lengths := by
  refine List.ext_getElem? fun b => ?_
  rw [getElem?_lengths, getElem?_lengths, hsize, hlength]

/-- The new array comes last. -/
theorem lengths_new (hkeeps : m.Keeps m') (hsize : m'.arrays.size ≤ m.arrays.size + 1)
    (hr : r.Valid m') (harray : r.array = some m.arrays.size) (hpos : r.pos = 0) :
    m'.lengths = m.lengths ++ [r.capacity] := by
  obtain ⟨hlt, hwindow⟩ : m.arrays.size < m'.arrays.size ∧
    r.pos + r.capacity = m'.length m.arrays.size := hr.window _ harray
  have hlen : m.lengths.length = m.arrays.size := List.length_map ..
  refine List.ext_getElem? fun b => ?_
  rw [getElem?_lengths]
  rcases Nat.lt_trichotomy b m.arrays.size with h | rfl | h
  · rw [if_pos (by omega), List.getElem?_append_left (by omega), getElem?_lengths, if_pos h,
      hkeeps.1.length b h]
  · rw [if_pos hlt, ← hlen, List.getElem?_concat_length, hlen, ← hwindow, hpos, Nat.zero_add]
  · rw [if_neg (by omega), List.getElem?_eq_none]
    rw [List.length_append, List.length_singleton]
    omega

/-- The capacity for more than there is room for. -/
theorem grown_eq (hfull : s.capacity < s.size + n) (hfits : s.Fits n) :
    s.grown n = max (2 * s.capacity) (s.size + n) := by
  have hdoubled : s.doubled = if s.capacity ≠ 0 then 2 * s.capacity else 1 := by
    rw [doubled, mulSize_of_lt (hfits.2 hfull), Nat.mul_comm]
  rw [grown, hdoubled]
  split <;> split <;> omega

theorem doubled_eq (h : s.Valid m) (hfull : s.capacity ≤ s.size) (hfits : s.Fits 1) :
    s.doubled = max (2 * s.capacity) (s.size + 1) := by
  have hle := le_doubled h hfull (hfits.2 (by omega))
  rw [← grown_eq (by omega) hfits, grown, if_neg (by omega)]

/-- `append(val)`. -/
theorem grew_one (h : s.Valid m) (hpos : s.pos = 0) (hfits : s.Fits 1) (v : T) :
    ∃ r m', s.append v noFaults m = .ok r m' ∧ Grew m m' s r [v] := by
  have hmakes : Makes (s.append v noFaults) m := makes_append h hfits v noFaults
  have hsize : Ends (s.append v noFaults) m _ _ := ends_size_append s noFaults (.one v)
  by_cases hroom : s.size < s.capacity
  · obtain ⟨a, m', ha, hlt, happend, hput⟩ := append_inPlace h hroom hfits v
    have hw : m.Wrote m' a (s.pos + s.size) 1 := by
      rw [hpos, Nat.zero_add]
      exact hput.wrote
    have hlast : m'.cell (a, s.pos + s.size) = some v := by
      rw [hpos, Nat.zero_add]
      exact hput.self
    refine ⟨_, m', happend, ?_, rfl, hpos, fun b _ hb j => ?_, fun _ => ⟨rfl, rfl, ?_⟩, ?_⟩
    · calc elements m' ⟨s.array, s.capacity, s.size + 1, s.pos⟩
          = m'.held (some (a, s.pos)) (s.size + 1) := elements_some ha
        _ = m'.held (some (a, s.pos)) s.size ++ m'.held (some (a, s.pos + s.size)) 1 :=
          (held_append ..).symm
        _ = elements m s ++ [v] := by
          rw [held_one hlast, ← elements_some ha,
            elements_wrote hw fun _ => .inl (Nat.le_refl _)]
    · exact hw.outside b j (.inl fun heq => hb (by rw [ha, heq]))
    · exact lengths_eq hput.size hput.length
    · intro hfull
      rw [List.length_singleton] at hfull
      omega
  · obtain ⟨m', happend, hkeeps, hheld⟩ := append_grow h (Nat.not_lt.mp hroom) hfits v
    unfold Makes Ends at hmakes
    unfold Ends at hsize
    rw [happend] at hmakes hsize
    refine ⟨_, m', happend, hheld, rfl, rfl, fun b hb _ j => hkeeps.2 b hb j, ?_,
      fun _ => ⟨rfl, doubled_eq h (Nat.not_lt.mp hroom) hfits, ?_⟩⟩
    · intro hle
      rw [List.length_singleton] at hle
      omega
    · exact lengths_new hkeeps hsize hmakes.2 rfl rfl

/-- `append(arrs, size)`, from another array. -/
theorem grew_many (h : s.Valid m) (hpos : s.pos = 0) {arrs : Pointer} (harrs : m.Points arrs n)
    (hfits : s.Fits n)
    (hother : ∀ a place, s.array = some a → arrs = some place → n = 0 ∨ place.1 ≠ a) :
    ∃ r m', s.appendArray arrs n noFaults m = .ok r m' ∧ Grew m m' s r (m.held arrs n) := by
  have hlen := length_held harrs
  have hapart : ∀ a place, s.array = some a → arrs = some place →
      Apart place (a, s.pos + s.size) n := fun a place ha hp heq =>
    (hother a place ha hp).elim (fun hn => by omega) fun hne => absurd heq hne
  obtain ⟨r, m', happend, hdone⟩ := appendArray_appended h harrs hfits hapart
  refine ⟨r, m', happend, ?_⟩
  by_cases hroom : s.size + n ≤ s.capacity
  · obtain ⟨harray, hrpos, hcap, hout⟩ := hdone.inPlace (by rw [hlen]; exact hroom)
    have hlengths : m'.lengths = m.lengths := by
      by_cases hn : n = 0
      · subst hn
        cases (appendArray_zero h hfits arrs).symm.trans happend
        rfl
      · obtain ⟨b, k, a, m₁, rfl, -, -, h₁, hcopied⟩ :=
          appendArray_inPlace h harrs hroom hfits hn
        cases h₁.symm.trans happend
        exact lengths_eq hcopied.size hcopied.length
    refine ⟨hdone.elements, hdone.size, hrpos.trans hpos,
      fun b _ hb j => hout b j fun hb' => absurd hb' hb, fun _ => ⟨harray, hcap, hlengths⟩, ?_⟩
    intro hfull
    rw [hlen] at hfull
    omega
  · have hfull : s.capacity < s.size + n := Nat.lt_of_not_le hroom
    obtain ⟨m₁, h₁, hkeeps, -⟩ := appendArray_grow h harrs hfull hfits
    cases h₁.symm.trans happend
    have hmakes : Makes (s.appendArray arrs n noFaults) m :=
      makes_appendArray h harrs hfits noFaults
    have hsize : Ends (s.appendArray arrs n noFaults) m _ _ :=
      ends_size_append s noFaults (.many arrs n)
    unfold Makes Ends at hmakes
    unfold Ends at hsize
    rw [happend] at hmakes hsize
    refine ⟨hdone.elements, hdone.size, rfl, fun b hb _ j => hkeeps.2 b hb j, ?_, fun _ => ⟨rfl,
      by rw [hlen, ← grown_eq hfull hfits], lengths_new hkeeps hsize hmakes.2 rfl rfl⟩⟩
    intro hle
    rw [hlen] at hle
    exact absurd hle hroom

/-- The elements behind a pointer stay what they were. -/
theorem held_keeps (hkeeps : m.Keeps m') {p : Pointer} (hp : m.Points p n) :
    m'.held p n = m.held p n := by
  rcases hp with rfl | ⟨a, k, rfl, ha, -⟩
  · have h : ∀ m₁ : Memory T, m₁.held p 0 = [] := fun m₁ =>
      List.length_eq_zero_iff.mp (length_held (.inl rfl))
    rw [h, h]
  · exact held_congr fun i _ => hkeeps.2 a ha _

/-- One call, with an array that was there before the slice. -/
theorem ends_piece (h : s.Valid m') (hpos : s.pos = 0) (hkeeps : m.Keeps m')
    (hown : ∀ a, s.array = some a → m.arrays.size ≤ a) {x : Piece T} (hx : x.In m)
    (hfits : s.Fits x.size) (faults : Faults) :
    Ends (x.append s faults) m'
      (fun r m'' => r.Valid m'' ∧ m'.Extends m'' ∧ Grew m' m'' s r (x.elements m))
      fun e m'' => e = .badAlloc ∧ faults ≠ noFaults ∧ m'' = m' := by
  obtain ⟨r, m₁, hgrew, hmakes, hsame⟩ :
      ∃ r m₁, (x.append s noFaults m' = .ok r m₁ ∧ Grew m' m₁ s r (x.elements m)) ∧
        Makes (x.append s faults) m' ∧
        ∀ r' m₂, x.append s faults m' = .ok r' m₂ → x.append s noFaults m' = .ok r' m₂ := by
    cases x with
    | one v =>
      obtain ⟨r, m₁, hgrew⟩ := grew_one h hpos hfits v
      exact ⟨r, m₁, hgrew, makes_append h hfits v faults, fun _ _ => append_noFaults⟩
    | many arrs n =>
      have hpoints : m'.Points arrs n := hx.extends hkeeps.1
      have hother : ∀ a place, s.array = some a → arrs = some place → n = 0 ∨ place.1 ≠ a := by
        rintro a place ha rfl
        refine hx.imp_right ?_
        rintro ⟨b, k, hb, hlt, -⟩ rfl
        cases hb
        exact absurd (hown _ ha) (Nat.not_le_of_lt hlt)
      obtain ⟨r, m₁, hgrew⟩ := grew_many h hpos hpoints hfits hother
      rw [held_keeps hkeeps hx] at hgrew
      exact ⟨r, m₁, hgrew, makes_appendArray h hpoints hfits faults,
        fun _ _ => appendArray_noFaults⟩
  unfold Makes Ends at hmakes
  unfold Ends
  cases happend : x.append s faults m' with
  | ok r' m₂ =>
    rw [happend] at hmakes
    cases (hsame r' m₂ happend).symm.trans hgrew.1
    exact ⟨hmakes.2, hmakes.1, hgrew.2⟩
  | error e m₂ =>
    rw [happend] at hmakes
    refine ⟨hmakes.1, ?_, hmakes.2⟩
    rintro rfl
    cases hgrew.1.symm.trans happend

end Call

/-! ## Runs -/

section Runs

variable {m m₀ : Memory T} {s : SliceImpl}

/-- What the calls with these results have appended. -/
def appended (m : Memory T) (calls : List (Piece T × Faults)) (outs : List (Except Fault Unit)) :
    List T :=
  (calls.zip outs).flatMap (shown m)

/-- How many elements the calls are to append. -/
def asked (calls : List (Piece T × Faults)) : Nat := (calls.map fun x => x.1.size).sum

/-- What calls with these results leave of the slice `s`, which was made in `m` and
left `m₀`. -/
structure Built (m m₀ : Memory T) (s : SliceImpl) (calls : List (Piece T × Faults))
    (outs : List (Except Fault Unit)) (st : Memory T × SliceImpl) : Prop where
  length : outs.length = calls.length
  valid : st.2.Valid st.1
  pos : st.2.pos = 0
  size : st.2.size ≤ s.size + asked calls
  own : ∀ a, st.2.array = some a → m.arrays.size ≤ a
  keeps : m.Keeps st.1
  elements : st.2.elements st.1 = s.elements m₀ ++ appended m calls outs
  arrays : ∃ made, st.1.lengths = m₀.lengths ++ made ∧
    Doubled s.capacity st.2.size st.2.capacity made
  throws : ∀ x ∈ calls.zip outs, ∀ e, x.2 = .error e → e = .badAlloc ∧ x.1.2 ≠ noFaults

/-- The slice that is made. -/
theorem ends_create (size capacity : Nat) (faults : Faults) :
    Ends (create size capacity faults) m
      (fun s m' => s.size = size ∧ s.pos = 0 ∧ (∀ a, s.array = some a → m.arrays.size ≤ a) ∧
        m.Keeps m')
      fun _ _ => True := by
  refine ends_bind (ends_makeImpl trivial) ?_
  rintro _ _ rfl
  refine ends_ite (fun _ => ?_) fun _ => ends_pure ⟨rfl, rfl, (fun a ha => by cases ha),
    .refl _, fun _ _ _ => rfl⟩
  cases hfails : faults.array with
  | true => exact ends_of_error (e := .badAlloc) (bind_of_error rfl _) trivial
  | false =>
    obtain ⟨m', hnew, hkeeps, -⟩ := newArray_ok _ (if capacity < size then size else capacity)
    refine ends_bind_of_ok hnew (ends_pure ⟨rfl, rfl, fun a ha => ?_, hkeeps⟩)
    cases ha
    exact Nat.le_refl _

/-- A slice that was just made. -/
theorem built_create {size capacity : Nat} {faults : Faults}
    (h : create size capacity faults m = .ok s m₀) :
    s.size = size ∧ Built m m₀ s [] [] (m₀, s) := by
  have hmakes : Makes (create size capacity faults) m := makes_create size capacity faults
  have hends : Ends (create size capacity faults) m _ _ := ends_create size capacity faults
  unfold Makes Ends at hmakes
  unfold Ends at hends
  rw [h] at hmakes hends
  obtain ⟨hsize, hpos, hown, hkeeps⟩ := hends
  refine ⟨hsize, rfl, hmakes.2, hpos, Nat.le_refl _, hown, hkeeps, (List.append_nil _).symm,
    ⟨[], (List.append_nil _).symm, .start hmakes.2.size_le⟩, fun x hx => by cases hx⟩

section Step

variable {calls : List (Piece T × Faults)} {outs : List (Except Fault Unit)}
  {st : Memory T × SliceImpl}

theorem asked_concat (calls : List (Piece T × Faults)) (x : Piece T × Faults) :
    asked (calls ++ [x]) = asked calls + x.1.size := by
  rw [asked, List.map_append, List.sum_append]
  rfl

theorem appended_concat (hlen : outs.length = calls.length) (x : Piece T × Faults)
    (out : Except Fault Unit) :
    appended m (calls ++ [x]) (outs ++ [out]) = appended m calls outs ++ shown m (x, out) := by
  rw [appended, List.zip_append hlen.symm, List.flatMap_append]
  exact congrArg _ (List.append_nil _)

theorem throws_concat (hlen : outs.length = calls.length) {x : Piece T × Faults}
    {out : Except Fault Unit} {P : (Piece T × Faults) × Except Fault Unit → Prop}
    (h : ∀ y ∈ calls.zip outs, P y) (hx : P (x, out)) :
    ∀ y ∈ (calls ++ [x]).zip (outs ++ [out]), P y := by
  rw [List.zip_append hlen.symm]
  intro y hy
  rcases List.mem_append.mp hy with hy | hy
  · exact h y hy
  · rw [List.mem_singleton.mp hy]
    exact hx

/-- The slice has an array of its own still, or a new one. -/
theorem Grew.own {m₁ m₂ : Memory T} {r t : SliceImpl} {xs : List T} (h : Grew m₁ m₂ t r xs)
    {n : Nat} (hown : ∀ a, t.array = some a → n ≤ a) (hn : n ≤ m₁.arrays.size) :
    ∀ a, r.array = some a → n ≤ a := by
  intro a ha
  by_cases hroom : t.size + xs.length ≤ t.capacity
  · exact hown a ((h.inPlace hroom).1.symm.trans ha)
  · cases (h.inNew (Nat.lt_of_not_le hroom)).1.symm.trans ha
    exact hn

/-- What one call that returns does to the arrays. -/
theorem arrays_grew {c : Nat} {made : List Nat} {m₁ m₂ : Memory T} {r t : SliceImpl} {xs : List T}
    (h : Grew m₁ m₂ t r xs) (hlengths : m₁.lengths = m₀.lengths ++ made)
    (hdoubled : Doubled c t.size t.capacity made) :
    ∃ made', m₂.lengths = m₀.lengths ++ made' ∧ Doubled c r.size r.capacity made' := by
  have hsize := h.size
  by_cases hroom : t.size + xs.length ≤ t.capacity
  · obtain ⟨-, hcap, hsame⟩ := h.inPlace hroom
    refine ⟨made, hsame.trans hlengths, ?_⟩
    rw [hcap, hsize]
    exact hdoubled.stay (by omega) hroom
  · obtain ⟨-, hcap, hnew⟩ := h.inNew (Nat.lt_of_not_le hroom)
    refine ⟨made ++ [r.capacity], ?_, ?_⟩
    · rw [hnew, hlengths, List.append_assoc]
    · rw [hcap, hsize]
      exact hdoubled.grow (Nat.lt_of_not_le hroom)

/-- One call more. -/
theorem Built.step (h : Built m m₀ s calls outs st) {x : Piece T × Faults} (hx : x.1.In m)
    (hsum : s.size + asked (calls ++ [x]) < 2 ^ 63) :
    Built m m₀ s (calls ++ [x]) (outs ++ [(assign st x).2]) (assign st x).1 := by
  obtain ⟨made, hlengths, hdoubled⟩ := h.arrays
  have hsize := h.size
  rw [asked_concat] at hsum
  have hfits : st.2.Fits x.1.size := ⟨by omega, fun _ => by omega⟩
  have hlength : (outs ++ [(assign st x).2]).length = (calls ++ [x]).length := by
    rw [List.length_append, List.length_append, h.length]
    rfl
  have hends := ends_piece h.valid h.pos h.keeps h.own hx hfits x.2
  unfold Ends at hends
  unfold assign at hlength ⊢
  generalize x.1.append st.2 x.2 st.1 = result at hends hlength ⊢
  cases result with
  | ok r m₂ =>
    obtain ⟨hvalid, hext, hgrew⟩ := hends
    dsimp only at hlength ⊢
    have hrsize := hgrew.size
    rw [Piece.length_elements hx] at hrsize
    refine ⟨hlength, hvalid, hgrew.pos, ?_, ?_, ⟨h.keeps.1.trans hext, ?_⟩, ?_,
      arrays_grew hgrew hlengths hdoubled,
      throws_concat h.length h.throws fun e he => by cases he⟩
    · rw [asked_concat]
      show r.size ≤ _
      omega
    · exact hgrew.own h.own h.keeps.1.size
    · intro b hb j
      rw [← h.keeps.2 b hb j]
      refine hgrew.outside b (Nat.lt_of_lt_of_le hb h.keeps.1.size) (fun ha => ?_) j
      exact Nat.not_le_of_lt hb (h.own b ha)
    · rw [hgrew.elements, h.elements, appended_concat h.length, List.append_assoc]
      rfl
  | error e m₂ =>
    obtain ⟨rfl, hfaults, rfl⟩ := hends
    dsimp only at hlength ⊢
    refine ⟨hlength, h.valid, h.pos, ?_, h.own, h.keeps, ?_, h.arrays,
      throws_concat h.length h.throws fun e he => ?_⟩
    · rw [asked_concat]
      show st.2.size ≤ _
      omega
    · rw [appended_concat h.length, h.elements]
      exact congrArg _ (List.append_nil _).symm
    · cases he
      exact ⟨rfl, hfaults⟩

end Step

theorem built_run {size capacity : Nat} {faults : Faults}
    (hcreate : create size capacity faults m = .ok s m₀) (calls : List (Piece T × Faults))
    (hin : ∀ x ∈ calls, x.1.In m) (hsum : size + asked calls < 2 ^ 63) :
    Built m m₀ s calls (run assign (m₀, s) calls).2 (run assign (m₀, s) calls).1 := by
  obtain ⟨rfl, hbuilt⟩ := built_create hcreate
  refine run_history assign (fun _ => True)
    (fun calls outs st => (∀ x ∈ calls, x.1.In m) → s.size + asked calls < 2 ^ 63 →
      Built m m₀ s calls outs st)
    (fun calls outs st x ih _ hin hsum => ?_) (fun _ _ => hbuilt) calls (fun _ _ => trivial)
    hin hsum
  have hbefore : s.size + asked calls < 2 ^ 63 := by
    rw [asked_concat] at hsum
    omega
  refine (ih (fun y hy => hin y (List.mem_append_left _ hy)) hbefore).step ?_ hsum
  exact hin x (List.mem_append_right _ (List.mem_singleton_self x))

/-- **Building by appending**: the slice shows what was appended, in order, a call fails
only when an allocation does, and all the arrays together are not four times as long as
what the slice shows. -/
theorem builds {size capacity : Nat} {faults : Faults}
    (hcreate : create size capacity faults m = .ok s m₀) (calls : List (Piece T × Faults))
    (hin : ∀ x ∈ calls, x.1.In m) (hsum : size + asked calls < 2 ^ 63)
    {outs : List (Except Fault Unit)} {m' : Memory T} {r : SliceImpl}
    (hrun : run assign (m₀, s) calls = ((m', r), outs)) :
    r.elements m' = s.elements m₀ ++ appended m calls outs ∧
      (∀ x ∈ calls.zip outs, ∀ e, x.2 = .error e → e = .badAlloc ∧ x.1.2 ≠ noFaults) ∧
      m.Keeps m' ∧
      ∃ made, m'.lengths = m₀.lengths ++ made ∧
        (made = [] ∧ r.capacity = s.capacity ∨
          r.capacity < 2 * r.size ∧ made.sum < 4 * r.size ∧ 2 ^ made.length < 4 * r.size) := by
  have hbuilt := built_run hcreate calls hin hsum
  rw [hrun] at hbuilt
  obtain ⟨made, hlengths, hdoubled⟩ := hbuilt.arrays
  refine ⟨hbuilt.elements, hbuilt.throws, hbuilt.keeps, made, hlengths, ?_⟩
  exact hdoubled.tight.imp_right fun ⟨hne, hlt⟩ =>
    ⟨hlt, hdoubled.sum_lt hlt, hdoubled.two_pow_length_lt hne hlt⟩

end Runs

/-- Three elements of the program's. -/
def threeOnes : Memory Nat := ⟨fun _ _ => 0, ⟨[[1, 1, 1]]⟩⟩

/-- One element, then all of the array, once without memory. -/
def fourOnes : List (Piece Nat × Faults) :=
  [(.one 1, noFaults), (.many (some (0, 0)) 3, ⟨true, false⟩), (.many (some (0, 0)) 3, noFaults)]

/-- What the two calls that return append follows, and two arrays were enough. -/
theorem builds_fourOnes :
    ∃ m' r, run assign (threeOnes, ⟨none, 0, 0, 0⟩) fourOnes =
        ((m', r), [.ok (), .error .badAlloc, .ok ()]) ∧
      r.elements m' = [1, 1, 1, 1] ∧ m'.lengths = [3] ++ [1, 4] := by
  have hcreate : create 0 0 noFaults threeOnes = .ok ⟨none, 0, 0, 0⟩ threeOnes := rfl
  have hin : ∀ x ∈ fourOnes, x.1.In threeOnes := by
    have hpoints : threeOnes.Points (some (0, 0)) 3 := .inr ⟨0, 0, rfl, by decide, by decide⟩
    rintro x (_ | ⟨_, _ | ⟨_, _ | ⟨_, ⟨⟩⟩⟩⟩)
    exacts [trivial, hpoints, hpoints]
  have h := builds hcreate fourOnes hin (by decide) rfl
  exact ⟨_, _, rfl, h.1, rfl⟩

end KgCpp.Slice
