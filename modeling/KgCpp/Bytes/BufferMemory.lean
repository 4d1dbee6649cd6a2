import KgCpp.Bytes.BufferCache
import KgCpp.Bytes.BufferShape

/-!
# The memory of a buffer

What a buffer costs beyond the bytes that it holds.

- `Compact P c m b`: no fragment has more than `m` bytes, all but the last are filled
  to their end, and those behind the first satisfy `P`.
- `memory_after_le`: over every run, with any allocation failures, the fragments and the
  cache have together at most three times `m` bytes more than are readable.
- `fragments_after_le`: when no allocation fails the fragments between the first and the
  last hold at least `_capacity` readable bytes each, so that there are, but for two, no
  more fragments than blocks of `_capacity` bytes in what is readable.
-/

namespace KgCpp.Bytes

open Lib

/-- The bytes of the arrays of some fragments. -/
def allocated (heap : Store Fragmentation) (fs : List Ref) : Nat :=
  (fs.map fun f => (heap.get f).capacity).sum

theorem allocated_cons (heap : Store Fragmentation) (f : Ref) (fs : List Ref) :
    allocated heap (f :: fs) = (heap.get f).capacity + allocated heap fs :=
  List.sum_cons

namespace Buffer

/-- The bytes of the arrays that a buffer keeps, with the cached one. -/
def memory (b : Buffer) : Nat :=
  allocated b.heap b.fragmentations + allocated b.heap b.cache.toList

/-- How a buffer with the construction capacity `c` is laid out when no fragment has more
than `m` bytes. -/
structure Compact (P : Fragmentation → Prop) (c : Int32) (m : Nat) (b : Buffer) : Prop where
  wf : b.WF
  capacity : b.capacity = c
  small : ∀ f, f < b.heap.size → (b.heap.get f).capacity ≤ m
  tight : b.Tight
  behind : ∀ f ∈ b.fragmentations.tail, P (b.heap.get f)

section Compact

variable {P : Fragmentation → Prop} {c : Int32} {m : Nat} {b : Buffer}

theorem compact_create (fresh : Nat → Nat → Byte) : Compact P c m (create c fresh) where
  wf := wf_create c fresh
  capacity := rfl
  small f hf := absurd hf (Nat.not_lt_zero f)
  tight f hf := by cases hf
  behind f hf := by cases hf

/-- The list goes, and nothing is made. -/
theorem Compact.of_nil (h : Compact P c m b) {b' : Buffer} (hwf : b'.WF)
    (hcap : b'.capacity = b.capacity) (hheap : b'.heap = b.heap)
    (hfs : b'.fragmentations = []) : Compact P c m b' where
  wf := hwf
  capacity := hcap.trans h.capacity
  small := by
    rw [hheap]
    exact h.small
  tight := by simp [Tight, hfs]
  behind := by simp [hfs]

theorem reset_frame (b : Buffer) (clearcache : Bool) :
    (b.reset clearcache).capacity = b.capacity ∧ (b.reset clearcache).heap = b.heap ∧
      (b.reset clearcache).fragmentations = [] := by
  unfold reset
  split
  · exact ⟨rfl, rfl, rfl⟩
  · split <;> exact ⟨rfl, rfl, rfl⟩

theorem compact_reset (h : Compact P c m b) (clearcache : Bool) :
    Compact P c m (b.reset clearcache) := by
  obtain ⟨hcap, hheap, hfs⟩ := b.reset_frame clearcache
  exact h.of_nil (reset_spec h.wf clearcache).1 hcap hheap hfs

theorem compact_resetCache (h : Compact P c m b) : Compact P c m b.resetCache where
  wf := (resetCache_spec h.wf).1
  capacity := h.capacity
  small := h.small
  tight := h.tight
  behind := h.behind

/-! ## `write` -/

/-- What `create_fragmentation` does: the fragment is new, or one that fits. -/
theorem createFragmentation_cases (b : Buffer) (k : Nat) (faults : WriteFaults) :
    (∃ r b', b.createFragmentation k faults = (r, b') ∧ b'.capacity = b.capacity ∧
      (r = none ∧ b' = b ∨
        r = some b.heap.size ∧
          b'.heap = b.heap.alloc (.create b.fresh b.heap.size k faults.array) ∨
        ∃ f, b.cache = some f ∧ r = some f ∧ b'.heap = b.heap.set f (b.heap.get f).reinit)) := by
  have hmake : ∃ r b', b.makeShared k faults = (r, b') ∧ b'.capacity = b.capacity ∧
      (r = none ∧ b' = b ∨ r = some b.heap.size ∧
        b'.heap = b.heap.alloc (.create b.fresh b.heap.size k faults.array)) := by
    unfold makeShared
    split
    · exact ⟨_, _, rfl, rfl, .inl ⟨rfl, rfl⟩⟩
    · exact ⟨_, _, rfl, rfl, .inr ⟨rfl, rfl⟩⟩
  obtain ⟨r, b', hb', hcap, hcases⟩ := hmake
  unfold createFragmentation
  split
  · exact ⟨r, b', hb', hcap, hcases.imp_right .inl⟩
  · rename_i f hf
    split
    · exact ⟨r, b', hb', hcap, hcases.imp_right .inl⟩
    · exact ⟨_, _, rfl, rfl, .inr (.inr ⟨f, hf, rfl, rfl⟩)⟩

/-- The array of a new fragment has at most the bytes that were asked for. -/
theorem capacity_create_le (fresh : Nat → Nat → Byte) (k n : Nat) (fails : Bool) :
    (Fragmentation.create fresh k n fails).capacity ≤ n ∧
      (Fragmentation.create fresh k n fails).offset = 0 := by
  unfold Fragmentation.create
  split
  · exact ⟨Nat.zero_le n, rfl⟩
  · split
    · exact ⟨Nat.zero_le n, rfl⟩
    · exact ⟨Nat.le_refl n, rfl⟩

/-- After `create_fragmentation`; nobody has read from what it gives. -/
theorem compact_createFragmentation (h : Compact P c m b) {k : Nat} (hk : k ≤ m)
    (faults : WriteFaults) :
    Compact P c m (b.createFragmentation k faults).2 ∧
      ∀ f, (b.createFragmentation k faults).1 = some f →
        ((b.createFragmentation k faults).2.heap.get f).offset = 0 := by
  have hcr := createFragmentation_created h.wf k faults
  obtain ⟨r, b', hb', hcap, hcases⟩ := b.createFragmentation_cases k faults
  rw [hb'] at hcr ⊢
  cases hcr with
  | failed => exact ⟨h, fun f hf => by cases hf⟩
  | @made f _ hwf hdet hfs hframe =>
    have hnew : (b'.heap.get f).offset = 0 ∧
        ∀ g, g < b'.heap.size → (b'.heap.get g).capacity ≤ m := by
      rcases hcases with ⟨hr, -⟩ | ⟨hr, hheap⟩ | ⟨g, hg, hr, hheap⟩
      · cases hr
      · cases hr
        have hcreate := capacity_create_le b.fresh b.heap.size k faults.array
        rw [hheap, Store.size_alloc, Store.get_alloc_new]
        refine ⟨hcreate.2, fun g hlt => ?_⟩
        rcases Nat.lt_succ_iff_lt_or_eq.mp hlt with hlt | rfl
        · rw [Store.get_alloc_old hlt]
          exact h.small g hlt
        · rw [Store.get_alloc_new]
          exact hcreate.1.trans hk
      · cases hr
        have hvalid := h.wf.cacheValid f hg
        rw [hheap, Store.get_set_self hvalid]
        have hsame : SameCapacities b.heap (b.heap.set f (b.heap.get f).reinit) := .set rfl
        refine ⟨rfl, fun g hlt => ?_⟩
        rw [Store.size_set] at hlt
        rw [hsame.capacity g hlt]
        exact h.small g hlt
    refine ⟨⟨hwf, hcap.trans h.capacity, hnew.2, fun g hg => ?_, fun g hg => ?_⟩, fun g hg => ?_⟩
    · rw [hfs] at hg
      rw [hframe g (List.mem_of_mem_dropLast hg)]
      exact h.tight g hg
    · rw [hfs] at hg
      rw [hframe g (List.mem_of_mem_tail hg)]
      exact h.behind g hg
    · cases hg
      exact hnew.1

/-- Writing to the last fragment. -/
theorem compact_writeTo_last (h : Compact P c m b) (hP : ∀ x bytes, P x → P (x.write bytes).2)
    {fs : List Ref} {f : Ref} (hfs : b.fragmentations = fs ++ [f]) (bytes : List Byte) :
    Compact P c m (b.writeTo f bytes) := by
  obtain ⟨hself, hother⟩ := writeTo_last h.wf hfs bytes
  have hsame : SameCapacities b.heap (b.writeTo f bytes).heap := .set rfl
  refine ⟨wf_writeTo h.wf f bytes, h.capacity, fun g hg => ?_, fun g hg => ?_, fun g hg => ?_⟩
  · have hlt : g < b.heap.size := by
      rw [← Store.size_set b.heap f ((b.heap.get f).write bytes).2]
      exact hg
    rw [hsame.capacity g hlt]
    exact h.small g hlt
  · have hg' : g ∈ b.fragmentations.dropLast := hg
    have hold := h.tight g hg'
    rw [hfs, List.dropLast_concat] at hg'
    rw [hother g hg']
    exact hold
  · have hold := h.behind g hg
    rcases List.mem_append.mp (hfs ▸ List.mem_of_mem_tail hg) with hg' | hg'
    · rw [hother g hg']
      exact hold
    · rw [List.mem_singleton.mp hg'] at hold ⊢
      rw [hself]
      exact hP _ bytes hold

/-- A fragment more, when the others are full. -/
theorem compact_pushBack (h : Compact P c m b) {f : Ref} (hdet : b.Detached f)
    (hfull : ∀ g ∈ b.fragmentations, (b.heap.get g).Full)
    (hnew : b.fragmentations ≠ [] → P (b.heap.get f)) : Compact P c m (b.pushBack f) where
  wf := wf_pushBack h.wf hdet
  capacity := h.capacity
  small := h.small
  tight g hg := hfull g (by rwa [pushBack, List.dropLast_concat] at hg)
  behind := by
    intro g hg
    by_cases hnil : b.fragmentations = []
    · rw [pushBack, hnil] at hg
      cases hg
    · rw [pushBack, List.tail_append_of_ne_nil hnil] at hg
      rcases List.mem_append.mp hg with hg | hg
      · exact h.behind g hg
      · rw [List.mem_singleton.mp hg]
        exact hnew hnil

/-- A fragment behind others is asked for at least `_capacity` bytes. -/
theorem le_request_of_last {fs : List Ref} {f0 : Ref} (hfs : b.fragmentations = fs ++ [f0])
    (n : Nat) : sizeOfInt b.capacity ≤ b.request n := by
  rw [request_of_last hfs, newCapacity]
  split <;> omega

theorem request_le (hc : sizeOfInt b.capacity ≤ m) {n : Nat} (hn : n ≤ m)
    (hfree : b.tailFree < n) : b.request n ≤ m := by
  rcases List.eq_nil_or_concat' b.fragmentations with hfs | ⟨fs, f, hfs⟩
  · rw [request_of_nil hfs]
    exact hn
  · rw [tailFree_of_last hfs] at hfree
    rw [request_of_last hfs, subSize_of_le hfree.le, newCapacity]
    split <;> omega

/-- `write`, whatever its allocations do. -/
theorem compact_write (h : Compact P c m b) (hc : sizeOfInt c ≤ m) {bytes : List Byte}
    (hn : bytes.length ≤ m) (faults : WriteFaults)
    (hP : ∀ x bytes, P x → P (x.write bytes).2)
    (hnew : ∀ x : Fragmentation, x.offset = 0 →
      (faults = .none → sizeOfInt c ≤ x.capacity) → P x) :
    Compact P c m (b.write bytes faults).2 := by
  by_cases hnil : bytes = []
  · rw [hnil, write_nil]
    exact h
  have hcases := b.write_cases hnil faults
  have hreq : b.tailFree < bytes.length → b.request bytes.length ≤ m :=
    request_le (by rw [h.capacity]; exact hc) hn
  have hcr := createFragmentation_created h.wf (b.request bytes.length) faults
  have hcompact := fun hlt => compact_createFragmentation h (hreq hlt) faults
  generalize b.write bytes faults = r at hcases
  cases hcases with
  | fits hlast _ => exact compact_writeTo_last h hP hlast bytes
  | stops hlt hcreate _ =>
    rw [hcreate] at hcompact
    exact (hcompact hlt).1
  | @first f b' hfs hcreate _ =>
    rw [hcreate] at hcr hcompact
    have hlt : b.tailFree < bytes.length := by
      rw [tailFree_of_nil hfs]
      exact List.length_pos_of_ne_nil hnil
    cases hcr with
    | made _ hdet hfs' =>
      have hnil' : b'.fragmentations = [] := hfs'.trans hfs
      refine compact_writeTo_last (compact_pushBack (hcompact hlt).1 hdet ?_ ?_) hP rfl bytes
      · rw [hnil']
        exact fun g hg => by cases hg
      · exact fun hne => absurd hnil' hne
  | @more fs f0 f b' hlast hlt hcreate _ =>
    rw [hcreate] at hcr hcompact
    rw [← tailFree_of_last hlast] at hlt
    obtain ⟨hb', hoffset⟩ := hcompact hlt
    cases hcr with
    | made _ hdet hfs' hframe _ _ _ hfits =>
      have hlast' : b'.fragmentations = fs ++ [f0] := hfs'.trans hlast
      have hf0 : b'.heap.get f0 = b.heap.get f0 := hframe f0 (by rw [hlast]; simp)
      rw [tailFree_of_last hlast, ← hf0] at hlt
      rw [← hf0]
      have hne : f ≠ f0 := fun hff => hdet.notMem (by rw [hlast', hff]; simp)
      -- the last fragment is filled, and the new one comes behind it
      have hfilled := compact_writeTo_last hb' hP hlast' (bytes.take (b'.heap.get f0).getFree)
      have hstays : (b'.writeTo f0 (bytes.take (b'.heap.get f0).getFree)).heap.get f =
        b'.heap.get f := Store.get_set_ne hne _
      refine compact_writeTo_last (compact_pushBack hfilled (hdet.writeTo f0 _) ?_ fun _ => ?_) hP
        rfl (bytes.drop (b'.heap.get f0).getFree)
      · intro g hg
        rcases List.mem_append.mp (hlast' ▸ hg) with hg' | hg'
        · exact hfilled.tight g (by
            show g ∈ b'.fragmentations.dropLast
            rw [hlast', List.dropLast_concat]
            exact hg')
        · rw [List.mem_singleton.mp hg', (writeTo_last hb'.wf hlast' _).1]
          refine Fragmentation.full_write ?_
          show (b'.heap.get f0).getFree ≤ _
          rw [List.length_take]
          omega
      · rw [hstays]
        refine hnew _ (hoffset f rfl) fun hnone => ?_
        have hroom := hfits (.inr (by rw [hnone]; rfl))
        have hle := le_request_of_last hlast bytes.length
        have hfree := (b'.heap.get f).getFree_eq
        rw [h.capacity] at hle
        omega

/-! ## `read` -/

theorem compact_pop (h : Compact P c m b) : Compact P c m b.removeNoReadFragmentation := by
  obtain ⟨⟨pre, hpre⟩, -, -, -⟩ := popDrained_spec b.heap b.fragmentations b.cache
  have hfs : pre ++ b.removeNoReadFragmentation.fragmentations = b.fragmentations := hpre
  refine ⟨(removeNoReadFragmentation_spec h.wf).1, h.capacity, h.small, fun g hg => ?_,
    fun g hg => ?_⟩
  · have hne : b.removeNoReadFragmentation.fragmentations ≠ [] := fun hnil => by
      rw [hnil] at hg
      cases hg
    refine h.tight g ?_
    rw [← hfs, List.dropLast_append_of_ne_nil hne]
    exact List.mem_append_right _ hg
  · refine h.behind g ?_
    rw [← hfs]
    cases pre with
    | nil => exact hg
    | cons p pre => exact List.mem_append_right _ (List.mem_of_mem_tail hg)

/-- A turn of the loop of `read` touches the first fragment only. -/
theorem compact_turn (h : Compact P c m b) {f : Ref} {fs : List Ref}
    (hfs : b.fragmentations = f :: fs) (n : Nat) :
    Compact P c m (b.setFragment f ((b.heap.get f).read n).2.2) := by
  have hnd := h.wf.nodup
  rw [hfs, List.nodup_cons] at hnd
  have hself := Store.get_set_self (h.wf.valid f (by rw [hfs]; simp)) ((b.heap.get f).read n).2.2
  have hother : ∀ g, g ≠ f →
      (b.heap.set f ((b.heap.get f).read n).2.2).get g = b.heap.get g := fun g hg =>
    Store.get_set_ne hg _
  have hsame : SameCapacities b.heap (b.heap.set f ((b.heap.get f).read n).2.2) := .set rfl
  refine ⟨wf_setFragment h.wf f _, h.capacity, fun g hg => ?_, fun g hg => ?_, fun g hg => ?_⟩
  · have hlt : g < b.heap.size := by
      rw [← Store.size_set b.heap f ((b.heap.get f).read n).2.2]
      exact hg
    exact (hsame.capacity g hlt).le.trans (h.small g hlt)
  · show ((b.heap.set f _).get g).Full
    by_cases hgf : g = f
    · subst hgf
      rw [hself]
      exact Fragmentation.full_read (h.tight g hg) n
    · rw [hother g hgf]
      exact h.tight g hg
  · have hg' : g ∈ fs := by
      have htail : (b.setFragment f ((b.heap.get f).read n).2.2).fragmentations.tail = fs := by
        rw [show (b.setFragment f _).fragmentations = f :: fs from hfs]
        rfl
      exact htail ▸ hg
    show P ((b.heap.set f _).get g)
    rw [hother g fun hgf => hnd.1 (hgf ▸ hg')]
    exact h.behind g (by rw [hfs]; exact hg')

theorem compact_read (h : Compact P c m b) (n : Nat) : Compact P c m (b.read n).2.2 := by
  refine compact_pop ?_
  refine readLoop_induction (P := fun b _ r => Compact P c m b → Compact P c m r.2.2)
    (fun _ h => h) (fun _ _ _ _ h => compact_pop h) (fun b f fs n r _ hfs ih h => ?_) b
    (Nat.le_refl n) h
  exact ih (compact_turn (compact_pop h) hfs n)

end Compact

/-! ## Runs -/

/-- How many bytes a call writes. -/
def Call.length : Call → Nat
  | .write bytes _ => bytes.length
  | _ => 0

/-- A fragment that nobody has read from. -/
def Unread (f : Fragmentation) : Prop := f.offset = 0

/-- A fragment that nobody has read from, of at least `n` bytes. -/
def Wide (n : Nat) (f : Fragmentation) : Prop := f.offset = 0 ∧ n ≤ f.capacity

/-- Any call. -/
theorem compact_step {P : Fragmentation → Prop} {c : Int32} {m : Nat} {b : Buffer}
    (h : Compact P c m b) (hc : sizeOfInt c ≤ m) {call : Call} (hcall : call.length ≤ m)
    (hP : ∀ x bytes, P x → P (x.write bytes).2)
    (hnew : ∀ x : Fragmentation, x.offset = 0 →
      (call.succeeds = true → sizeOfInt c ≤ x.capacity) → P x) :
    Compact P c m (b.step call).1 := by
  cases call with
  | write bytes faults =>
    refine compact_write h hc hcall faults hP fun x hoffset hwide => hnew x hoffset fun hok => ?_
    exact hwide (by simpa [Call.succeeds] using hok)
  | read n => exact compact_read h n
  | copyTo n => exact h
  | size => exact h
  | reset clearcache => exact compact_reset h clearcache
  | resetCache => exact compact_resetCache h

/-- Every run. -/
theorem compact_after (c : Int32) (fresh : Nat → Nat → Byte) {m : Nat} {P : Fragmentation → Prop}
    (hc : sizeOfInt c ≤ m) (hP : ∀ x bytes, P x → P (x.write bytes).2) (ok : Call → Prop)
    (hnew : ∀ call, ok call → ∀ x : Fragmentation, x.offset = 0 →
      (call.succeeds = true → sizeOfInt c ≤ x.capacity) → P x)
    (calls : List Call) (hcalls : ∀ call ∈ calls, call.length ≤ m ∧ ok call) :
    Compact P c m (after c fresh calls) :=
  run_invariant (fun call => call.length ≤ m ∧ ok call) (Compact P c m)
    (fun _ call h hcall => compact_step h hc hcall.1 hP (hnew call hcall.2)) (compact_create fresh)
    calls hcalls

/-! ## What the shape costs -/

section Cost

variable {heap : Store Fragmentation} {m n : Nat}

/-- Fragments that nobody has read from, the last with room. -/
theorem allocated_le_of_unread {fs : List Ref} (hsmall : ∀ f ∈ fs, (heap.get f).capacity ≤ m)
    (htight : ∀ f ∈ fs.dropLast, (heap.get f).Full) (hunread : ∀ f ∈ fs, Unread (heap.get f)) :
    allocated heap fs ≤ (gather heap fs).length + m := by
  induction fs with
  | nil => exact Nat.zero_le _
  | cons f fs ih =>
    rw [allocated_cons, gather_cons, List.length_append, Fragmentation.length_content]
    cases fs with
    | nil =>
      have hle := hsmall f (List.mem_cons_self ..)
      simp [allocated]
      omega
    | cons g fs =>
      have hfull : (heap.get f).offset + (heap.get f).size = (heap.get f).capacity :=
        htight f (List.mem_cons_self ..)
      have hoffset : (heap.get f).offset = 0 := hunread f (List.mem_cons_self ..)
      have hrest := ih (fun k hk => hsmall k (List.mem_cons_of_mem _ hk))
        (fun k hk => htight k (List.mem_cons_of_mem _ hk))
        fun k hk => hunread k (List.mem_cons_of_mem _ hk)
      omega

/-- Wide fragments, the last with room. -/
theorem length_le_of_wide {fs : List Ref} (htight : ∀ f ∈ fs.dropLast, (heap.get f).Full)
    (hwide : ∀ f ∈ fs, Wide n (heap.get f)) :
    (fs.length - 1) * n ≤ (gather heap fs).length := by
  induction fs with
  | nil => simp
  | cons f fs ih =>
    rw [gather_cons, List.length_append, Fragmentation.length_content]
    cases fs with
    | nil => simp
    | cons g fs =>
      have hfull : (heap.get f).offset + (heap.get f).size = (heap.get f).capacity :=
        htight f (List.mem_cons_self ..)
      obtain ⟨hoffset, hn⟩ := hwide f (List.mem_cons_self ..)
      have hrest := ih (fun k hk => htight k (List.mem_cons_of_mem _ hk))
        fun k hk => hwide k (List.mem_cons_of_mem _ hk)
      rw [List.length_cons, Nat.add_sub_cancel] at hrest ⊢
      rw [List.length_cons, Nat.succ_mul]
      omega

end Cost

theorem mem_dropLast_cons {f g : Ref} {fs : List Ref} (h : g ∈ fs.dropLast) :
    g ∈ (f :: fs).dropLast := by
  cases fs with
  | nil => cases h
  | cons _ _ => exact List.mem_cons_of_mem _ h

theorem Compact.memory_le_size {c : Int32} {m : Nat} {b : Buffer} (h : Compact Unread c m b) :
    b.memory ≤ b.size + 3 * m := by
  have hcache : allocated b.heap b.cache.toList ≤ m := by
    cases hf : b.cache with
    | none => exact Nat.zero_le m
    | some f =>
      rw [Option.toList_some, allocated_cons]
      exact h.small f (h.wf.cacheValid f hf)
  have hsmall : ∀ f ∈ b.fragmentations, (b.heap.get f).capacity ≤ m := fun f hf =>
    h.small f (h.wf.valid f hf)
  have htight := h.tight
  have hbehind := h.behind
  rw [memory, size_eq, content]
  rw [Tight] at htight
  generalize b.fragmentations = fs at hsmall htight hbehind ⊢
  cases fs with
  | nil =>
    rw [gather_nil, List.length_nil]
    simp only [allocated, List.map_nil, List.sum_nil] at hcache ⊢
    omega
  | cons f fs =>
    -- only the first fragment may have been read from
    have hfirst := hsmall f (List.mem_cons_self ..)
    have hrest := allocated_le_of_unread (fun g hg => hsmall g (List.mem_cons_of_mem _ hg))
      (fun g hg => htight g (mem_dropLast_cons hg)) hbehind
    rw [allocated_cons, gather_cons, List.length_append]
    omega

theorem Compact.length_le_size {c : Int32} {m n : Nat} {b : Buffer} (h : Compact (Wide n) c m b) :
    (b.fragmentations.length - 2) * n ≤ b.size := by
  have htight := h.tight
  have hbehind := h.behind
  rw [size_eq, content]
  rw [Tight] at htight
  generalize b.fragmentations = fs at htight hbehind ⊢
  cases fs with
  | nil => simp
  | cons f fs =>
    have hrest := length_le_of_wide (fun g hg => htight g (mem_dropLast_cons hg)) hbehind
    rw [gather_cons, List.length_append, List.length_cons]
    exact hrest.trans (Nat.le_add_left ..)

/-- Between the first fragment, which may have been read from, and the last, which may
have room, the fragments are filled to their end. -/
theorem Compact.le_size {c : Int32} {m n : Nat} {b : Buffer} (h : Compact (Wide n) c m b) {f : Ref}
    (hf : f ∈ b.fragmentations.tail.dropLast) : n ≤ (b.heap.get f).size := by
  have hwide := h.behind f (List.mem_of_mem_dropLast hf)
  have hfull : (b.heap.get f).Full := by
    have htight := h.tight
    rw [Tight] at htight
    generalize b.fragmentations = fs at hf htight
    cases fs with
    | nil => cases hf
    | cons g fs => exact htight f (mem_dropLast_cons hf)
  obtain ⟨hoffset, hcapacity⟩ := hwide
  rw [Fragmentation.Full] at hfull
  omega

/-- **The memory of a buffer**: whatever is called in whatever order, and whatever
allocation fails, the arrays have no more than three times `m` bytes beyond those that
are readable, when neither the construction capacity nor any write is larger than `m`. -/
theorem memory_after_le (c : Int32) (fresh : Nat → Nat → Byte) {m : Nat} (hc : sizeOfInt c ≤ m)
    (calls : List Call) (hcalls : ∀ call ∈ calls, call.length ≤ m) :
    (after c fresh calls).memory ≤ (after c fresh calls).size + 3 * m :=
  (compact_after c fresh hc (fun _ _ h => h) (fun _ => True) (fun _ _ _ h _ => h) calls
    fun call hcall => ⟨hcalls call hcall, trivial⟩).memory_le_size

/-- A write without its array, a read that leaves one byte behind, and one write more. -/
def mixedCalls : List Call :=
  [.write [1, 2, 3, 4, 5] .none, .write [6] ⟨false, true, false⟩, .read 4, .write [7, 8] .none]

theorem memory_after_le_mixedCalls :
    (after 4 (fun _ _ => 0) mixedCalls).memory ≤
      (after 4 (fun _ _ => 0) mixedCalls).size + 3 * 5 :=
  memory_after_le 4 (fun _ _ => 0) (by decide) mixedCalls (by decide)

/-- **The number of fragments**: without allocation failures all but the first and the
last hold at least `_capacity` readable bytes each. -/
theorem fragments_after_le (c : Int32) (fresh : Nat → Nat → Byte) (calls : List Call)
    (hok : ∀ call ∈ calls, call.succeeds = true) :
    (∀ f ∈ (after c fresh calls).fragmentations.tail.dropLast,
        sizeOfInt c ≤ ((after c fresh calls).heap.get f).size) ∧
      ((after c fresh calls).fragmentations.length - 2) * sizeOfInt c ≤
        (after c fresh calls).size := by
  have hlength : ∀ call ∈ calls, call.length ≤ (calls.map Call.length).sum := fun call hcall =>
    List.single_le_sum (fun _ _ => Nat.zero_le _) _ (List.mem_map_of_mem hcall)
  have hcompact : Compact (Wide (sizeOfInt c)) c _ (after c fresh calls) :=
    compact_after c fresh (Nat.le_add_right _ (calls.map Call.length).sum)
      (fun _ _ h => h) (fun call => call.succeeds = true)
      (fun call hcall x hoffset hwide => ⟨hoffset, hwide hcall⟩) calls
      fun call hcall => ⟨(hlength call hcall).trans (Nat.le_add_left ..), hok call hcall⟩
  exact ⟨fun f hf => hcompact.le_size hf, hcompact.length_le_size⟩

/-- Three writes of five bytes, the first of them read. -/
def threeWrites : List Call :=
  [.write [1, 2, 3, 4, 5] .none, .write [1, 2, 3, 4, 5] .none, .write [1, 2, 3, 4, 5] .none,
    .read 5]

theorem fragments_after_le_threeWrites :
    (∀ f ∈ (after 4 (fun _ _ => 0) threeWrites).fragmentations.tail.dropLast,
        sizeOfInt 4 ≤ ((after 4 (fun _ _ => 0) threeWrites).heap.get f).size) ∧
      ((after 4 (fun _ _ => 0) threeWrites).fragmentations.length - 2) * sizeOfInt 4 ≤
        (after 4 (fun _ _ => 0) threeWrites).size :=
  fragments_after_le 4 (fun _ _ => 0) threeWrites (by decide)

end Buffer

end KgCpp.Bytes
