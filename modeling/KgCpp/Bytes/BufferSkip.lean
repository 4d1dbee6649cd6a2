import KgCpp.Bytes.BufferRuns

/-!
# `copy_to` with skip (`bytes/buffer.hpp`)

The loop of `copy_to` takes the skip off the fragments one after another, but it
keeps the part it took off the last one, `need_skip`, for all fragments behind.
`copyToSkip_eq` says which bytes it hands out in the end (`selected`), and
`copy_to_skip_iff` when these are the right ones.
-/

namespace KgCpp.Bytes

open Lib

/-- The bytes the loop of `copy_to` takes from the contents of the fragments,
with `skip` still to be skipped and `needSkip` left over. -/
def selected : List (List Byte) → Nat → Nat → List Byte
  | [], _, _ => []
  | c :: cs, skip, needSkip =>
    if skip = 0 then c.drop needSkip ++ selected cs 0 needSkip
    else c.drop skip ++ selected cs (skip - c.length) (min skip c.length)

/-- The fragments behind the one where the skip ends read the same when what the
skip took off that one is taken off each of them, as far as the copy goes. -/
def RestAgrees : List (List Byte) → Nat → Nat → Prop
  | [], _, _ => True
  | c :: cs, skip, n =>
    if skip ≤ c.length then
      (cs.flatMap (List.drop skip)).take (n - (c.length - skip)) =
        cs.flatten.take (n - (c.length - skip))
    else RestAgrees cs (skip - c.length) n

/-- The copy ends in the fragment where the skip ends, or there is nothing
behind that fragment. -/
def EndsWithSkip : List Nat → Nat → Nat → Prop
  | [], _, _ => True
  | size :: sizes, skip, n =>
    if skip ≤ size then n ≤ size - skip ∨ sizes.sum = 0
    else EndsWithSkip sizes (skip - size) n

/-! ## What is selected -/

/-- What is left over from the skip is taken off every fragment behind. -/
theorem selected_zero (cs : List (List Byte)) (needSkip : Nat) :
    selected cs 0 needSkip = cs.flatMap (List.drop needSkip) := by
  induction cs with
  | nil => rfl
  | cons c cs ih => rw [selected, if_pos rfl, ih, List.flatMap_cons]

/-- The skip ends in the first fragment. -/
theorem selected_of_le {c : List Byte} {skip : Nat} (hskip : skip ≠ 0) (hle : skip ≤ c.length)
    (cs : List (List Byte)) (needSkip : Nat) :
    selected (c :: cs) skip needSkip = c.drop skip ++ cs.flatMap (List.drop skip) := by
  rw [selected, if_neg hskip, Nat.sub_eq_zero_of_le hle, Nat.min_eq_left hle, selected_zero]

/-- The skip goes beyond the first fragment. -/
theorem selected_of_lt {c : List Byte} {skip : Nat} (hlt : c.length < skip)
    (cs : List (List Byte)) (needSkip : Nat) :
    selected (c :: cs) skip needSkip = selected cs (skip - c.length) c.length := by
  rw [selected, if_neg (by omega), List.drop_of_length_le (Nat.le_of_lt hlt), List.nil_append,
    Nat.min_eq_right (Nat.le_of_lt hlt)]

theorem drop_flatten_of_le {c : List Byte} {skip : Nat} (hle : skip ≤ c.length)
    (cs : List (List Byte)) : (c :: cs).flatten.drop skip = c.drop skip ++ cs.flatten := by
  rw [List.flatten_cons, List.drop_append_of_le_length hle]

theorem drop_flatten_of_lt {c : List Byte} {skip : Nat} (hlt : c.length < skip)
    (cs : List (List Byte)) :
    (c :: cs).flatten.drop skip = cs.flatten.drop (skip - c.length) := by
  rw [List.flatten_cons, List.drop_append, List.drop_of_length_le (Nat.le_of_lt hlt),
    List.nil_append]

/-- When the right bytes are selected. -/
theorem take_selected_iff {cs : List (List Byte)} {skip n : Nat} (hskip : skip ≠ 0)
    (needSkip : Nat) :
    (selected cs skip needSkip).take n = (cs.flatten.drop skip).take n ↔
      RestAgrees cs skip n := by
  induction cs generalizing skip needSkip with
  | nil => simp [selected, RestAgrees]
  | cons c cs ih =>
    rw [RestAgrees]
    by_cases hle : skip ≤ c.length
    · rw [selected_of_le hskip hle, drop_flatten_of_le hle, if_pos hle, List.take_append,
        List.take_append, List.length_drop, List.append_cancel_left_eq]
    · rw [selected_of_lt (by omega), drop_flatten_of_lt (by omega), if_neg hle]
      exact ih (by omega) _

/-- Whatever the bytes are, they are right when the copy ends with the skip. -/
theorem EndsWithSkip.restAgrees {cs : List (List Byte)} {skip n : Nat}
    (h : EndsWithSkip (cs.map List.length) skip n) : RestAgrees cs skip n := by
  induction cs generalizing skip with
  | nil => trivial
  | cons c cs ih =>
    rw [List.map_cons, EndsWithSkip] at h
    rw [RestAgrees]
    by_cases hle : skip ≤ c.length
    · rw [if_pos hle] at h ⊢
      rcases h with hn | hsum
      · rw [Nat.sub_eq_zero_of_le hn, List.take_zero, List.take_zero]
      · -- nothing is behind
        have hnil : ∀ x ∈ cs, x = [] := by
          intro x hx
          have hlen := List.sum_eq_zero_iff.mp hsum x.length (List.mem_map_of_mem hx)
          exact List.length_eq_zero_iff.mp hlen
        have hflat : cs.flatten = [] := List.flatten_eq_nil_iff.mpr hnil
        have hdrop : cs.flatMap (List.drop skip) = [] := List.flatMap_eq_nil_iff.mpr
          fun x hx => by rw [hnil x hx, List.drop_nil]
        rw [hflat, hdrop]
    · rw [if_neg hle] at h ⊢
      exact ih h

/-! ## A content that tells the difference -/

/-- Zeros, but for a one in front of the first fragment that is not empty. -/
def marked : List Nat → List (List Byte)
  | [] => []
  | 0 :: sizes => [] :: marked sizes
  | (size + 1) :: sizes => (1 :: List.replicate size 0) :: sizes.map (List.replicate · 0)

theorem map_length_marked (sizes : List Nat) : (marked sizes).map List.length = sizes := by
  induction sizes with
  | nil => rfl
  | cons size sizes ih =>
    cases size with
    | zero => rw [marked, List.map_cons, ih]; rfl
    | succ size =>
      rw [marked, List.map_cons, List.length_cons, List.length_replicate, List.map_map]
      have hid : List.length ∘ (fun k => List.replicate k (0 : Byte)) = id :=
        funext fun k => List.length_replicate
      rw [hid, List.map_id]

/-- The mark comes first in the content. -/
theorem head_marked {sizes : List Nat} (h : sizes.sum ≠ 0) :
    (marked sizes).flatten.head? = some 1 := by
  induction sizes with
  | nil => exact absurd rfl h
  | cons size sizes ih =>
    cases size with
    | zero =>
      rw [marked, List.flatten_cons, List.nil_append]
      exact ih fun hsum => h (by rw [List.sum_cons, hsum])
    | succ size => rfl

/-- It is lost when something is taken off every fragment. -/
theorem not_mem_drop_marked {skip : Nat} (hskip : skip ≠ 0) (sizes : List Nat) :
    (1 : Byte) ∉ (marked sizes).flatMap (List.drop skip) := by
  induction sizes with
  | nil => exact List.not_mem_nil
  | cons size sizes ih =>
    intro hmem
    obtain ⟨skip, rfl⟩ := Nat.exists_eq_succ_of_ne_zero hskip
    cases size with
    | zero =>
      rw [marked, List.flatMap_cons, List.drop_nil, List.nil_append] at hmem
      exact ih hmem
    | succ size =>
      rw [marked, List.flatMap_cons, List.drop_succ_cons, List.mem_append] at hmem
      have hzero : ∀ k, (1 : Byte) ∉ List.replicate k 0 := fun k hk => by
        cases List.eq_of_mem_replicate hk
      rcases hmem with hmem | hmem
      · exact hzero _ (List.mem_of_mem_drop hmem)
      · obtain ⟨c, hc, hmem⟩ := List.mem_flatMap.mp hmem
        obtain ⟨k, -, rfl⟩ := List.mem_map.mp hc
        exact hzero _ (List.mem_of_mem_drop hmem)

/-- When the copy goes on behind the skip, there are contents of the same sizes
that it gets wrong. -/
theorem exists_not_restAgrees {sizes : List Nat} {skip n : Nat} (hskip : skip ≠ 0)
    (h : ¬ EndsWithSkip sizes skip n) :
    ∃ cs : List (List Byte), cs.map List.length = sizes ∧ ¬ RestAgrees cs skip n := by
  induction sizes generalizing skip with
  | nil => exact absurd trivial h
  | cons size sizes ih =>
    have hlen : (List.replicate size (0 : Byte)).length = size := List.length_replicate
    rw [EndsWithSkip] at h
    by_cases hle : skip ≤ size
    · rw [if_pos hle, not_or, Nat.not_le] at h
      refine ⟨List.replicate size 0 :: marked sizes, ?_, fun heq => ?_⟩
      · rw [List.map_cons, map_length_marked, hlen]
      · rw [RestAgrees, hlen, if_pos hle] at heq
        -- the mark is among the right bytes, and not among the selected ones
        have hmem : (1 : Byte) ∈ (marked sizes).flatten.take (n - (size - skip)) := by
          obtain ⟨rest, hrest⟩ := List.head?_eq_some_iff.mp (head_marked h.2)
          obtain ⟨k, hk⟩ := Nat.exists_eq_add_of_lt h.1
          rw [hrest, show n - (size - skip) = k + 1 by omega, List.take_succ_cons]
          exact List.mem_cons_self ..
        rw [← heq] at hmem
        exact not_mem_drop_marked hskip sizes (List.mem_of_mem_take hmem)
    · rw [if_neg hle] at h
      obtain ⟨cs, hcs, hne⟩ := ih (by omega) h
      refine ⟨List.replicate size 0 :: cs, by rw [List.map_cons, hcs, hlen], ?_⟩
      rw [RestAgrees, hlen, if_neg hle]
      exact hne

namespace Buffer

/-- The contents of the fragments. -/
def contents (b : Buffer) : List (List Byte) :=
  b.fragmentations.map fun f => (b.heap.get f).content

/-- The sizes of the fragments. -/
def sizes (b : Buffer) : List Nat := b.fragmentations.map fun f => (b.heap.get f).size

theorem flatten_contents (b : Buffer) : b.contents.flatten = b.content :=
  (List.flatMap_def ..).symm

theorem length_contents (b : Buffer) : b.contents.map List.length = b.sizes := by
  rw [contents, sizes, List.map_map]
  exact List.map_congr_left fun f _ => Fragmentation.length_content _

/-- What a turn of the loop copies when it skips `need` bytes. -/
theorem copy_skipping (f : Fragmentation) (need n : Nat) :
    (if need = 0 then f.copyTo n else f.copyToSkip need n) =
      (((f.content.drop need).take n).length, (f.content.drop need).take n) := by
  split
  · rename_i hneed
    rw [hneed, Fragmentation.copyTo_eq, List.drop_zero]
  · exact f.copyToSkip_eq need n

theorem copyToSkipLoop_eq (heap : Store Fragmentation) (fs : List Ref) (skip needSkip n : Nat) :
    copyToSkipLoop heap fs skip needSkip n =
      (((selected (fs.map fun f => (heap.get f).content) skip needSkip).take n).length,
        (selected (fs.map fun f => (heap.get f).content) skip needSkip).take n) := by
  induction fs generalizing skip needSkip n with
  | nil => simp [copyToSkipLoop, selected]
  | cons f fs ih =>
    have hlen := (heap.get f).length_content
    rw [copyToSkipLoop, List.map_cons]
    dsimp only
    by_cases hskip : skip = 0
    · rw [if_pos hskip, if_pos hskip, copy_skipping]
      dsimp only
      rw [ih, selected, if_pos hskip]
      exact copy_turn _ _ n
    · have hneed : (if skip > (heap.get f).size then (heap.get f).size else skip) =
          min skip (heap.get f).content.length := by
        rw [hlen]
        split <;> omega
      have hdrop : (heap.get f).content.drop (min skip (heap.get f).content.length) =
          (heap.get f).content.drop skip := by
        rcases Nat.le_total skip (heap.get f).content.length with hle | hle
        · rw [Nat.min_eq_left hle]
        · rw [Nat.min_eq_right hle, List.drop_length, List.drop_of_length_le hle]
      rw [if_neg hskip, if_neg hskip, hneed, copy_skipping, hdrop]
      dsimp only
      rw [ih, selected, if_neg hskip,
        show skip - min skip (heap.get f).content.length =
          skip - (heap.get f).content.length by omega]
      exact copy_turn _ _ n

theorem copyToSkip_eq (b : Buffer) (skip n : Nat) :
    b.copyToSkip skip n =
      (((selected b.contents skip 0).take n).length, (selected b.contents skip 0).take n) :=
  copyToSkipLoop_eq b.heap b.fragmentations skip 0 n

/-! ## Every content of these sizes is that of some buffer -/

/-- A buffer with these contents, whose fragments have no free space. -/
structure Packed (b : Buffer) (cs : List (List Byte)) : Prop where
  wf : b.WF
  capacity : b.capacity = 0
  cache : b.cache = none
  contents : b.contents = cs
  packed : ∀ f ∈ b.fragmentations, (b.heap.get f).getFree = 0

/-- Fill the last fragment of a buffer, the others being packed. -/
theorem Packed.of_fill {b : Buffer} (hwf : b.WF) (hcapacity : b.capacity = 0)
    (hcache : b.cache = none) {fs : List Ref} {f : Ref} (hfs : b.fragmentations = fs ++ [f])
    (hpacked : ∀ g ∈ fs, (b.heap.get g).getFree = 0) (hempty : (b.heap.get f).content = [])
    {bytes : List Byte} (hlen : (b.heap.get f).getFree ≤ bytes.length) :
    (b.writeTo f bytes).Packed
      ((fs.map fun g => (b.heap.get g).content) ++ [bytes.take (b.heap.get f).getFree]) := by
  have hnd := hwf.nodup
  rw [hfs] at hnd
  have hself : (b.writeTo f bytes).heap.get f = ((b.heap.get f).write bytes).2 :=
    Store.get_set_self (hwf.valid f (by rw [hfs]; simp)) _
  have hother : ∀ g ∈ fs, (b.writeTo f bytes).heap.get g = b.heap.get g := fun g hg =>
    Store.get_set_ne (fun hgf : g = f => (List.nodup_append.mp hnd).2.2 g hg f
      (List.mem_singleton_self f) hgf) _
  have hfs' : (b.writeTo f bytes).fragmentations = fs ++ [f] := hfs
  refine ⟨wf_writeTo hwf f bytes, hcapacity, hcache, ?_, fun g hg => ?_⟩
  · rw [Buffer.contents, hfs', List.map_append, List.map_singleton, hself,
      Fragmentation.content_write, hempty, List.nil_append]
    exact congrArg (· ++ _) (List.map_congr_left fun g hg => by rw [hother g hg])
  · rcases List.mem_append.mp (hfs' ▸ hg) with hg | hg
    · rw [hother g hg]
      exact hpacked g hg
    · rw [List.mem_singleton.mp hg, hself, Fragmentation.getFree_write]
      omega

/-- The fragment that `write` makes in a buffer without a cache. -/
theorem exists_createFragmentation {b : Buffer} (hcache : b.cache = none) (capacity : Nat)
    {faults : WriteFaults} (hobj : faults.object = false) :
    ∃ b' : Buffer, b.createFragmentation capacity faults = (some b.heap.size, b') ∧
      b'.heap = b.heap.alloc (.create b.fresh b.heap.size capacity faults.array) ∧
      b'.capacity = b.capacity ∧ b'.cache = none := by
  rw [createFragmentation, hcache]
  dsimp only
  rw [makeShared, if_neg (by rw [hobj]; decide)]
  exact ⟨_, rfl, rfl, rfl, hcache⟩

/-- Writing nothing to a fragment leaves everything as it is. -/
theorem writeTo_nil {b : Buffer} {f : Ref} (hf : f < b.heap.size) : b.writeTo f [] = b := by
  rw [writeTo, Fragmentation.write_nil, setFragment, Store.set_get hf]

/-- A write to a packed buffer asks for all of its bytes. -/
theorem Packed.request {b : Buffer} {cs : List (List Byte)} (h : b.Packed cs) {n : Nat}
    (hn : 0 < n) : b.request n = n := by
  rcases List.eq_nil_or_concat' b.fragmentations with hfs | ⟨fs, f, hfs⟩
  · exact request_of_nil hfs n
  · have hfull := h.packed f (by rw [hfs]; simp)
    rw [request_of_last hfs, hfull, newCapacity, h.capacity, subSize_of_le (Nat.zero_le _),
      Nat.sub_zero]
    exact if_pos hn

/-- The fragment that a write to a packed buffer makes takes all of the bytes, or none
when it has no array. -/
theorem Packed.fill {b b' : Buffer} {cs : List (List Byte)} (h : b.Packed cs)
    {bytes : List Byte} {faults : WriteFaults}
    (hcr : Created b bytes.length faults (some b.heap.size, b'))
    (hheap : b'.heap = b.heap.alloc (.create b.fresh b.heap.size bytes.length faults.array))
    (hcapacity : b'.capacity = b.capacity) (hcache : b'.cache = none) :
    ((b'.pushBack b.heap.size).writeTo b.heap.size bytes).Packed
      (cs ++ [if faults.array then [] else bytes]) := by
  have hfs : b'.fragmentations = b.fragmentations := hcr.fragmentations
  have hnew : b'.heap.get b.heap.size =
      .create b.fresh b.heap.size bytes.length faults.array := by
    rw [hheap, Store.get_alloc_new]
  have hold : ∀ g ∈ b.fragmentations, b'.heap.get g = b.heap.get g := fun g hg => by
    rw [hheap, Store.get_alloc_old (h.wf.valid g hg)]
  have hfree : (b'.heap.get b.heap.size).getFree = if faults.array then 0 else bytes.length := by
    rw [hnew, Fragmentation.getFree_create]
  have hcs : (b'.fragmentations.map fun g => (b'.heap.get g).content) = cs := by
    rw [hfs, ← h.contents]
    exact List.map_congr_left fun g hg => by rw [hold g hg]
  have htake : bytes.take (b'.heap.get b.heap.size).getFree =
      if faults.array then [] else bytes := by
    rw [hfree]
    split
    · exact List.take_zero
    · exact List.take_length
  rw [← hcs, ← htake]
  cases hcr with
  | made hwf hdet _ _ _ _ _ _ =>
    exact Packed.of_fill (wf_pushBack hwf hdet) (hcapacity.trans h.capacity) hcache
      (rfl : (b'.pushBack b.heap.size).fragmentations = b'.fragmentations ++ [b.heap.size])
      (fun g hg => by
        show (b'.heap.get g).getFree = 0
        rw [hold g (hfs ▸ hg)]
        exact h.packed g (hfs ▸ hg))
      (show (b'.heap.get b.heap.size).content = [] by rw [hnew, Fragmentation.content_create])
      (show (b'.heap.get b.heap.size).getFree ≤ bytes.length by rw [hfree]; split <;> omega)

/-- A write to a packed buffer makes a fragment for all of it, or one without an
array when that cannot be allocated. -/
theorem Packed.write {b : Buffer} {cs : List (List Byte)} (h : b.Packed cs) {bytes : List Byte}
    (hn : bytes ≠ []) {faults : WriteFaults} (hobj : faults.object = false)
    (hnode : faults.node = false) :
    (b.write bytes faults).2.Packed (cs ++ [if faults.array then [] else bytes]) := by
  have hpos : 0 < bytes.length := List.length_pos_of_ne_nil hn
  obtain ⟨b', hmake, hheap, hcapacity, hcache⟩ :=
    exists_createFragmentation h.cache bytes.length hobj
  have hcr := createFragmentation_created h.wf bytes.length faults
  rw [hmake] at hcr
  have hfill := h.fill hcr hheap hcapacity hcache
  have hcases := b.write_cases hn faults
  rw [← h.request hpos] at hmake
  generalize b.write bytes faults = r at hcases
  cases hcases with
  | @fits fs f0 hlast hfit =>
    have hfull := h.packed f0 (by rw [hlast]; simp)
    omega
  | stops _ hcreate hwhy =>
    cases hmake.symm.trans hcreate
    rcases hwhy with hnone | hnode'
    · cases hnone
    · rw [hnode] at hnode'
      cases hnode'
  | first _ hcreate _ =>
    cases hmake.symm.trans hcreate
    exact hfill
  | @more fs f0 f _ hlast _ hcreate _ =>
    cases hmake.symm.trans hcreate
    -- nothing is left for the full fragment
    have hmem : f0 ∈ b.fragmentations := by rw [hlast]; simp
    have hsame : (b'.pushBack b.heap.size).writeTo f0 [] = b'.pushBack b.heap.size := by
      refine writeTo_nil ?_
      show f0 < b'.heap.size
      rw [hheap, Store.size_alloc]
      exact Nat.lt_succ_of_lt (h.wf.valid f0 hmem)
    rw [h.packed f0 hmem, List.take_zero, List.drop_zero, hsame]
    exact hfill

/-- Every list of contents is that of a buffer that calls reach: an empty one is
left by a write whose array cannot be allocated. -/
theorem exists_packed (fresh : Nat → Nat → Byte) (cs : List (List Byte)) :
    ∃ calls, (after 0 fresh calls).Packed cs := by
  induction cs using List.reverseRecOn with
  | nil => exact ⟨[], wf_create 0 fresh, rfl, rfl, rfl, fun f hf => by cases hf⟩
  | append_singleton cs c ih =>
    obtain ⟨calls, hpacked⟩ := ih
    have hafter : ∀ call, after 0 fresh (calls ++ [call]) =
        ((after 0 fresh calls).step call).1 := fun call => by
      rw [after, run_append]
      rfl
    by_cases hc : c = []
    · refine ⟨calls ++ [.write [0] ⟨false, true, false⟩], ?_⟩
      rw [hafter, hc]
      exact hpacked.write (List.cons_ne_nil 0 []) rfl rfl
    · refine ⟨calls ++ [.write c .none], ?_⟩
      rw [hafter]
      exact hpacked.write hc rfl rfl

/-! ## When `copy_to` drops the skip and takes the rest -/

/-- `copy_to` with skip hands out what is behind the skip, cut to `n`, which is
what `read` gives after reading the skip away. -/
structure CopiesSkipping (b : Buffer) (skip n : Nat) : Prop where
  count : (b.copyToSkip skip n).1 = min n (b.size - skip)
  bytes : (b.copyToSkip skip n).2 = (b.content.drop skip).take n
  reads : b.copyToSkip skip n =
    (((b.read skip).2.2.read n).1, ((b.read skip).2.2.read n).2.1)

theorem copiesSkipping_iff_take {b : Buffer} (h : b.WF) (skip n : Nat) :
    b.CopiesSkipping skip n ↔
      (selected b.contents skip 0).take n = (b.content.drop skip).take n := by
  obtain ⟨-, -, hwf, hcont⟩ := read_spec h skip
  obtain ⟨hcount, hbytes, -, -⟩ := read_spec hwf n
  constructor
  · intro hcopies
    rw [← hcopies.bytes, copyToSkip_eq]
  · intro htake
    have heq : b.copyToSkip skip n =
        (((b.content.drop skip).take n).length, (b.content.drop skip).take n) := by
      rw [copyToSkip_eq, htake]
    refine ⟨?_, by rw [heq], ?_⟩
    · rw [heq, List.length_take, List.length_drop, size_eq]
    · rw [heq, hcount, hbytes, hcont, List.length_take]

theorem copiesSkipping_iff {b : Buffer} (h : b.WF) (skip n : Nat) :
    b.CopiesSkipping skip n ↔ skip = 0 ∨ RestAgrees b.contents skip n := by
  rw [copiesSkipping_iff_take h, ← flatten_contents]
  by_cases hskip : skip = 0
  · have hsel : selected b.contents 0 0 = b.contents.flatten := by
      rw [selected_zero]
      exact List.flatMap_id
    rw [hskip, hsel]
    exact ⟨fun _ => .inl rfl, fun _ => rfl⟩
  · rw [take_selected_iff hskip]
    exact ⟨.inr, fun hor => hor.resolve_left hskip⟩

/-- **When `copy_to` skips right**: in every state that calls with any
allocation failures can reach, exactly when nothing is skipped or the fragments
behind the skip happen to read the same with a part taken off. The sizes of the
fragments alone ensure it if and only if nothing is skipped, the copy ends in
the fragment where the skip ends, or nothing is behind that fragment. -/
theorem copy_to_skip_iff (capacity : Int32) (fresh : Nat → Nat → Byte) (calls : List Call)
    (skip n : Nat) :
    ((after capacity fresh calls).CopiesSkipping skip n ↔
      skip = 0 ∨ RestAgrees (after capacity fresh calls).contents skip n) ∧
    ((∀ capacity' fresh' calls',
        (after capacity' fresh' calls').sizes = (after capacity fresh calls).sizes →
          (after capacity' fresh' calls').CopiesSkipping skip n) ↔
      skip = 0 ∨ EndsWithSkip (after capacity fresh calls).sizes skip n) := by
  refine ⟨copiesSkipping_iff (wf_after ..) skip n, fun hall => ?_, fun hor => ?_⟩
  · by_contra hnot
    rw [not_or] at hnot
    obtain ⟨cs, hcs, hne⟩ := exists_not_restAgrees hnot.1 hnot.2
    obtain ⟨calls', hpacked⟩ := exists_packed fresh cs
    have hcopies := hall 0 fresh calls' (by rw [← length_contents, hpacked.contents, hcs])
    rcases (copiesSkipping_iff (wf_after ..) skip n).mp hcopies with hzero | hagree
    · exact hnot.1 hzero
    · exact hne (hpacked.contents ▸ hagree)
  · intro capacity' fresh' calls' hsizes
    refine (copiesSkipping_iff (wf_after ..) skip n).mpr (hor.imp_right fun hends => ?_)
    rw [← hsizes, ← length_contents] at hends
    exact hends.restAgrees

/-- Two fragments of three bytes: a byte is skipped in each. -/
theorem copy_to_skips_twice :
    ¬ (after 3 (fun _ _ => 0)
      [.write [1, 2, 3] .none, .write [4, 5, 6] .none]).CopiesSkipping 1 5 :=
  fun h => absurd h.bytes (by decide)

end Buffer

end KgCpp.Bytes
