import KgCpp.Bytes.BufferRuns

/-!
# The fragments of a buffer

Beyond being well-formed, a buffer keeps its fragments tight when no allocation
fails: `Shaped` says that each holds something to read and that all but the last
are filled to their end. Every public operation keeps this; `read` goes through
states in which the first fragment is drained, and drops it in the end.
-/

namespace KgCpp.Bytes

open Lib

namespace Fragmentation

/-- No free space is left. -/
def Full (f : Fragmentation) : Prop := f.offset + f.size = f.capacity

theorem size_write (f : Fragmentation) (bytes : List Byte) :
    (f.write bytes).2.size = f.size + min bytes.length f.getFree :=
  congrArg (f.size + ·) (f.accepted_eq bytes.length)

theorem full_write {f : Fragmentation} {bytes : List Byte} (h : f.getFree ≤ bytes.length) :
    (f.write bytes).2.Full := by
  have hbound := f.bound
  have hfree := f.getFree_eq
  have hacc := f.accepted_eq bytes.length
  show f.offset + (f.size + f.accepted bytes.length) = f.capacity
  omega

theorem size_read (f : Fragmentation) (n : Nat) :
    (f.read n).2.2.size = f.size - min n f.size :=
  congrArg (f.size - ·) (f.available_eq n)

/-- Reading moves the offset, and not the end. -/
theorem full_read {f : Fragmentation} (h : f.Full) (n : Nat) : (f.read n).2.2.Full := by
  have hav := f.available_eq n
  show f.offset + f.available n + (f.size - f.available n) = f.capacity
  rw [Full] at h
  omega

end Fragmentation

namespace Buffer

/-- All fragments but the last are filled to their end. -/
def Tight (b : Buffer) : Prop := ∀ f ∈ b.fragmentations.dropLast, (b.heap.get f).Full

/-- The shape of a buffer between calls. -/
structure Shaped (b : Buffer) : Prop where
  wf : b.WF
  filled : ∀ f ∈ b.fragmentations, 1 ≤ (b.heap.get f).size
  tight : b.Tight

theorem Shaped.of_nil {b : Buffer} (hwf : b.WF) (hfs : b.fragmentations = []) : b.Shaped where
  wf := hwf
  filled := by simp [hfs]
  tight := by simp [Tight, hfs]

/-! ## `write` -/

/-- Write to the last fragment: the others stay. -/
theorem writeTo_last {b : Buffer} (h : b.WF) {fs : List Ref} {f : Ref}
    (hfs : b.fragmentations = fs ++ [f]) (bytes : List Byte) :
    (b.writeTo f bytes).heap.get f = ((b.heap.get f).write bytes).2 ∧
      ∀ g ∈ fs, (b.writeTo f bytes).heap.get g = b.heap.get g :=
  ⟨Store.get_set_self (h.valid f (by rw [hfs]; simp)) _,
    fun g hg => Store.get_set_ne (fun hgf : g = f => h.last_notMem hfs (hgf ▸ hg)) _⟩

/-- Append an empty fragment, and fill it behind others that are full. -/
theorem Shaped.append {b : Buffer} (hwf : b.WF) {f : Ref} (hf : b.Detached f)
    (hempty : (b.heap.get f).content = [])
    (hold : ∀ g ∈ b.fragmentations, 1 ≤ (b.heap.get g).size ∧ (b.heap.get g).Full)
    {bytes : List Byte} (hn : bytes ≠ []) (hfits : bytes.length ≤ (b.heap.get f).getFree) :
    ((b.pushBack f).writeTo f bytes).Shaped := by
  have hpos : 0 < bytes.length := List.length_pos_of_ne_nil hn
  have hsize : (b.heap.get f).size = 0 := by
    rw [← Fragmentation.length_content, hempty]
    rfl
  obtain ⟨hself, hother⟩ : ((b.pushBack f).writeTo f bytes).heap.get f =
        ((b.heap.get f).write bytes).2 ∧
      ∀ g ∈ b.fragmentations, ((b.pushBack f).writeTo f bytes).heap.get g = b.heap.get g :=
    writeTo_last (wf_pushBack hwf hf) rfl bytes
  refine ⟨wf_writeTo (wf_pushBack hwf hf) f bytes, fun g hg => ?_, fun g hg => ?_⟩
  · rcases List.mem_append.mp hg with hg | hg
    · rw [hother g hg]
      exact (hold g hg).1
    · rw [List.mem_singleton.mp hg, hself, Fragmentation.size_write]
      omega
  · have hg' : g ∈ b.fragmentations := by
      have hdrop : ((b.pushBack f).writeTo f bytes).fragmentations.dropLast = b.fragmentations :=
        List.dropLast_concat
      exact hdrop ▸ hg
    rw [hother g hg']
    exact (hold g hg').2

/-- The fragments of the list are what they were. -/
theorem Shaped.congr {b b' : Buffer} (h : b.Shaped) (hwf : b'.WF)
    (hfs : b'.fragmentations = b.fragmentations)
    (hframe : ∀ g ∈ b.fragmentations, b'.heap.get g = b.heap.get g) : b'.Shaped where
  wf := hwf
  filled := by
    intro g hg
    rw [hfs] at hg
    rw [hframe g hg]
    exact h.filled g hg
  tight := by
    intro g hg
    rw [hfs] at hg
    rw [hframe g (List.mem_of_mem_dropLast hg)]
    exact h.tight g hg

/-- Write to the last fragment. -/
theorem Shaped.writeTo {b : Buffer} (h : b.Shaped) {fs : List Ref} {f : Ref}
    (hfs : b.fragmentations = fs ++ [f]) (bytes : List Byte) : (b.writeTo f bytes).Shaped := by
  obtain ⟨hself, hother⟩ := writeTo_last h.wf hfs bytes
  refine ⟨wf_writeTo h.wf f bytes, fun g hg => ?_, fun g hg => ?_⟩
  · rcases List.mem_append.mp (hfs ▸ hg) with hg' | hg'
    · rw [hother g hg']
      exact h.filled g hg
    · rw [List.mem_singleton.mp hg', hself, Fragmentation.size_write]
      have hsize := h.filled f (by rw [hfs]; simp)
      omega
  · have hg' : g ∈ b.fragmentations.dropLast := hg
    have hold := h.tight g hg'
    rw [hfs, List.dropLast_concat] at hg'
    rw [hother g hg']
    exact hold

/-- Fill the last fragment, and append a new one that takes the rest. -/
theorem Shaped.append_more {b : Buffer} (h : b.Shaped) {fs : List Ref} {f0 f : Ref}
    (hfs : b.fragmentations = fs ++ [f0]) (hf : b.Detached f)
    (hempty : (b.heap.get f).content = []) {bytes : List Byte}
    (hmore : (b.heap.get f0).getFree < bytes.length)
    (hfits : bytes.length - (b.heap.get f0).getFree ≤ (b.heap.get f).getFree) :
    (((b.pushBack f).writeTo f0 (bytes.take (b.heap.get f0).getFree)).writeTo f
      (bytes.drop (b.heap.get f0).getFree)).Shaped := by
  generalize hfree : (b.heap.get f0).getFree = free at hmore hfits ⊢
  have hne : f ≠ f0 := fun hff => hf.notMem (by rw [hfs, hff]; simp)
  have hnew : (b.writeTo f0 (bytes.take free)).heap.get f = b.heap.get f :=
    Store.get_set_ne hne _
  have hfilled := h.writeTo hfs (bytes.take free)
  refine Shaped.append (b := b.writeTo f0 (bytes.take free)) hfilled.wf (hf.writeTo f0 _)
    (by rw [hnew]; exact hempty) (fun g hg => ⟨hfilled.filled g hg, ?_⟩) ?_ ?_
  · rcases List.mem_append.mp (hfs ▸ hg) with hg' | hg'
    · exact hfilled.tight g (by
        show g ∈ b.fragmentations.dropLast
        rw [hfs, List.dropLast_concat]
        exact hg')
    · -- the last fragment has no room left
      rw [List.mem_singleton.mp hg', (writeTo_last h.wf hfs _).1]
      refine Fragmentation.full_write ?_
      rw [hfree, List.length_take]
      omega
  · intro hnil
    have hlen := congrArg List.length hnil
    rw [List.length_drop, List.length_nil] at hlen
    omega
  · rw [hnew, List.length_drop]
    exact hfits

theorem shaped_write {b : Buffer} (h : b.Shaped) (bytes : List Byte) :
    (b.write bytes .none).2.Shaped := by
  by_cases hn : bytes = []
  · rw [hn, write_nil]
    exact h
  have hcases := b.write_cases hn .none
  have hcr := createFragmentation_created h.wf (b.request bytes.length) .none
  generalize b.write bytes .none = r at hcases
  cases hcases with
  | fits hlast _ => exact h.writeTo hlast bytes
  | stops _ hcreate hwhy =>
    rw [hcreate] at hcr
    cases hcr with
    | failed _ hobj => cases hobj
    | made => rcases hwhy with hnone | hnode <;> contradiction
  | first hnil hcreate _ =>
    rw [hcreate] at hcr
    cases hcr with
    | made hwf hdet hfs _ hempty _ _ hfits =>
      have hroom := hfits (.inr rfl)
      rw [request_of_nil hnil] at hroom
      refine Shaped.append hwf hdet hempty ?_ hn hroom
      rw [hfs, hnil]
      exact fun g hg => by cases hg
  | @more fs f0 f b' hlast hmore hcreate _ =>
    rw [hcreate] at hcr
    cases hcr with
    | made hwf hdet hfs hframe hempty _ _ hfits =>
      have hf0 : b'.heap.get f0 = b.heap.get f0 := hframe f0 (by rw [hlast]; simp)
      have hfree := tailFree_of_last hlast
      have hroom := (b.le_request (hfree ▸ hmore)).trans (hfits (.inr rfl))
      rw [hfree, ← hf0] at hroom
      rw [← hf0] at hmore ⊢
      exact (h.congr hwf hfs hframe).append_more (hfs.trans hlast) hdet hempty hmore hroom

/-! ## `read` -/

/-- The shape of a buffer inside the loop of `read`: the first fragment may be
drained. -/
structure Draining (b : Buffer) : Prop where
  wf : b.WF
  filled : ∀ f ∈ b.fragmentations.tail, 1 ≤ (b.heap.get f).size
  tight : b.Tight

theorem Shaped.draining {b : Buffer} (h : b.Shaped) : b.Draining where
  wf := h.wf
  filled := fun f hf => h.filled f (List.mem_of_mem_tail hf)
  tight := h.tight

/-- Dropping what is drained gives the shape back. -/
theorem Draining.shaped {b : Buffer} (h : b.Draining) :
    b.removeNoReadFragmentation.Shaped := by
  obtain ⟨⟨pre, hpre⟩, -, hhead, -⟩ := popDrained_spec b.heap b.fragmentations b.cache
  have hfs : pre ++ b.removeNoReadFragmentation.fragmentations = b.fragmentations := hpre
  have hfirst : ∀ f, b.removeNoReadFragmentation.fragmentations.head? = some f →
      0 < (b.heap.get f).size := hhead
  have hwf := (removeNoReadFragmentation_spec h.wf).1
  refine ⟨hwf, fun g hg => ?_, fun g hg => ?_⟩
  · show 1 ≤ (b.heap.get g).size
    generalize b.removeNoReadFragmentation.fragmentations = fs at hfs hfirst hg
    cases fs with
    | nil => cases hg
    | cons f fs =>
      rcases List.mem_cons.mp hg with rfl | hg
      · exact hfirst g rfl
      · -- behind the first there is nothing drained
        refine h.filled g ?_
        rw [← hfs]
        cases pre with
        | nil => exact hg
        | cons p pre => exact List.mem_append_right _ (List.mem_cons_of_mem _ hg)
  · show (b.heap.get g).Full
    have hne : b.removeNoReadFragmentation.fragmentations ≠ [] := fun hnil => by
      rw [hnil] at hg
      cases hg
    refine h.tight g ?_
    rw [← hfs, List.dropLast_append_of_ne_nil hne]
    exact List.mem_append_right _ hg

/-- A turn of the loop of `read`. -/
theorem Shaped.turn {b : Buffer} (h : b.Shaped) {f : Ref} {fs : List Ref}
    (hfs : b.fragmentations = f :: fs) (n : Nat) :
    (b.setFragment f ((b.heap.get f).read n).2.2).Draining := by
  have hnd := h.wf.nodup
  rw [hfs, List.nodup_cons] at hnd
  have hself := Store.get_set_self (h.wf.valid f (by rw [hfs]; simp)) ((b.heap.get f).read n).2.2
  have hother : ∀ g, g ≠ f →
      (b.heap.set f ((b.heap.get f).read n).2.2).get g = b.heap.get g := fun g hg =>
    Store.get_set_ne hg _
  refine ⟨wf_setFragment h.wf f _, fun g hg => ?_, fun g hg => ?_⟩
  · have hg' : g ∈ fs := by
      have htail : (b.setFragment f ((b.heap.get f).read n).2.2).fragmentations.tail = fs := by
        rw [show (b.setFragment f _).fragmentations = f :: fs from hfs]
        rfl
      exact htail ▸ hg
    show 1 ≤ ((b.heap.set f _).get g).size
    rw [hother g fun hgf => hnd.1 (hgf ▸ hg')]
    exact h.filled g (by rw [hfs]; exact List.mem_cons_of_mem _ hg')
  · show ((b.heap.set f _).get g).Full
    by_cases hgf : g = f
    · subst hgf
      rw [hself]
      exact Fragmentation.full_read (h.tight g hg) n
    · rw [hother g hgf]
      exact h.tight g hg

theorem draining_readLoop {b : Buffer} (h : b.Draining) {fuel n : Nat} (hn : n ≤ fuel) :
    (readLoop fuel b n).2.2.Draining := by
  refine readLoop_induction (P := fun b _ r => b.Draining → r.2.2.Draining)
    (fun b h => h) (fun b _ _ _ h => h.shaped.draining) (fun b f fs n r _ hfs ih h => ?_) b hn h
  exact ih (h.shaped.turn hfs n)

theorem shaped_read {b : Buffer} (h : b.Shaped) (n : Nat) : (b.read n).2.2.Shaped :=
  (draining_readLoop h.draining (Nat.le_refl n)).shaped

/-! ## The turns of `read` -/

/-- A turn of the loop of `read`: the fragment it reads from, if there is one,
and how much it leaves in it. -/
structure Turn where
  fragment : Option Ref
  left : Nat
deriving DecidableEq, Repr

/-- The turns of `readLoop`. -/
def readTurns : Nat → Buffer → Nat → List Turn
  | 0, _, _ => []
  | fuel + 1, b, n =>
    if n = 0 then []
    else match b.getReadFragmentation with
      | (none, _) => [⟨none, 0⟩]
      | (some f, b) =>
        let (count, _, f') := (b.heap.get f).read n
        ⟨some f, f'.size⟩ :: readTurns fuel (b.setFragment f f') (n - count)

/-- A turn that drains `f`. -/
def Turn.drains (f : Ref) : Turn := ⟨some f, 0⟩

/-- A turn that hands bytes out. -/
theorem readTurns_turn {b : Buffer} {f : Ref} {fs : List Ref} {n : Nat}
    (hfs : b.removeNoReadFragmentation.fragmentations = f :: fs) (hn : n ≠ 0) (fuel : Nat) :
    readTurns (fuel + 1) b n =
      ⟨some f, ((b.heap.get f).read n).2.2.size⟩ ::
        readTurns fuel (b.removeNoReadFragmentation.setFragment f ((b.heap.get f).read n).2.2)
          (n - ((b.heap.get f).read n).1) := by
  rw [readTurns, if_neg hn, getReadFragmentation, hfs]
  rfl

/-- The turn that finds nothing to read. -/
theorem readTurns_empty {b : Buffer} {n : Nat}
    (hfs : b.removeNoReadFragmentation.fragmentations = []) (hn : n ≠ 0) (fuel : Nat) :
    readTurns (fuel + 1) b n = [⟨none, 0⟩] := by
  rw [readTurns, if_neg hn, getReadFragmentation, hfs]
  rfl

theorem readTurns_zero (fuel : Nat) (b : Buffer) : readTurns fuel b 0 = [] := by
  cases fuel <;> rfl

/-- As many turns as `readTurns` lists are enough for the loop. -/
theorem readLoop_of_turns {fuel k n : Nat} (b : Buffer) (hn : n ≤ fuel)
    (hk : (readTurns fuel b n).length ≤ k) : readLoop k b n = readLoop fuel b n := by
  induction fuel generalizing k b n with
  | zero =>
    rw [Nat.le_zero.mp hn]
    cases k <;> rfl
  | succ fuel ih =>
    by_cases hzero : n = 0
    · subst hzero
      cases k <;> rfl
    · cases hfs : b.removeNoReadFragmentation.fragmentations with
      | nil =>
        rw [readTurns_empty hfs hzero] at hk
        obtain ⟨k, rfl⟩ := Nat.exists_eq_succ_of_ne_zero (Nat.ne_of_gt hk)
        rw [readLoop_empty hfs hzero, readLoop_empty hfs hzero]
      | cons f fs =>
        rw [readTurns_turn hfs hzero, List.length_cons] at hk
        obtain ⟨k, rfl⟩ := Nat.exists_eq_succ_of_ne_zero (Nat.ne_of_gt (Nat.lt_of_lt_of_le
          (Nat.succ_pos _) hk))
        have hsize := size_pos_of_head hfs
        have hcount : ((b.heap.get f).read n).1 = min n (b.heap.get f).size :=
          (b.heap.get f).available_eq n
        rw [readLoop_turn hfs hzero (ih _ (by omega) (Nat.le_of_succ_le_succ hk)),
          readLoop_turn hfs hzero rfl]

/-- Nothing is popped in front of a fragment with something to read. -/
theorem popDrained_of_filled {heap : Store Fragmentation} {fs : List Ref} (cache : Option Ref)
    (h : ∀ f ∈ fs, 1 ≤ (heap.get f).size) : popDrained heap fs cache = (fs, cache) := by
  cases fs with
  | nil => rfl
  | cons f fs =>
    have hsize := h f (List.mem_cons_self ..)
    rw [popDrained, if_neg (by omega)]

/-- A turn that takes all of the first fragment: the next one reads from the
second. -/
theorem fragmentations_of_drained {b : Buffer} (h : b.Shaped) {f : Ref} {fs : List Ref}
    (hfs : b.fragmentations = f :: fs) {x : Fragmentation} (hx : x.size = 0) :
    (b.setFragment f x).removeNoReadFragmentation.fragmentations = fs := by
  have hnd := h.wf.nodup
  rw [hfs, List.nodup_cons] at hnd
  have hself := Store.get_set_self (h.wf.valid f (by rw [hfs]; simp)) x
  show (popDrained (b.heap.set f x) b.fragmentations b.cache).1 = fs
  rw [hfs, popDrained, hself, if_pos (by omega), popDrained_of_filled]
  intro g hg
  rw [Store.get_set_ne fun hgf : g = f => hnd.1 (hgf ▸ hg)]
  exact h.filled g (by rw [hfs]; exact List.mem_cons_of_mem _ hg)

/-- What the turns of `read` are: each but the last drains the next fragment,
and there is at most one more of them than there are fragments. -/
theorem readTurns_spec {b : Buffer} (h : b.Draining) {fuel n : Nat} (hn : n ≤ fuel) :
    (readTurns fuel b n).length ≤ b.removeNoReadFragmentation.fragmentations.length + 1 ∧
      (readTurns fuel b n).dropLast =
        (b.removeNoReadFragmentation.fragmentations.take
          ((readTurns fuel b n).length - 1)).map Turn.drains := by
  induction fuel generalizing b n with
  | zero => exact ⟨Nat.zero_le _, rfl⟩
  | succ fuel ih =>
    by_cases hzero : n = 0
    · subst hzero
      rw [readTurns_zero]
      exact ⟨Nat.zero_le _, rfl⟩
    · cases hfs : b.removeNoReadFragmentation.fragmentations with
      | nil =>
        rw [readTurns_empty hfs hzero]
        exact ⟨Nat.le_refl _, rfl⟩
      | cons f fs =>
        have hsize := size_pos_of_head hfs
        have hcount : ((b.heap.get f).read n).1 = min n (b.heap.get f).size :=
          (b.heap.get f).available_eq n
        have hleft := (b.heap.get f).size_read n
        rw [readTurns_turn hfs hzero]
        by_cases hle : n ≤ (b.heap.get f).size
        · -- the last turn, that gets all the bytes that are still asked for
          rw [hcount, Nat.min_eq_left hle, Nat.sub_self, readTurns_zero]
          exact ⟨Nat.le_add_left _ _, rfl⟩
        · have hdrained : ((b.heap.get f).read n).2.2.size = 0 := by omega
          obtain ⟨hlen, hdrop⟩ := ih (h.shaped.turn hfs n)
            (by omega : n - ((b.heap.get f).read n).1 ≤ fuel)
          rw [show b.removeNoReadFragmentation.heap = b.heap from rfl,
            fragmentations_of_drained h.shaped hfs hdrained] at hlen hdrop
          -- there is another turn, since bytes are still asked for
          obtain ⟨t, ts, hts⟩ : ∃ t ts, readTurns fuel
              (b.removeNoReadFragmentation.setFragment f ((b.heap.get f).read n).2.2)
              (n - ((b.heap.get f).read n).1) = t :: ts := by
            refine List.exists_cons_of_ne_nil fun hnil => ?_
            obtain ⟨fuel, rfl⟩ := Nat.exists_eq_succ_of_ne_zero (by omega : fuel ≠ 0)
            rw [readTurns] at hnil
            split at hnil
            · omega
            · split at hnil <;> cases hnil
          rw [hts] at hlen hdrop ⊢
          refine ⟨Nat.succ_le_succ hlen, ?_⟩
          rw [List.dropLast_cons_cons, hdrop, hdrained, List.length_cons, Nat.add_sub_cancel,
            List.length_cons, Nat.add_sub_cancel]
          rfl

/-! ## Every run of operations -/

/-- A call of a public operation, with `copy_to` in both forms. -/
inductive Operation where
  | call (c : Call)
  | copyToSkip (skip n : Nat)
deriving DecidableEq, Repr

/-- No allocation fails. -/
def Operation.succeeds : Operation → Bool
  | .call c => c.succeeds
  | .copyToSkip _ _ => true

/-- The buffer after an operation. -/
def operate (b : Buffer) : Operation → Buffer
  | .call c => (b.step c).1
  | .copyToSkip _ _ => b

theorem shaped_operate {b : Buffer} (h : b.Shaped) {op : Operation}
    (hok : op.succeeds = true) : (b.operate op).Shaped := by
  cases op with
  | copyToSkip skip n => exact h
  | call c =>
    have hwf := wf_step h.wf c
    cases c with
    | write bytes faults =>
      have hnone : faults = .none := by simpa [Operation.succeeds, Call.succeeds] using hok
      subst hnone
      exact shaped_write h bytes
    | read n => exact shaped_read h n
    | copyTo n => exact h
    | size => exact h
    | reset clearcache =>
      refine .of_nil hwf ?_
      show (b.reset clearcache).fragmentations = []
      unfold reset
      split
      · rfl
      · split <;> rfl
    | resetCache => exact ⟨hwf, h.filled, h.tight⟩

theorem shaped_foldl {b : Buffer} (h : b.Shaped) (ops : List Operation)
    (hok : ∀ op ∈ ops, op.succeeds = true) : (ops.foldl operate b).Shaped := by
  induction ops generalizing b with
  | nil => exact h
  | cons op ops ih =>
    exact ih (shaped_operate h (hok op (List.mem_cons_self ..)))
      fun op' hop => hok op' (List.mem_cons_of_mem _ hop)

/-- What `buffer_t` keeps of its fragments between calls.

- `filled`: each holds at least one byte, inside its capacity.
- `tight`: each but the last is filled to its end.
- `nodup`, `cacheFree`: none is in the list twice, and the cached one is not in
  the list.
- `turns`, `ends`: the loop of `read` drains one fragment a turn, completely but
  for the last turn, and ends with the turn after the last fragment. -/
structure Represents (b : Buffer) : Prop where
  filled : ∀ f ∈ b.fragmentations, 1 ≤ (b.heap.get f).size ∧
    (b.heap.get f).offset + (b.heap.get f).size ≤ (b.heap.get f).capacity
  tight : ∀ f ∈ b.fragmentations.dropLast,
    (b.heap.get f).offset + (b.heap.get f).size = (b.heap.get f).capacity
  nodup : b.fragmentations.Nodup
  cacheFree : ∀ c, b.cache = some c → c ∉ b.fragmentations
  turns : ∀ n, (readTurns n b n).dropLast =
    (b.fragmentations.take ((readTurns n b n).length - 1)).map Turn.drains
  ends : ∀ n, (readTurns n b n).length ≤ b.fragmentations.length + 1 ∧
    readLoop (b.fragmentations.length + 1) b n = readLoop n b n

theorem Shaped.represents {b : Buffer} (h : b.Shaped) : b.Represents := by
  have hsame : b.removeNoReadFragmentation.fragmentations = b.fragmentations :=
    congrArg Prod.fst (popDrained_of_filled b.cache h.filled)
  refine ⟨fun f hf => ⟨h.filled f hf, (b.heap.get f).bound⟩, h.tight, h.wf.nodup,
    h.wf.cacheFresh, fun n => ?_, fun n => ?_⟩
  · obtain ⟨-, hdrop⟩ := readTurns_spec h.draining (Nat.le_refl n)
    rwa [hsame] at hdrop
  · obtain ⟨hlen, -⟩ := readTurns_spec h.draining (Nat.le_refl n)
    rw [hsame] at hlen
    exact ⟨hlen, readLoop_of_turns b (Nat.le_refl n) hlen⟩

end Buffer

open Buffer

/-- **The representation invariant of `buffer_t`**: it holds after every run of
public operations whose allocations succeed, on a fresh buffer of any
construction capacity. -/
theorem buffer_represents (capacity : Int32) (fresh : Nat → Nat → Byte)
    (ops : List Operation) (hok : ∀ op ∈ ops, op.succeeds = true) :
    (ops.foldl operate (create capacity fresh)).Represents :=
  (shaped_foldl (.of_nil (wf_create capacity fresh) rfl) ops hok).represents

/-- Two fragments, the first drained into the cache and back in the list, and a
read that takes the rest of them in two turns. -/
theorem buffer_represents_recycled :
    ([Operation.call (.write [1, 2, 3] .none), .call (.write [4, 5, 6] .none),
        .copyToSkip 1 2, .call (.read 4), .call (.write [7, 8, 9] .none)].foldl operate
      (create 4 fun _ _ => 0)).Represents :=
  buffer_represents 4 (fun _ _ => 0) _ (by decide)

end KgCpp.Bytes
