import KgCpp.Bytes.BufferContent

/-!
# The fragment in the cache of a buffer

`read` takes drained fragments off the front of the list and offers each to the
cache, which is to keep one for later writes. `drainedPrefix` says which ones a
read takes off, from the state before it; `read_effect` is what the read then
does to the list and to the cache.

The offer compares `size()`, which is 0 for both fragments once they are
drained: the cache keeps what it had, or the first fragment that it is offered.
So it holds the largest of the fragments drained since it was last empty exactly
as long as no read drains a larger one than that (`keeps_largest_iff`).
-/

namespace KgCpp.Bytes.Buffer

open Lib

/-! ## The fragments a read drains -/

/-- The leading fragments with at most `n` readable bytes altogether. -/
def drainedPrefix (heap : Store Fragmentation) : List Ref → Nat → List Ref
  | [], _ => []
  | f :: fs, n =>
    if (heap.get f).size ≤ n then f :: drainedPrefix heap fs (n - (heap.get f).size) else []

theorem drainedPrefix_cons_of_le {heap : Store Fragmentation} {f : Ref} {n : Nat}
    (h : (heap.get f).size ≤ n) (fs : List Ref) :
    drainedPrefix heap (f :: fs) n = f :: drainedPrefix heap fs (n - (heap.get f).size) :=
  if_pos h

theorem drainedPrefix_cons_of_lt {heap : Store Fragmentation} {f : Ref} {n : Nat}
    (h : n < (heap.get f).size) (fs : List Ref) : drainedPrefix heap (f :: fs) n = [] :=
  if_neg (by omega)

theorem drainedPrefix_isPrefix (heap : Store Fragmentation) (fs : List Ref) (n : Nat) :
    drainedPrefix heap fs n <+: fs := by
  induction fs generalizing n with
  | nil => exact List.prefix_rfl
  | cons f fs ih =>
    rw [drainedPrefix]
    split
    · exact (List.prefix_cons_inj f).mpr (ih _)
    · exact List.nil_prefix

/-- The list is what is drained and what stays. -/
theorem drainedPrefix_append_drop (heap : Store Fragmentation) (fs : List Ref) (n : Nat) :
    drainedPrefix heap fs n ++ fs.drop (drainedPrefix heap fs n).length = fs := by
  conv_rhs => rw [← List.take_append_drop (drainedPrefix heap fs n).length fs]
  rw [← List.prefix_iff_eq_take.mp (drainedPrefix_isPrefix heap fs n)]

theorem drainedPrefix_congr {heap heap' : Store Fragmentation} {fs : List Ref}
    (h : ∀ f ∈ fs, heap'.get f = heap.get f) (n : Nat) :
    drainedPrefix heap' fs n = drainedPrefix heap fs n := by
  induction fs generalizing n with
  | nil => rfl
  | cons f fs ih =>
    rw [drainedPrefix, drainedPrefix, h f (List.mem_cons_self ..),
      ih fun g hg => h g (List.mem_cons_of_mem _ hg)]

/-- The fragments without readable bytes come first. -/
theorem drainedPrefix_split (heap : Store Fragmentation) (fs : List Ref) (n : Nat) :
    drainedPrefix heap fs n = drainedPrefix heap fs 0 ++
      drainedPrefix heap (fs.drop (drainedPrefix heap fs 0).length) n := by
  induction fs with
  | nil => rfl
  | cons f fs ih =>
    by_cases hzero : (heap.get f).size = 0
    · rw [drainedPrefix_cons_of_le (by omega), drainedPrefix_cons_of_le (by omega), hzero,
        Nat.sub_zero, Nat.sub_zero, List.length_cons, List.drop_succ_cons, List.cons_append, ← ih]
    · rw [drainedPrefix_cons_of_lt (by omega : 0 < (heap.get f).size)]
      rfl

/-- A drained fragment gets into the cache only when that is empty. -/
theorem cacheFragmentation_of_drained {heap : Store Fragmentation} {f : Ref}
    (h : (heap.get f).size = 0) (cache : Option Ref) :
    cacheFragmentation heap cache f = cache.or (some f) := by
  cases cache with
  | none => rfl
  | some c =>
    rw [cacheFragmentation, h, if_neg (Nat.not_lt_zero _)]
    rfl

/-- The loop that drops drained fragments. -/
theorem popDrained_eq (heap : Store Fragmentation) (fs : List Ref) (cache : Option Ref) :
    popDrained heap fs cache =
      (fs.drop (drainedPrefix heap fs 0).length,
        cache.or (drainedPrefix heap fs 0).head?) := by
  induction fs generalizing cache with
  | nil => simp [popDrained, drainedPrefix]
  | cons f fs ih =>
    rw [popDrained]
    by_cases hzero : (heap.get f).size = 0
    · rw [if_pos (by omega), ih, cacheFragmentation_of_drained hzero,
        drainedPrefix_cons_of_le (by omega), hzero, Nat.sub_zero, List.length_cons,
        List.drop_succ_cons, List.head?_cons, Option.or_assoc]
      rfl
    · rw [if_neg (by omega), drainedPrefix_cons_of_lt (by omega)]
      simp

/-- A turn of the loop of `read` drains its fragment if it can, and asks the
others for the rest. -/
theorem drainedPrefix_turn {heap : Store Fragmentation} {f : Ref} {fs : List Ref} (n : Nat)
    (hval : f < heap.size) (hf : f ∉ fs) :
    drainedPrefix (heap.set f ((heap.get f).read n).2.2) (f :: fs)
        (n - ((heap.get f).read n).1) = drainedPrefix heap (f :: fs) n := by
  have hcount : ((heap.get f).read n).1 = min n (heap.get f).size :=
    (heap.get f).available_eq n
  have hleft : ((heap.set f ((heap.get f).read n).2.2).get f).size =
      (heap.get f).size - min n (heap.get f).size := by
    rw [Store.get_set_self hval, ← (heap.get f).available_eq n]
    rfl
  have hrest : ∀ m, drainedPrefix (heap.set f ((heap.get f).read n).2.2) fs m =
      drainedPrefix heap fs m :=
    drainedPrefix_congr fun g hg => Store.get_set_ne (fun hgf : g = f => hf (hgf ▸ hg)) _
  by_cases hle : (heap.get f).size ≤ n
  · rw [drainedPrefix_cons_of_le hle, drainedPrefix_cons_of_le (by omega), hleft, hcount, hrest,
      Nat.min_eq_right hle, Nat.sub_self, Nat.sub_zero]
  · rw [drainedPrefix_cons_of_lt (by omega), drainedPrefix_cons_of_lt (by omega)]

/-- What the loop of `read`, with turns enough, and the removal behind it do to
the list and the cache. -/
theorem readLoop_effect {b : Buffer} (h : b.WF) {fuel n : Nat} (hn : n ≤ fuel) :
    (readLoop fuel b n).2.2.removeNoReadFragmentation.fragmentations =
        b.fragmentations.drop (drainedPrefix b.heap b.fragmentations n).length ∧
      (readLoop fuel b n).2.2.removeNoReadFragmentation.cache =
        b.cache.or (drainedPrefix b.heap b.fragmentations n).head? := by
  have hpop : ∀ b : Buffer, b.removeNoReadFragmentation.fragmentations =
        b.fragmentations.drop (drainedPrefix b.heap b.fragmentations 0).length ∧
      b.removeNoReadFragmentation.cache =
        b.cache.or (drainedPrefix b.heap b.fragmentations 0).head? := fun b =>
    Prod.mk.inj (popDrained_eq b.heap b.fragmentations b.cache)
  -- what is drained: the empty fragments in front, then what the turns drain
  have hsplit : ∀ (b : Buffer) (n : Nat), drainedPrefix b.heap b.fragmentations n =
      drainedPrefix b.heap b.fragmentations 0 ++
        drainedPrefix b.heap b.removeNoReadFragmentation.fragmentations n := fun b n => by
    rw [(hpop b).1, ← drainedPrefix_split]
  refine readLoop_induction (P := fun b n r => b.WF →
    r.2.2.removeNoReadFragmentation.fragmentations =
        b.fragmentations.drop (drainedPrefix b.heap b.fragmentations n).length ∧
      r.2.2.removeNoReadFragmentation.cache =
        b.cache.or (drainedPrefix b.heap b.fragmentations n).head?) ?_ ?_ ?_ b hn h
  · exact fun b _ => hpop b
  · intro b n _ hfs _
    rw [hsplit, hfs, drainedPrefix, List.append_nil, ← (hpop b).1, ← (hpop b).2,
      removeNoReadFragmentation, hfs]
    exact ⟨rfl, rfl⟩
  · intro b f fs n r _ hfs ih h
    have hwf := (removeNoReadFragmentation_spec h).1
    have hval : f < b.heap.size := hwf.valid f (by rw [hfs]; exact List.mem_cons_self ..)
    have hnd := hwf.nodup
    rw [hfs, List.nodup_cons] at hnd
    have hrun := ih (wf_setFragment hwf f _)
    have hdrained : drainedPrefix (b.removeNoReadFragmentation.setFragment f
        ((b.heap.get f).read n).2.2).heap (f :: fs) (n - ((b.heap.get f).read n).1) =
        drainedPrefix b.heap (f :: fs) n := drainedPrefix_turn n hval hnd.1
    have hfs' : (b.removeNoReadFragmentation.setFragment f
        ((b.heap.get f).read n).2.2).fragmentations = f :: fs := hfs
    rw [hfs', hdrained] at hrun
    rw [hsplit, List.length_append, ← List.drop_drop, List.head?_append, ← Option.or_assoc,
      ← (hpop b).1, ← (hpop b).2, hfs]
    exact hrun

/-- `read` takes the fragments it drains off the list, and an empty cache gets
the first of them. -/
theorem read_effect {b : Buffer} (h : b.WF) (n : Nat) :
    (b.read n).2.2.fragmentations =
        b.fragmentations.drop (drainedPrefix b.heap b.fragmentations n).length ∧
      (b.read n).2.2.cache =
        b.cache.or (drainedPrefix b.heap b.fragmentations n).head? :=
  readLoop_effect h (Nat.le_refl n)

/-! ## Capacities stay -/

/-- Objects are added and overwritten, and none changes its capacity. -/
structure SameCapacities (heap heap' : Store Fragmentation) : Prop where
  size_le : heap.size ≤ heap'.size
  capacity : ∀ f, f < heap.size → (heap'.get f).capacity = (heap.get f).capacity

theorem SameCapacities.refl (heap : Store Fragmentation) : SameCapacities heap heap :=
  ⟨Nat.le_refl _, fun _ _ => rfl⟩

theorem SameCapacities.trans {heap heap' heap'' : Store Fragmentation}
    (h : SameCapacities heap heap') (h' : SameCapacities heap' heap'') :
    SameCapacities heap heap'' where
  size_le := h.size_le.trans h'.size_le
  capacity f hf :=
    (h'.capacity f (Nat.lt_of_lt_of_le hf h.size_le)).trans (h.capacity f hf)

theorem SameCapacities.set {heap : Store Fragmentation} {f : Ref} {x : Fragmentation}
    (h : x.capacity = (heap.get f).capacity) : SameCapacities heap (heap.set f x) where
  size_le := Nat.le_of_eq (Store.size_set ..).symm
  capacity := by
    intro g hg
    by_cases hgf : g = f
    · subst hgf
      rw [Store.get_set_self hg, h]
    · rw [Store.get_set_ne hgf]

theorem SameCapacities.alloc (heap : Store Fragmentation) (x : Fragmentation) :
    SameCapacities heap (heap.alloc x) where
  size_le := by
    rw [Store.size_alloc]
    exact Nat.le_succ _
  capacity _ hg := by rw [Store.get_alloc_old hg]

theorem sameCapacities_read (b : Buffer) (n : Nat) :
    SameCapacities b.heap (b.read n).2.2.heap := by
  refine readLoop_induction (P := fun b _ r => SameCapacities b.heap r.2.2.heap)
    (fun b => .refl _) (fun b _ _ _ => .refl _) (fun b f fs n r _ _ ih => ?_) b (Nat.le_refl n)
  have hturn : SameCapacities b.heap (b.heap.set f ((b.heap.get f).read n).2.2) := .set rfl
  exact hturn.trans ih

/-- What `write` keeps, whatever its allocations do: the capacities, the
fragments of the list, and the cache, unless it takes that. -/
structure Kept (b b' : Buffer) : Prop where
  capacities : SameCapacities b.heap b'.heap
  fragmentations : b.fragmentations <+: b'.fragmentations
  cache : b'.cache = none ∨ b'.cache = b.cache

theorem Kept.refl (b : Buffer) : b.Kept b := ⟨.refl _, List.prefix_rfl, .inr rfl⟩

theorem Kept.trans {b b' b'' : Buffer} (h : b.Kept b') (h' : b'.Kept b'') : b.Kept b'' where
  capacities := h.capacities.trans h'.capacities
  fragmentations := h.fragmentations.trans h'.fragmentations
  cache := by
    rcases h'.cache with hnone | hsame
    · exact .inl hnone
    · rw [hsame]
      exact h.cache

theorem kept_makeShared (b : Buffer) (capacity : Nat) (faults : WriteFaults) :
    b.Kept (b.makeShared capacity faults).2 := by
  unfold makeShared
  split
  · exact .refl b
  · exact ⟨.alloc _ _, List.prefix_rfl, .inr rfl⟩

theorem kept_createFragmentation (b : Buffer) (capacity : Nat) (faults : WriteFaults) :
    b.Kept (b.createFragmentation capacity faults).2 := by
  unfold createFragmentation
  split
  · exact kept_makeShared b capacity faults
  · split
    · exact kept_makeShared b capacity faults
    · exact ⟨.set rfl, List.prefix_rfl, .inl rfl⟩

theorem kept_pushBack (b : Buffer) (f : Ref) : b.Kept (b.pushBack f) :=
  ⟨.refl _, List.prefix_append _ _, .inr rfl⟩

theorem kept_writeTo (b : Buffer) (f : Ref) (bytes : List Byte) : b.Kept (b.writeTo f bytes) :=
  ⟨.set rfl, List.prefix_rfl, .inr rfl⟩

theorem kept_write (b : Buffer) (bytes : List Byte) (faults : WriteFaults) :
    b.Kept (b.write bytes faults).2 := by
  by_cases hn : bytes = []
  · rw [hn, write_nil]
    exact .refl b
  have hcases := b.write_cases hn faults
  have hcreated := b.kept_createFragmentation (b.request bytes.length) faults
  generalize b.write bytes faults = r at hcases
  cases hcases with
  | @fits fs f0 => exact b.kept_writeTo f0 bytes
  | stops _ hcreate =>
    rw [hcreate] at hcreated
    exact hcreated
  | @first f b' _ hcreate =>
    rw [hcreate] at hcreated
    exact hcreated.trans ((b'.kept_pushBack f).trans (kept_writeTo _ f bytes))
  | @more fs f0 f b' _ _ hcreate =>
    rw [hcreate] at hcreated
    exact hcreated.trans ((b'.kept_pushBack f).trans
      ((kept_writeTo _ f0 _).trans (kept_writeTo _ f _)))

/-! ## Reusing the cached fragment -/

/-- A cached fragment that is large enough is taken, and no object is made. -/
theorem size_createFragmentation {b : Buffer} {capacity : Nat} (h : b.Reuses capacity)
    (faults : WriteFaults) :
    (b.createFragmentation capacity faults).2.heap.size = b.heap.size := by
  obtain ⟨c, hc, hle⟩ := h
  rw [createFragmentation, hc]
  dsimp only
  rw [if_neg (by omega)]
  exact Store.size_set ..

/-- A write that finds its fragment in the cache makes no object. -/
theorem size_write {b : Buffer} {bytes : List Byte} (h : b.Reuses (b.request bytes.length))
    (faults : WriteFaults) : (b.write bytes faults).2.heap.size = b.heap.size := by
  by_cases hn : bytes = []
  · rw [hn, write_nil]
  have hcases := b.write_cases hn faults
  have hsize := size_createFragmentation h faults
  generalize b.write bytes faults = r at hcases
  cases hcases with
  | fits => exact Store.size_set ..
  | stops _ hcreate =>
    rw [hcreate] at hsize
    exact hsize
  | first _ hcreate =>
    rw [hcreate] at hsize
    exact (Store.size_set ..).trans hsize
  | more _ _ hcreate =>
    rw [hcreate] at hsize
    exact (Store.size_set ..).trans ((Store.size_set ..).trans hsize)

/-! ## Runs of writes and reads -/

/-- A call of `write` whose allocations succeed, or of `read`. -/
inductive Use where
  | write (bytes : List Byte)
  | read (n : Nat)
deriving DecidableEq, Repr

/-- The buffer after a call. -/
def use (b : Buffer) : Use → Buffer
  | .write bytes => (b.write bytes .none).2
  | .read n => (b.read n).2.2

/-- The fragments of `b` that a call has drained, `b'` being the buffer after
it. -/
def gone (b b' : Buffer) : List Ref :=
  b.fragmentations.filter fun f => f ∉ b'.fragmentations

/-- The capacities of the fragments drained since the cache was last empty, after
a call from `b` to `b'` that found `drained`. -/
def drainedSince (b b' : Buffer) (drained : List Nat) : List Nat :=
  if b'.cache.isNone then []
  else drained ++ (b.gone b').map fun f => (b.heap.get f).capacity

/-- The cache holds the largest of the drained fragments.

- `largest`: its capacity is at least that of each of them.
- `reuses`: a write that asks for no more than one of them has makes no
  object. -/
structure KeepsLargest (b : Buffer) (drained : List Nat) : Prop where
  largest : drained ≠ [] →
    ∃ c, b.cache = some c ∧ ∀ capacity ∈ drained, capacity ≤ (b.heap.get c).capacity
  reuses : ∀ capacity ∈ drained, ∀ bytes, b.request bytes.length ≤ capacity →
    (b.write bytes .none).2.heap.size = b.heap.size

/-- After each read of a run the cache holds the largest of the fragments drained
since it was last empty. -/
def Keeps (b : Buffer) (drained : List Nat) : List Use → Prop
  | [] => True
  | .write bytes :: uses =>
    Keeps (b.use (.write bytes)) (drainedSince b (b.use (.write bytes)) drained) uses
  | .read n :: uses =>
    KeepsLargest (b.use (.read n)) (drainedSince b (b.use (.read n)) drained) ∧
      Keeps (b.use (.read n)) (drainedSince b (b.use (.read n)) drained) uses

/-- A read of `n` bytes drains only fragments of at most the capacity of the
cached one or, when the cache is empty, of the first one that it drains. -/
def DrainsNoLarger (b : Buffer) (n : Nat) : Prop :=
  ∀ c, b.cache.or (drainedPrefix b.heap b.fragmentations n).head? = some c →
    ∀ f ∈ drainedPrefix b.heap b.fragmentations n,
      (b.heap.get f).capacity ≤ (b.heap.get c).capacity

/-- Every read of a run drains only such fragments. -/
def Drains (b : Buffer) : List Use → Prop
  | [] => True
  | .write bytes :: uses => Drains (b.use (.write bytes)) uses
  | .read n :: uses => b.DrainsNoLarger n ∧ Drains (b.use (.read n)) uses

/-- What every call keeps, as long as no read drains a larger fragment than the
one that stays cached. -/
structure Tracks (b : Buffer) (drained : List Nat) : Prop where
  wf : b.WF
  empty : b.cache = none → drained = []
  largest : ∀ c, b.cache = some c → ∀ capacity ∈ drained, capacity ≤ (b.heap.get c).capacity

theorem Tracks.keepsLargest {b : Buffer} {drained : List Nat} (h : b.Tracks drained) :
    b.KeepsLargest drained := by
  cases hc : b.cache with
  | none =>
    rw [h.empty hc]
    exact ⟨fun hne => absurd rfl hne, fun _ hmem => by cases hmem⟩
  | some c =>
    exact ⟨fun _ => ⟨c, hc, h.largest c hc⟩, fun capacity hmem bytes hle =>
      size_write ⟨c, hc, hle.trans (h.largest c hc capacity hmem)⟩ .none⟩

/-- `write` drains nothing. -/
theorem gone_write (b : Buffer) (bytes : List Byte) : b.gone (b.use (.write bytes)) = [] := by
  have hkept := b.kept_write bytes .none
  refine List.filter_eq_nil_iff.mpr fun f hf => ?_
  simp only [decide_eq_true_eq, not_not]
  exact hkept.fragmentations.subset hf

theorem tracks_write {b : Buffer} {drained : List Nat} (h : b.Tracks drained)
    (bytes : List Byte) :
    (b.use (.write bytes)).Tracks (drainedSince b (b.use (.write bytes)) drained) := by
  have hkept : b.Kept (b.use (.write bytes)) := b.kept_write bytes .none
  have hwf : (b.use (.write bytes)).WF := wf_write h.wf bytes .none
  rw [drainedSince, gone_write, List.map_nil, List.append_nil]
  rcases hkept.cache with hnone | hsame
  · rw [hnone]
    refine ⟨hwf, fun _ => rfl, fun c hc => ?_⟩
    rw [hnone] at hc
    cases hc
  · rw [hsame]
    cases hc : b.cache with
    | none => exact ⟨hwf, fun _ => rfl, fun _ _ _ hmem => by cases hmem⟩
    | some c =>
      refine ⟨hwf, fun hnone => ?_, fun c' hc' => ?_⟩
      · rw [hsame, hc] at hnone
        cases hnone
      · rw [hsame, hc] at hc'
        cases hc'
        rw [hkept.capacities.capacity c (h.wf.cacheValid c hc)]
        exact h.largest c hc

/-- `read` drains the leading fragments that it can hand out whole. -/
theorem gone_read {b : Buffer} (h : b.WF) (n : Nat) :
    b.gone (b.use (.read n)) = drainedPrefix b.heap b.fragmentations n := by
  have hsplit := drainedPrefix_append_drop b.heap b.fragmentations n
  have hnd := h.nodup
  rw [gone, use, (read_effect h n).1]
  generalize drainedPrefix b.heap b.fragmentations n = d at hsplit ⊢
  generalize hrest : b.fragmentations.drop d.length = rest at hsplit ⊢
  rw [← hsplit] at hnd ⊢
  have hdisjoint := (List.nodup_append.mp hnd).2.2
  rw [List.filter_append, List.filter_eq_self.mpr, List.filter_eq_nil_iff.mpr, List.append_nil]
  · intro f hf
    simpa using hf
  · intro f hf
    simp only [decide_eq_true_eq]
    exact fun hmem => hdisjoint f hf f hmem rfl

/-- The fragment in the cache after a read is a valid one from before it. -/
theorem cache_read_valid {b : Buffer} (h : b.WF) {n : Nat} {c : Ref}
    (hc : b.cache.or (drainedPrefix b.heap b.fragmentations n).head? = some c) :
    c < b.heap.size := by
  rcases Option.or_eq_some_iff.mp hc with hcache | ⟨-, hhead⟩
  · exact h.cacheValid c hcache
  · have hleads := drainedPrefix_isPrefix b.heap b.fragmentations n
    exact h.valid c (hleads.subset (List.mem_of_head? hhead))

/-- The capacities drained so far, after a read that leaves something in the
cache. -/
theorem drainedSince_read {b : Buffer} (h : b.WF) {n : Nat} {c : Ref}
    (hc : (b.use (.read n)).cache = some c) (drained : List Nat) :
    drainedSince b (b.use (.read n)) drained = drained ++
      (drainedPrefix b.heap b.fragmentations n).map fun f => (b.heap.get f).capacity := by
  rw [drainedSince, hc, gone_read h]
  rfl

theorem tracks_read {b : Buffer} {drained : List Nat} (h : b.Tracks drained) {n : Nat}
    (hsmall : b.DrainsNoLarger n) :
    (b.use (.read n)).Tracks (drainedSince b (b.use (.read n)) drained) := by
  have hwf : (b.use (.read n)).WF := (read_spec h.wf n).2.2.1
  have hcache : (b.use (.read n)).cache = _ := (read_effect h.wf n).2
  have hsame : SameCapacities b.heap (b.use (.read n)).heap := sameCapacities_read b n
  refine ⟨hwf, fun hnone => ?_, fun c hc capacity hmem => ?_⟩
  · rw [drainedSince, hnone]
    rfl
  · rw [drainedSince_read h.wf hc] at hmem
    rw [hcache] at hc
    rw [hsame.capacity c (cache_read_valid h.wf hc)]
    rcases List.mem_append.mp hmem with hold | hnew
    · -- drained before: the cache was not empty, and has not changed
      rcases Option.or_eq_some_iff.mp hc with hc' | ⟨hnone, -⟩
      · exact h.largest c hc' capacity hold
      · rw [h.empty hnone] at hold
        cases hold
    · obtain ⟨f, hf, rfl⟩ := List.mem_map.mp hnew
      exact hsmall c hc f hf

theorem drainsNoLarger_of_keepsLargest {b : Buffer} (h : b.WF) {drained : List Nat} {n : Nat}
    (hkeeps : (b.use (.read n)).KeepsLargest (drainedSince b (b.use (.read n)) drained)) :
    b.DrainsNoLarger n := by
  intro c hc f hf
  have hcache : (b.use (.read n)).cache = _ := (read_effect h n).2
  have hsame : SameCapacities b.heap (b.use (.read n)).heap := sameCapacities_read b n
  have hmem : (b.heap.get f).capacity ∈ drainedSince b (b.use (.read n)) drained := by
    rw [drainedSince_read h (hcache.trans hc)]
    exact List.mem_append_right _ (List.mem_map_of_mem hf)
  obtain ⟨c', hc', hlargest⟩ := hkeeps.largest (List.ne_nil_of_mem hmem)
  rw [hcache, hc] at hc'
  cases hc'
  rw [← hsame.capacity c (cache_read_valid h hc)]
  exact hlargest _ hmem

theorem keeps_iff_drains {b : Buffer} {drained : List Nat} (h : b.Tracks drained)
    (uses : List Use) : Keeps b drained uses ↔ Drains b uses := by
  induction uses generalizing b drained with
  | nil => exact Iff.rfl
  | cons u uses ih =>
    cases u with
    | write bytes => exact ih (tracks_write h bytes)
    | read n =>
      constructor
      · rintro ⟨hkeeps, hrest⟩
        have hsmall := drainsNoLarger_of_keepsLargest h.wf hkeeps
        exact ⟨hsmall, (ih (tracks_read h hsmall)).mp hrest⟩
      · rintro ⟨hsmall, hrest⟩
        have htracks := tracks_read h hsmall
        exact ⟨htracks.keepsLargest, (ih htracks).mpr hrest⟩

/-- **What the cache keeps**: over every run of writes and reads on a fresh
buffer, the cache holds after each read the largest of the fragments drained
since it was last empty if and only if no read drains a larger one than the one
cached before it or, with an empty cache, the first one that it drains. -/
theorem keeps_largest_iff (capacity : Int32) (fresh : Nat → Nat → Byte) (uses : List Use) :
    Keeps (create capacity fresh) [] uses ↔ Drains (create capacity fresh) uses :=
  keeps_iff_drains
    ⟨wf_create capacity fresh, fun _ => rfl, fun _ _ _ hmem => by cases hmem⟩ uses

/-- A fragment of capacity 1 is drained, and then one of capacity 2: the cache
still holds the first. -/
theorem keeps_smaller :
    ¬ Keeps (create defaultCapacity fun _ _ => 0) []
      [.write [1], .read 1, .write [2, 3], .read 2] := by
  rintro ⟨-, hkeeps, -⟩
  obtain ⟨c, hc, hlargest⟩ := hkeeps.largest (by decide +kernel)
  have hcached : c = 0 := Option.some.inj (hc.symm.trans (by decide +kernel))
  subst hcached
  exact absurd (hlargest 2 (by decide +kernel)) (by decide +kernel)

end KgCpp.Bytes.Buffer
