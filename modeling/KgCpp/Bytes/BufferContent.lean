import KgCpp.Bytes.Buffer

/-!
# What the buffer operations do to the readable bytes

The specification lemmas of `buffer_t`: each operation, from a well-formed
buffer, in terms of `content` alone. `write` is the only one that allocates; its
lemma `write_spec` follows every allocation failure, and
`LosesArray` names the one that matters (a fragment object is made whose byte
array is not).
-/

namespace KgCpp.Bytes

open Lib

/-- The readable bytes of a list of fragments. -/
def gather (heap : Store Fragmentation) (fs : List Ref) : List Byte :=
  fs.flatMap fun f => (heap.get f).content

@[simp] theorem gather_nil (heap : Store Fragmentation) : gather heap [] = [] := rfl

@[simp] theorem gather_cons (heap : Store Fragmentation) (f : Ref) (fs : List Ref) :
    gather heap (f :: fs) = (heap.get f).content ++ gather heap fs := rfl

theorem gather_append (heap : Store Fragmentation) (fs gs : List Ref) :
    gather heap (fs ++ gs) = gather heap fs ++ gather heap gs :=
  List.flatMap_append

theorem gather_congr {heap heap' : Store Fragmentation} {fs : List Ref}
    (h : ∀ f ∈ fs, heap'.get f = heap.get f) : gather heap' fs = gather heap fs := by
  induction fs with
  | nil => rfl
  | cons f fs ih =>
    rw [gather_cons, gather_cons, h f (List.mem_cons_self ..),
      ih fun g hg => h g (List.mem_cons_of_mem _ hg)]

/-- Overwriting a fragment that is not in the list does not touch its bytes. -/
theorem gather_set {heap : Store Fragmentation} {fs : List Ref} {f : Ref} (h : f ∉ fs)
    (x : Fragmentation) : gather (heap.set f x) fs = gather heap fs :=
  gather_congr fun g hg => Store.get_set_ne (fun hgf => h (by rw [← hgf]; exact hg)) x

namespace Buffer

/-- The readable bytes. -/
def content (b : Buffer) : List Byte := gather b.heap b.fragmentations

/-- The representation invariant that every operation keeps, failing or not. -/
structure WF (b : Buffer) : Prop where
  valid : ∀ f ∈ b.fragmentations, f < b.heap.size
  cacheValid : ∀ c, b.cache = some c → c < b.heap.size
  nodup : b.fragmentations.Nodup
  cacheFresh : ∀ c, b.cache = some c → c ∉ b.fragmentations

/-- A buffer without fragments is well-formed as soon as its cache is valid. -/
theorem WF.of_nil {b : Buffer} (hfs : b.fragmentations = [])
    (hc : ∀ c, b.cache = some c → c < b.heap.size) : b.WF where
  valid := by simp [hfs]
  cacheValid := hc
  nodup := by simp [hfs]
  cacheFresh := by simp [hfs]

theorem wf_create (capacity : Int32) (fresh : Nat → Nat → Byte) :
    (create capacity fresh).WF :=
  .of_nil rfl fun _ h => by cases h

/-- The same fragments, and none of them overwritten. -/
theorem content_congr {b b' : Buffer} (hfs : b'.fragmentations = b.fragmentations)
    (hframe : ∀ f ∈ b.fragmentations, b'.heap.get f = b.heap.get f) :
    b'.content = b.content := by
  rw [content, content, hfs]
  exact gather_congr hframe

@[simp] theorem content_create (capacity : Int32) (fresh : Nat → Nat → Byte) :
    (create capacity fresh).content = [] := rfl

/-! ## `size`, `reset`, `reset_cache` -/

theorem size_eq (b : Buffer) : b.size = b.content.length := by
  have key : ∀ (fs : List Ref) (sum : Nat),
      fs.foldl (fun sum f => sum + (b.heap.get f).size) sum =
        sum + (gather b.heap fs).length := by
    intro fs
    induction fs with
    | nil => intro sum; rfl
    | cons f fs ih =>
      intro sum
      rw [List.foldl_cons, ih, gather_cons, List.length_append,
        Fragmentation.length_content, Nat.add_assoc]
  rw [size, key, Nat.zero_add]
  rfl

theorem reset_spec {b : Buffer} (h : b.WF) (clearcache : Bool) :
    (b.reset clearcache).WF ∧ (b.reset clearcache).content = [] := by
  unfold reset
  split
  · exact ⟨.of_nil rfl (fun _ hc => by cases hc), rfl⟩
  · split
    · exact ⟨.of_nil rfl fun c hc => h.valid c (List.mem_of_getLast? hc), rfl⟩
    · exact ⟨.of_nil rfl h.cacheValid, rfl⟩

theorem resetCache_spec {b : Buffer} (h : b.WF) :
    b.resetCache.WF ∧ b.resetCache.content = b.content := by
  refine ⟨{ valid := h.valid, nodup := h.nodup, cacheValid := ?_, cacheFresh := ?_ }, rfl⟩
  · intro c hc
    cases hc
  · intro c hc
    cases hc

/-! ## `write` -/

/-- `f` is a fragment that neither the list nor the cache holds. -/
structure Detached (b : Buffer) (f : Ref) : Prop where
  valid : f < b.heap.size
  notMem : f ∉ b.fragmentations
  notCache : b.cache ≠ some f

/-- The cached fragment serves for `capacity` bytes. -/
def Reuses (b : Buffer) (capacity : Nat) : Prop :=
  ∃ c, b.cache = some c ∧ capacity ≤ (b.heap.get c).capacity

instance (b : Buffer) (capacity : Nat) : Decidable (b.Reuses capacity) :=
  match hc : b.cache with
  | none => isFalse (by rintro ⟨c, h, -⟩; rw [hc] at h; cases h)
  | some c =>
    decidable_of_iff (capacity ≤ (b.heap.get c).capacity)
      ⟨fun h => ⟨c, hc, h⟩, by
        rintro ⟨c', h, hle⟩
        rw [hc] at h
        cases h
        exact hle⟩

/-- What `create_fragmentation` can answer. -/
inductive Created (b : Buffer) (capacity : Nat) (faults : WriteFaults) :
    Option Ref × Buffer → Prop
  | failed : ¬ b.Reuses capacity → faults.object = true → Created b capacity faults (none, b)
  | made {f : Ref} {b' : Buffer} :
      b'.WF → b'.Detached f → b'.fragmentations = b.fragmentations →
      (∀ g ∈ b.fragmentations, b'.heap.get g = b.heap.get g) →
      (b'.heap.get f).content = [] →
      (b.Reuses capacity ∨ faults.object = false) →
      (¬ b.Reuses capacity → faults.array = true → (b'.heap.get f).getFree = 0) →
      (b.Reuses capacity ∨ faults.array = false → capacity ≤ (b'.heap.get f).getFree) →
      Created b capacity faults (some f, b')

theorem Created.fragmentations {b : Buffer} {capacity : Nat} {faults : WriteFaults}
    {r : Option Ref × Buffer} (h : Created b capacity faults r) :
    r.2.fragmentations = b.fragmentations := by
  cases h with
  | failed => rfl
  | made _ _ hfs => exact hfs

theorem makeShared_created {b : Buffer} (h : b.WF) {capacity : Nat} {faults : WriteFaults}
    (hre : ¬ b.Reuses capacity) :
    Created b capacity faults (b.makeShared capacity faults) := by
  unfold makeShared
  split
  · rename_i hobj
    exact .failed hre hobj
  · rename_i hobj
    have hnew : ∀ x : Fragmentation, (b.heap.alloc x).get b.heap.size = x := fun x =>
      Store.get_alloc_new b.heap x
    refine .made ⟨fun g hg => ?_, fun c hc => ?_, h.nodup, h.cacheFresh⟩
      ⟨?_, fun hmem => ?_, fun hc => ?_⟩ rfl (fun g hg => ?_) ?_ (.inr (by simpa using hobj))
      (fun _ harr => ?_) (fun harr => ?_)
    · rw [Store.size_alloc]
      exact Nat.lt_succ_of_lt (h.valid g hg)
    · rw [Store.size_alloc]
      exact Nat.lt_succ_of_lt (h.cacheValid c hc)
    · rw [Store.size_alloc]
      exact Nat.lt_succ_self _
    · exact Nat.lt_irrefl _ (h.valid _ hmem)
    · exact Nat.lt_irrefl _ (h.cacheValid _ hc)
    · exact Store.get_alloc_old (h.valid g hg) _
    · simp only [hnew, Fragmentation.content_create]
    · simp only [hnew, Fragmentation.getFree_create, harr, if_true]
    · rcases harr with hre' | harr
      · exact absurd hre' hre
      · simp [hnew, Fragmentation.getFree_create, harr]

theorem createFragmentation_created {b : Buffer} (h : b.WF) (capacity : Nat)
    (faults : WriteFaults) :
    Created b capacity faults (b.createFragmentation capacity faults) := by
  unfold createFragmentation
  split
  · rename_i hc
    refine makeShared_created h ?_
    rintro ⟨c, hc', -⟩
    rw [hc] at hc'
    cases hc'
  · rename_i c hc
    split
    · rename_i hlt
      refine makeShared_created h ?_
      rintro ⟨c', hc', hle⟩
      rw [hc] at hc'
      cases hc'
      omega
    · rename_i hge
      have hre : b.Reuses capacity := ⟨c, hc, by omega⟩
      have hnew := Store.get_set_self (h.cacheValid c hc) (b.heap.get c).reinit
      refine .made ⟨fun g hg => ?_, (fun _ hc => by cases hc), h.nodup, (fun _ hc => by cases hc)⟩
        ⟨?_, h.cacheFresh c hc, (fun hc => by cases hc)⟩ rfl (fun g hg => ?_) ?_ (.inl hre)
        (fun hnre => absurd hre hnre) (fun _ => ?_)
      · rw [Store.size_set]
        exact h.valid g hg
      · rw [Store.size_set]
        exact h.cacheValid c hc
      · exact Store.get_set_ne (fun hgc => h.cacheFresh c hc (by rw [← hgc]; exact hg)) _
      · rw [hnew, Fragmentation.content_reinit]
      · rw [hnew, Fragmentation.getFree_reinit]
        omega

theorem wf_pushBack {b : Buffer} (h : b.WF) {f : Ref} (hf : b.Detached f) :
    (b.pushBack f).WF where
  valid := by
    intro g hg
    rcases List.mem_append.mp hg with hg | hg
    · exact h.valid g hg
    · rw [List.mem_singleton.mp hg]
      exact hf.valid
  cacheValid := h.cacheValid
  nodup := by
    refine List.nodup_append.mpr ⟨h.nodup, List.nodup_singleton f, fun g hg k hk => ?_⟩
    rw [List.mem_singleton.mp hk]
    exact fun hgf => hf.notMem (hgf ▸ hg)
  cacheFresh := by
    intro c hc hmem
    rcases List.mem_append.mp hmem with hmem | hmem
    · exact h.cacheFresh c hc hmem
    · rw [List.mem_singleton.mp hmem] at hc
      exact hf.notCache hc

theorem wf_setFragment {b : Buffer} (h : b.WF) (f : Ref) (x : Fragmentation) :
    (b.setFragment f x).WF where
  valid := by
    intro g hg
    rw [setFragment, Store.size_set]
    exact h.valid g hg
  cacheValid := by
    intro c hc
    rw [setFragment, Store.size_set]
    exact h.cacheValid c hc
  nodup := h.nodup
  cacheFresh := h.cacheFresh

theorem wf_writeTo {b : Buffer} (h : b.WF) (f : Ref) (bytes : List Byte) :
    (b.writeTo f bytes).WF := wf_setFragment h f _

/-- The last fragment of the list is not among the others. -/
theorem WF.last_notMem {b : Buffer} (h : b.WF) {fs : List Ref} {f : Ref}
    (hfs : b.fragmentations = fs ++ [f]) : f ∉ fs := by
  have hnd := h.nodup
  rw [hfs] at hnd
  exact fun hmem => (List.nodup_append.mp hnd).2.2 f hmem f (List.mem_singleton_self f) rfl

/-- Writing to the last fragment of the list. -/
theorem content_writeTo_last {b : Buffer} (h : b.WF) {fs : List Ref} {f : Ref}
    (hfs : b.fragmentations = fs ++ [f]) (bytes : List Byte) :
    (b.writeTo f bytes).content = b.content ++ bytes.take (b.heap.get f).getFree := by
  have hval : f < b.heap.size := h.valid f (by rw [hfs]; simp)
  show gather (b.heap.set f ((b.heap.get f).write bytes).2) b.fragmentations =
    gather b.heap b.fragmentations ++ _
  -- the fragments before the last are not touched
  rw [hfs, gather_append, gather_append, gather_set (h.last_notMem hfs), gather_cons, gather_cons,
    Store.get_set_self hval, Fragmentation.content_write]
  simp only [gather_nil, List.append_nil, List.append_assoc]

/-- The free bytes of the last fragment, none in an empty list. -/
def tailFree (b : Buffer) : Nat :=
  match b.fragmentations.getLast? with
  | none => 0
  | some f => (b.heap.get f).getFree

/-- The capacity `write` asks of a new fragment for what the last one cannot
take of `n` bytes. -/
def request (b : Buffer) (n : Nat) : Nat :=
  match b.fragmentations.getLast? with
  | none => n
  | some f => b.newCapacity (subSize n (b.heap.get f).getFree)

/-- Writing `n` bytes makes a new fragment, and of its three allocations exactly
the byte array fails. -/
def LosesArray (b : Buffer) (n : Nat) (faults : WriteFaults) : Prop :=
  b.tailFree < n ∧ ¬ b.Reuses (b.request n) ∧
    faults.object = false ∧ faults.array = true ∧ faults.node = false

instance (b : Buffer) (n : Nat) (faults : WriteFaults) : Decidable (b.LosesArray n faults) := by
  unfold LosesArray
  infer_instance

theorem not_loses_of_object {b : Buffer} {n : Nat} {faults : WriteFaults}
    (h : faults.object = true) : ¬ b.LosesArray n faults := by
  rintro ⟨-, -, hobj, -⟩
  rw [h] at hobj
  cases hobj

theorem not_loses_of_node {b : Buffer} {n : Nat} {faults : WriteFaults}
    (h : faults.node = true) : ¬ b.LosesArray n faults := by
  rintro ⟨-, -, -, -, hnode⟩
  rw [h] at hnode
  cases hnode

/-- A new fragment that is in the list in the end has its array, unless it is
the one whose array alone fails. -/
theorem reuses_or_array {b : Buffer} {n : Nat} {faults : WriteFaults}
    (h : ¬ b.LosesArray n faults) (hfree : b.tailFree < n)
    (hobj : b.Reuses (b.request n) ∨ faults.object = false) (hnode : faults.node = false) :
    b.Reuses (b.request n) ∨ faults.array = false := by
  by_contra hno
  rw [not_or] at hno
  refine h ⟨hfree, hno.1, hobj.resolve_left hno.1, ?_, hnode⟩
  simpa using hno.2

theorem le_newCapacity (b : Buffer) (need : Nat) : need ≤ b.newCapacity need := by
  unfold newCapacity
  split <;> omega

/-- What `write` can do with `bytes`. -/
inductive Written (b : Buffer) (bytes : List Byte) (faults : WriteFaults) :
    Nat × Buffer → Prop
  | all {b' : Buffer} : b'.WF → ¬ b.LosesArray bytes.length faults →
      b'.content = b.content ++ bytes → Written b bytes faults (bytes.length, b')
  | nothing {b' : Buffer} : b'.WF → ¬ b.LosesArray bytes.length faults →
      (faults.object = true ∨ faults.node = true) →
      b'.content = b.content → Written b bytes faults (0, b')
  | part {b' : Buffer} : b'.WF → b.LosesArray bytes.length faults →
      b'.content = b.content ++ bytes.take b.tailFree →
      Written b bytes faults (bytes.length, b')

/-- Append an empty fragment and fill it. -/
theorem content_append_fragment {b : Buffer} (h : b.WF) {f : Ref} (hf : b.Detached f)
    (hempty : (b.heap.get f).content = []) (bytes : List Byte) :
    ((b.pushBack f).writeTo f bytes).content =
      b.content ++ bytes.take (b.heap.get f).getFree := by
  have hpush : (b.pushBack f).content = b.content := by
    show gather b.heap (b.fragmentations ++ [f]) = gather b.heap b.fragmentations
    rw [gather_append, gather_cons, hempty]
    simp
  rw [content_writeTo_last (wf_pushBack h hf) rfl, hpush]
  rfl

theorem Detached.writeTo {b : Buffer} {f : Ref} (hf : b.Detached f) (g : Ref)
    (bytes : List Byte) : (b.writeTo g bytes).Detached f where
  valid := by
    show f < (b.heap.set g _).size
    rw [Store.size_set]
    exact hf.valid
  notMem := hf.notMem
  notCache := hf.notCache

theorem tailFree_of_last {b : Buffer} {fs : List Ref} {f : Ref}
    (h : b.fragmentations = fs ++ [f]) : b.tailFree = (b.heap.get f).getFree := by
  rw [tailFree, h, List.getLast?_concat]

theorem request_of_last {b : Buffer} {fs : List Ref} {f : Ref}
    (h : b.fragmentations = fs ++ [f]) (n : Nat) :
    b.request n = b.newCapacity (subSize n (b.heap.get f).getFree) := by
  rw [request, h, List.getLast?_concat]

theorem tailFree_of_nil {b : Buffer} (h : b.fragmentations = []) : b.tailFree = 0 := by
  rw [tailFree, h]
  rfl

theorem request_of_nil {b : Buffer} (h : b.fragmentations = []) (n : Nat) :
    b.request n = n := by
  rw [request, h]
  rfl

/-- The ways through `write` of some bytes. -/
inductive WriteCases (b : Buffer) (bytes : List Byte) (faults : WriteFaults) :
    Nat × Buffer → Prop
  /-- The last fragment takes all. -/
  | fits {fs : List Ref} {f0 : Ref} : b.fragmentations = fs ++ [f0] →
      bytes.length ≤ (b.heap.get f0).getFree →
      WriteCases b bytes faults (bytes.length, b.writeTo f0 bytes)
  /-- There is no new fragment, or no list node for it. -/
  | stops {r : Option Ref} {b' : Buffer} : b.tailFree < bytes.length →
      b.createFragmentation (b.request bytes.length) faults = (r, b') →
      r = none ∨ faults.node = true → WriteCases b bytes faults (0, b')
  | first {f : Ref} {b' : Buffer} : b.fragmentations = [] →
      b.createFragmentation (b.request bytes.length) faults = (some f, b') →
      faults.node = false →
      WriteCases b bytes faults (bytes.length, (b'.pushBack f).writeTo f bytes)
  | more {fs : List Ref} {f0 f : Ref} {b' : Buffer} : b.fragmentations = fs ++ [f0] →
      (b.heap.get f0).getFree < bytes.length →
      b.createFragmentation (b.request bytes.length) faults = (some f, b') →
      faults.node = false →
      WriteCases b bytes faults (bytes.length,
        ((b'.pushBack f).writeTo f0 (bytes.take (b.heap.get f0).getFree)).writeTo f
          (bytes.drop (b.heap.get f0).getFree))

theorem write_cases (b : Buffer) {bytes : List Byte} (hn : bytes ≠ [])
    (faults : WriteFaults) : WriteCases b bytes faults (b.write bytes faults) := by
  have hpos : 0 < bytes.length := List.length_pos_of_ne_nil hn
  rw [write, if_neg (by omega)]
  cases hlast : b.fragmentations.getLast? with
  | none =>
    have hfs := List.getLast?_eq_none_iff.mp hlast
    have hfree : b.tailFree < bytes.length := by rwa [tailFree_of_nil hfs]
    have hreq := request_of_nil hfs bytes.length
    dsimp only
    rcases hcreate : b.createFragmentation bytes.length faults with ⟨_ | f, b'⟩
    · exact .stops hfree (by rw [hreq]; exact hcreate) (.inl rfl)
    · dsimp only
      split
      · rename_i hnode
        exact .stops hfree (by rw [hreq]; exact hcreate) (.inr hnode)
      · rename_i hnode
        exact .first hfs (by rw [hreq]; exact hcreate) (by simpa using hnode)
  | some f0 =>
    obtain ⟨fs, hfs⟩ := List.getLast?_eq_some_iff.mp hlast
    dsimp only
    split
    · rename_i hfit
      exact .fits hfs hfit
    · rename_i hmore
      have hfree : b.tailFree < bytes.length := by
        rw [tailFree_of_last hfs]
        omega
      rw [← request_of_last hfs]
      rcases hcreate : b.createFragmentation (b.request bytes.length) faults with ⟨_ | f, b'⟩
      · exact .stops hfree hcreate (.inl rfl)
      · dsimp only
        split
        · rename_i hnode
          exact .stops hfree hcreate (.inr hnode)
        · rename_i hnode
          exact .more hfs (by omega) hcreate (by simpa using hnode)

theorem le_request (b : Buffer) {n : Nat} (h : b.tailFree < n) :
    n - b.tailFree ≤ b.request n := by
  rcases List.eq_nil_or_concat' b.fragmentations with hfs | ⟨fs, f, hfs⟩
  · rw [request_of_nil hfs]
    exact Nat.sub_le _ _
  · rw [tailFree_of_last hfs] at h ⊢
    rw [request_of_last hfs, subSize_of_le (Nat.le_of_lt h)]
    exact le_newCapacity b _

/-- A new fragment with `room` free bytes gets what the last one cannot take. -/
theorem written_of_room {b b' : Buffer} {bytes : List Byte} {faults : WriteFaults} {room : Nat}
    (hwf : b'.WF) (hfree : b.tailFree < bytes.length)
    (hcont : b'.content =
      b.content ++ bytes.take b.tailFree ++ (bytes.drop b.tailFree).take room)
    (hlost : b.LosesArray bytes.length faults → room = 0)
    (hfits : ¬ b.LosesArray bytes.length faults → b.request bytes.length ≤ room) :
    Written b bytes faults (bytes.length, b') := by
  by_cases hlose : b.LosesArray bytes.length faults
  · refine .part hwf hlose ?_
    rw [hcont, hlost hlose, List.take_zero, List.append_nil]
  · have hreq := b.le_request hfree
    have hroom := hfits hlose
    have hall : (bytes.drop b.tailFree).take room = bytes.drop b.tailFree :=
      List.take_of_length_le (by rw [List.length_drop]; omega)
    refine .all hwf hlose ?_
    rw [hcont, hall, List.append_assoc, List.take_append_drop]

/-- The specification of `write`, whatever the allocations do. -/
theorem write_spec {b : Buffer} (h : b.WF) {bytes : List Byte} (hn : bytes ≠ [])
    (faults : WriteFaults) : Written b bytes faults (b.write bytes faults) := by
  have hcases := b.write_cases hn faults
  have hcr := createFragmentation_created h (b.request bytes.length) faults
  generalize b.write bytes faults = r at hcases
  cases hcases with
  | @fits fs f0 hfs hfit =>
    refine .all (wf_writeTo h f0 bytes) (fun hlose => ?_) ?_
    · have hfree := hlose.1
      rw [tailFree_of_last hfs] at hfree
      omega
    · rw [content_writeTo_last h hfs, List.take_of_length_le hfit]
  | stops hfree hcreate hwhy =>
    rw [hcreate] at hcr
    cases hcr with
    | failed _ hobj => exact .nothing h (not_loses_of_object hobj) (.inl hobj) rfl
    | made hwf _ hfs hframe =>
      have hnode : faults.node = true := hwhy.resolve_left (Option.some_ne_none _)
      exact .nothing hwf (not_loses_of_node hnode) (.inr hnode) (content_congr hfs hframe)
  | @first f b' hnil hcreate hnode =>
    rw [hcreate] at hcr
    cases hcr with
    | made hwf hdet hfs hframe hempty hobj hlost hfits =>
      have hfree : b.tailFree < bytes.length := by
        rw [tailFree_of_nil hnil]
        exact List.length_pos_of_ne_nil hn
      refine written_of_room (wf_writeTo (wf_pushBack hwf hdet) f bytes) hfree ?_
        (fun hlose => hlost hlose.2.1 hlose.2.2.2.1)
        fun hlose => hfits (reuses_or_array hlose hfree hobj hnode)
      rw [content_append_fragment hwf hdet hempty, content_congr hfs hframe,
        tailFree_of_nil hnil, List.take_zero, List.append_nil, List.drop_zero]
  | @more fs f0 f b' hlast hmore hcreate hnode =>
    rw [hcreate] at hcr
    cases hcr with
    | made hwf hdet hfs hframe hempty hobj hlost hfits =>
      have hfree := tailFree_of_last hlast
      rw [← hfree] at hmore ⊢
      have hne : f ≠ f0 := fun hff => hdet.notMem (by rw [hfs, hlast, hff]; simp)
      have hf0 : b'.heap.get f0 = b.heap.get f0 := hframe f0 (by rw [hlast]; simp)
      -- filling the last fragment commutes with appending the new one
      have hwf1 := wf_writeTo hwf f0 (bytes.take b.tailFree)
      have hdet1 := hdet.writeTo f0 (bytes.take b.tailFree)
      have hnew : (b'.writeTo f0 (bytes.take b.tailFree)).heap.get f = b'.heap.get f :=
        Store.get_set_ne hne _
      have hcont1 : (b'.writeTo f0 (bytes.take b.tailFree)).content =
          b.content ++ bytes.take b.tailFree := by
        rw [content_writeTo_last hwf (hfs.trans hlast), content_congr hfs hframe, hf0, ← hfree,
          List.take_take, Nat.min_self]
      have hcont := content_append_fragment hwf1 hdet1 (by rw [hnew]; exact hempty)
        (bytes.drop b.tailFree)
      rw [hcont1, hnew] at hcont
      exact written_of_room (wf_writeTo (wf_pushBack hwf1 hdet1) f (bytes.drop b.tailFree)) hmore
        hcont (fun hlose => hlost hlose.2.1 hlose.2.2.2.1)
        fun hlose => hfits (reuses_or_array hlose hmore hobj hnode)

/-- A buffer with a fragment more is another one. -/
theorem ne_of_longer {b b' : Buffer} {f : Ref} (hfs : b'.fragmentations = b.fragmentations ++ [f]) :
    b' ≠ b := by
  rintro rfl
  have hlen := congrArg List.length hfs
  rw [List.length_append] at hlen
  exact absurd hlen (by simp)

theorem write_nil (b : Buffer) (faults : WriteFaults) : b.write [] faults = (0, b) :=
  if_pos rfl

/-- A write that tells that it wrote something has changed the buffer. -/
theorem write_ne_self {b : Buffer} (h : b.WF) {bytes : List Byte} (hn : bytes ≠ [])
    {faults : WriteFaults} (hall : (b.write bytes faults).1 = bytes.length) :
    (b.write bytes faults).2 ≠ b := by
  have hpos : 0 < bytes.length := List.length_pos_of_ne_nil hn
  have hcases := b.write_cases hn faults
  have hcr := createFragmentation_created h (b.request bytes.length) faults
  generalize b.write bytes faults = r at hcases hall
  cases hcases with
  | @fits fs f0 hfs hfit =>
    intro heq
    have hcont := content_writeTo_last h hfs bytes
    have heq' : b.writeTo f0 bytes = b := heq
    rw [heq', List.take_of_length_le hfit, List.self_eq_append_right] at hcont
    exact hn hcont
  | stops => exact absurd hall (Nat.ne_of_lt hpos)
  | @first f b' _ hcreate =>
    rw [hcreate] at hcr
    exact ne_of_longer (f := f) (congrArg (· ++ [f]) hcr.fragmentations)
  | @more fs f0 f b' _ _ hcreate =>
    rw [hcreate] at hcr
    exact ne_of_longer (f := f) (congrArg (· ++ [f]) hcr.fragmentations)

/-- `write` keeps a buffer well-formed. -/
theorem wf_write {b : Buffer} (h : b.WF) (bytes : List Byte) (faults : WriteFaults) :
    (b.write bytes faults).2.WF := by
  by_cases hn : bytes = []
  · rw [hn, write_nil]
    exact h
  · have hw := write_spec h hn faults
    generalize b.write bytes faults = r at hw
    cases hw with
    | all hwf => exact hwf
    | nothing hwf => exact hwf
    | part hwf => exact hwf

/-- `write` when every allocation succeeds. -/
theorem write_none {b : Buffer} (h : b.WF) (bytes : List Byte) :
    (b.write bytes .none).1 = bytes.length ∧
      (b.write bytes .none).2.content = b.content ++ bytes := by
  by_cases hn : bytes = []
  · rw [hn, write_nil]
    exact ⟨rfl, (List.append_nil _).symm⟩
  · have hw := write_spec h hn .none
    generalize b.write bytes .none = r at hw
    cases hw with
    | all _ _ hcont => exact ⟨rfl, hcont⟩
    | nothing _ _ hfault _ => rcases hfault with hf | hf <;> cases hf
    | part _ hlose _ => cases hlose.2.2.2.1

/-! ## `copy_to` -/

/-- One turn of a loop of `copy_to` that copies from `c`, and `rest` being what the other
fragments have. -/
theorem copy_turn (c rest : List Byte) (n : Nat) :
    (if n - (c.take n).length < 1 then ((c.take n).length, c.take n)
      else ((c.take n).length + (rest.take (n - (c.take n).length)).length,
        c.take n ++ rest.take (n - (c.take n).length))) =
      (((c ++ rest).take n).length, (c ++ rest).take n) := by
  have hmin : (c.take n).length = min n c.length := List.length_take
  rw [List.take_append]
  split
  · rw [show n - c.length = 0 by omega, List.take_zero, List.append_nil]
  · rw [show n - (c.take n).length = n - c.length by omega, List.length_append]

theorem copyToLoop_eq (heap : Store Fragmentation) (fs : List Ref) (n : Nat) :
    copyToLoop heap fs n = (((gather heap fs).take n).length, (gather heap fs).take n) := by
  induction fs generalizing n with
  | nil => simp [copyToLoop]
  | cons f fs ih =>
    rw [copyToLoop, Fragmentation.copyTo_eq]
    dsimp only
    rw [ih, gather_cons]
    exact copy_turn _ _ n

/-- `copy_to` hands out the first bytes. -/
theorem copyTo_eq (b : Buffer) (n : Nat) :
    b.copyTo n = ((b.content.take n).length, b.content.take n) :=
  copyToLoop_eq b.heap b.fragmentations n

/-! ## `read` -/

/-- What the loop that drops drained fragments keeps. -/
theorem popDrained_spec (heap : Store Fragmentation) (fs : List Ref) (cache : Option Ref) :
    (popDrained heap fs cache).1 <:+ fs ∧
      gather heap (popDrained heap fs cache).1 = gather heap fs ∧
      (∀ f, (popDrained heap fs cache).1.head? = some f → 0 < (heap.get f).size) ∧
      ((popDrained heap fs cache).2 = cache ∨
        ∃ f, (popDrained heap fs cache).2 = some f ∧ f ∈ fs ∧
          (fs.Nodup → f ∉ (popDrained heap fs cache).1)) := by
  induction fs generalizing cache with
  | nil => exact ⟨List.suffix_rfl, rfl, (fun f h => by cases h), .inl rfl⟩
  | cons f fs ih =>
    rw [popDrained]
    by_cases hsize : (heap.get f).size < 1
    · rw [if_pos hsize]
      obtain ⟨hsuf, hgather, hhead, hcache⟩ := ih (cacheFragmentation heap cache f)
      have hcontent : (heap.get f).content = [] := by
        rw [← List.length_eq_zero_iff, Fragmentation.length_content]
        omega
      refine ⟨hsuf.trans (List.suffix_cons f fs), ?_, hhead, ?_⟩
      · rw [gather_cons, hcontent, List.nil_append, hgather]
      · -- the cache is the old one, or one of the fragments taken off
        have hoffer : cacheFragmentation heap cache f = cache ∨
            cacheFragmentation heap cache f = some f := by
          unfold cacheFragmentation
          split
          · exact .inr rfl
          · split
            · exact .inr rfl
            · exact .inl rfl
        rcases hcache with hcache | ⟨g, hg, hmem, hnot⟩
        · rcases hoffer with hoffer | hoffer
          · exact .inl (hcache.trans hoffer)
          · refine .inr ⟨f, hcache.trans hoffer, List.mem_cons_self .., fun hnd hmem => ?_⟩
            exact (List.nodup_cons.mp hnd).1 (hsuf.subset hmem)
        · exact .inr ⟨g, hg, List.mem_cons_of_mem _ hmem,
            fun hnd => hnot (List.nodup_cons.mp hnd).2⟩
    · rw [if_neg hsize]
      refine ⟨List.suffix_rfl, rfl, fun g hg => ?_, .inl rfl⟩
      cases hg
      omega

theorem removeNoReadFragmentation_spec {b : Buffer} (h : b.WF) :
    b.removeNoReadFragmentation.WF ∧ b.removeNoReadFragmentation.content = b.content := by
  obtain ⟨hsuf, hgather, -, hcache⟩ := popDrained_spec b.heap b.fragmentations b.cache
  refine ⟨⟨fun f hf => h.valid f (hsuf.subset hf), fun c hc => ?_,
    h.nodup.sublist hsuf.sublist, fun c hc => ?_⟩, hgather⟩
  · have hc' : (popDrained b.heap b.fragmentations b.cache).2 = some c := hc
    rcases hcache with hcache | ⟨f, hf, hmem, -⟩
    · exact h.cacheValid c (hcache ▸ hc')
    · rw [hf] at hc'
      cases hc'
      exact h.valid c hmem
  · have hc' : (popDrained b.heap b.fragmentations b.cache).2 = some c := hc
    rcases hcache with hcache | ⟨f, hf, hmem, hnot⟩
    · exact fun hmem => h.cacheFresh c (hcache ▸ hc') (hsuf.subset hmem)
    · rw [hf] at hc'
      cases hc'
      exact hnot h.nodup

/-- The loop of `read` ends when there is nothing to read. -/
theorem readLoop_empty {b : Buffer} {n : Nat}
    (hfs : b.removeNoReadFragmentation.fragmentations = []) (hn : n ≠ 0) (fuel : Nat) :
    readLoop (fuel + 1) b n = (0, [], b.removeNoReadFragmentation) := by
  rw [readLoop, if_neg hn, getReadFragmentation, hfs]
  rfl

/-- One turn of the loop of `read`: it drains the first fragment that has
readable bytes, and `r` is what the other turns do. -/
theorem readLoop_turn {b : Buffer} {f : Ref} {fs : List Ref} {fuel n : Nat}
    {r : Nat × List Byte × Buffer}
    (hfs : b.removeNoReadFragmentation.fragmentations = f :: fs) (hn : n ≠ 0)
    (hr : readLoop fuel (b.removeNoReadFragmentation.setFragment f ((b.heap.get f).read n).2.2)
      (n - ((b.heap.get f).read n).1) = r) :
    readLoop (fuel + 1) b n =
      (((b.heap.get f).read n).1 + r.1, ((b.heap.get f).read n).2.1 ++ r.2.1, r.2.2) := by
  rw [readLoop, if_neg hn, getReadFragmentation, hfs, ← hr]
  rfl

/-- The first fragment with readable bytes has some. -/
theorem size_pos_of_head {b : Buffer} {f : Ref} {fs : List Ref}
    (hfs : b.removeNoReadFragmentation.fragmentations = f :: fs) :
    0 < (b.heap.get f).size := by
  refine (popDrained_spec b.heap b.fragmentations b.cache).2.2.1 f ?_
  show b.removeNoReadFragmentation.fragmentations.head? = some f
  rw [hfs]
  rfl

/-- The rule of the loop of `read`, with turns enough: what holds of no turn, and is
kept by one more turn, holds of the loop. -/
theorem readLoop_induction {P : Buffer → Nat → Nat × List Byte × Buffer → Prop}
    (done : ∀ b, P b 0 (0, [], b))
    (empty : ∀ b n, n ≠ 0 → b.removeNoReadFragmentation.fragmentations = [] →
      P b n (0, [], b.removeNoReadFragmentation))
    (turn : ∀ b f fs n r, n ≠ 0 → b.removeNoReadFragmentation.fragmentations = f :: fs →
      P (b.removeNoReadFragmentation.setFragment f ((b.heap.get f).read n).2.2)
        (n - ((b.heap.get f).read n).1) r →
      P b n (((b.heap.get f).read n).1 + r.1, ((b.heap.get f).read n).2.1 ++ r.2.1, r.2.2))
    {fuel n : Nat} (b : Buffer) (hn : n ≤ fuel) : P b n (readLoop fuel b n) := by
  induction fuel generalizing b n with
  | zero =>
    rw [Nat.le_zero.mp hn]
    exact done b
  | succ fuel ih =>
    by_cases hzero : n = 0
    · subst hzero
      exact done b
    · cases hfs : b.removeNoReadFragmentation.fragmentations with
      | nil =>
        rw [readLoop_empty hfs hzero]
        exact empty b n hzero hfs
      | cons f fs =>
        have hsize := size_pos_of_head hfs
        have hcount : ((b.heap.get f).read n).1 = min n (b.heap.get f).size :=
          (b.heap.get f).available_eq n
        rw [readLoop_turn hfs hzero rfl]
        exact turn b f fs n _ hzero hfs (ih _ (by omega))

/-- The loop of `read`, with turns enough. -/
theorem readLoop_spec {b : Buffer} (h : b.WF) {fuel n : Nat} (hn : n ≤ fuel) :
    (readLoop fuel b n).1 = (b.content.take n).length ∧
      (readLoop fuel b n).2.1 = b.content.take n ∧
      (readLoop fuel b n).2.2.WF ∧ (readLoop fuel b n).2.2.content = b.content.drop n := by
  refine readLoop_induction (P := fun b n r => b.WF → r.1 = (b.content.take n).length ∧
    r.2.1 = b.content.take n ∧ r.2.2.WF ∧ r.2.2.content = b.content.drop n) ?_ ?_ ?_ b hn h
  · exact fun b h => ⟨rfl, rfl, h, rfl⟩
  · intro b n _ hfs h
    obtain ⟨hwf, hcont⟩ := removeNoReadFragmentation_spec h
    have hnil : b.content = [] := by
      rw [← hcont, content, hfs]
      rfl
    rw [hnil, List.take_nil, List.drop_nil]
    exact ⟨rfl, rfl, hwf, hcont.trans hnil⟩
  · intro b f fs n r _ hfs ih h
    obtain ⟨hwf, hcont⟩ := removeNoReadFragmentation_spec h
    have hsplit : b.content = (b.heap.get f).content ++ gather b.heap fs := by
      rw [← hcont, content, hfs]
      rfl
    obtain ⟨hcount, hbytes, hrest⟩ := (b.heap.get f).read_eq n
    have hval : f < b.heap.size := hwf.valid f (by rw [hfs]; exact List.mem_cons_self ..)
    have hnd := hwf.nodup
    rw [hfs, List.nodup_cons] at hnd
    -- the buffer after this turn has lost what the turn handed out
    have hcont' : (b.removeNoReadFragmentation.setFragment f
        ((b.heap.get f).read n).2.2).content =
        (b.heap.get f).content.drop n ++ gather b.heap fs := by
      show gather (b.heap.set f ((b.heap.get f).read n).2.2)
        b.removeNoReadFragmentation.fragmentations = _
      rw [hfs, gather_cons, Store.get_set_self hval, gather_set hnd.1, hrest]
    obtain ⟨ih1, ih2, ih3, ih4⟩ := ih (wf_setFragment hwf f _)
    rw [hcont', hcount] at ih1 ih2 ih4
    have htake := take_two_turns (b.heap.get f).content (gather b.heap fs) n
    have hdrop := drop_two_turns (b.heap.get f).content (gather b.heap fs) n
    rw [← hsplit] at htake hdrop
    refine ⟨?_, ?_, ih3, ih4.trans hdrop⟩
    · rw [← htake, List.length_append, hcount, ih1]
    · rw [← htake, hbytes, ih2]

/-- The loop of `read` ends within as many turns as bytes are asked for: more
turns change nothing, since each hands out at least one byte. -/
theorem readLoop_fuel {fuel fuel' n : Nat} (b : Buffer) (hn : n ≤ fuel) (hn' : n ≤ fuel') :
    readLoop fuel b n = readLoop fuel' b n := by
  refine readLoop_induction (P := fun b n r => ∀ fuel', n ≤ fuel' → r = readLoop fuel' b n)
    ?_ ?_ ?_ b hn fuel' hn'
  · intro b fuel' _
    cases fuel' <;> rfl
  · intro b n hzero hfs fuel' hn'
    obtain ⟨fuel', rfl⟩ := Nat.exists_eq_succ_of_ne_zero (by omega : fuel' ≠ 0)
    rw [readLoop_empty hfs hzero]
  · intro b f fs n r hzero hfs ih fuel' hn'
    obtain ⟨fuel', rfl⟩ := Nat.exists_eq_succ_of_ne_zero (by omega : fuel' ≠ 0)
    have hsize := size_pos_of_head hfs
    have hcount : ((b.heap.get f).read n).1 = min n (b.heap.get f).size :=
      (b.heap.get f).available_eq n
    rw [readLoop_turn hfs hzero (ih fuel' (by omega)).symm]

/-- The specification of `read`. -/
theorem read_spec {b : Buffer} (h : b.WF) (n : Nat) :
    (b.read n).1 = (b.content.take n).length ∧ (b.read n).2.1 = b.content.take n ∧
      (b.read n).2.2.WF ∧ (b.read n).2.2.content = b.content.drop n := by
  obtain ⟨h1, h2, h3, h4⟩ := readLoop_spec h (Nat.le_refl n)
  obtain ⟨hwf, hcont⟩ := removeNoReadFragmentation_spec h3
  exact ⟨h1, h2, hwf, hcont.trans h4⟩

end Buffer

end KgCpp.Bytes
