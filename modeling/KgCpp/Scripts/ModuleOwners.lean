import KgCpp.Scripts.ModuleTable

/-!
# Who frees the loaders

A program calls `init` and `register_loader`, and destroys its heap in the end. A
loader is owned by its entry: it is freed when the entry is replaced, or by the
finalizer of the table (`Owning`). The finalizer looks for its table under the global
variable, so it frees the loaders as long as its table is there. When `init` is
called again, it is not: the old finalizer deletes the new table (`setUp_throws`).
-/

namespace KgCpp.Scripts.Module

open Lib

/-- A call of a program. -/
inductive Call where
  | init (js : LoaderPtr) (c : Option LoaderPtr)
  | register (loader : LoaderPtr) (fft : Ptr)

namespace Call

/-- Run a call. -/
def run (H : Host) : Call → Action Fault World Bool
  | .init js c => Stack.call [] (Module.init H js.val (c.map Subtype.val))
  | .register loader fft => Stack.call [] (registerLoader H loader.val fft)

/-- The loaders that a call registers, each with the function that frees it. -/
def loaders (H : Host) : Call → List (Ptr × Ptr)
  | .init js c => (H.jsDestory, js.val) :: c.toList.map fun c => (H.cDestory, c.val)
  | .register loader fft => [(fft, loader.val)]

/-- The loader that a call registers last. -/
def last : Call → Ptr
  | .init js c => (c.getD js).val
  | .register loader _ => loader.val

end Call

/-- `_g_kg_modules[type].loader` is `l`. -/
def HasEntry (H : Host) (w : World) (type : Str) (l : Ptr) : Prop :=
  ∃ M E, w.get H.prototype World.global keyModules = some (.object M) ∧
    w.get H.prototype M type = some (.object E) ∧ w.get H.prototype E keyLoader = some (.pointer l)

/-- What is meant to hold when a call is completed: the loader it registered last is
reached through the table, and no loader that is was freed. -/
structure Completed (H : Host) (call : Call) (w : World) : Prop where
  reached : HasEntry H w (H.loader call.last).moduleType.val call.last
  alive : call.last ∉ w.freed.map Prod.snd
  entries : ∀ type l, HasEntry H w type l → l ∉ w.freed.map Prod.snd

/-- What is meant to hold of the calls that follow: each is completed, and when the
heap is destroyed then, each loader has been freed once, if it has a function for
that. -/
def Owned (H : Host) : List (Ptr × Ptr) → List Call → World → Prop
  | loaders, [], w => (destroyHeap H w).freed.Perm (loaders.filter fun p => p.1 ≠ 0)
  | loaders, call :: calls, w => ∃ b w', call.run H w = .ok b w' ∧ Completed H call w' ∧
      Owned H (loaders ++ call.loaders H) calls w'

variable {H : Host} {loaders : List (Ptr × Ptr)} {κ κ' : Layout} {M : Ref} {w w' : World}

/-! ## Owners -/

/-- The loader that an entry owns. -/
def owner (κ : Layout) (v : Value) : List (Ptr × Ptr) :=
  match v with
  | .object E =>
    match κ E with
    | .entry _ l f _ => [(f, l)]
    | _ => []
  | _ => []

theorem owner_entry {E : Ref} {type : Str} {l f : Ptr} {L : Ref} (hrole : κ E = .entry type l f L) :
    owner κ (.object E) = [(f, l)] := by
  rw [owner, hrole]

/-- The loaders that the table owns. -/
def owners (κ : Layout) (M : Ref) (w : World) : List (Ptr × Ptr) :=
  (w.heap.get M).props.flatMap fun p => owner κ p.2

/-- The owner of an entry is freed with it, when there is a function for that. -/
theorem replaced_entry {E : Ref} {type : Str} {l f : Ptr} {L : Ref}
    (hrole : κ E = .entry type l f L) :
    replaced κ (some (.object E)) = (owner κ (.object E)).filter fun p => p.1 ≠ 0 := by
  rw [replaced, owner_entry hrole, hrole]
  by_cases hf : f = 0
  · rw [List.filter_cons_of_neg (by simp [hf])]
    exact if_pos hf
  · rw [List.filter_cons_of_pos (by simp [hf])]
    exact if_neg hf

/-- The loaders registered so far are those that the table owns, and those whose
entries were replaced: these are freed. -/
structure Owning (H : Host) (loaders : List (Ptr × Ptr)) (κ : Layout) (M : Ref) (w : World) :
    Prop where
  shaped : Shaped κ M w
  strings : ∀ type ∈ (w.heap.get M).props.map Prod.fst, isSymbol type = false
  finalizer : ∀ r, (w.heap.get r).finalizer.isSome = true ↔ r = M
  pending : w.pending = []
  finalized : w.finalized = []
  owners : ∃ gone, w.freed = gone.filter (fun p => p.1 ≠ 0) ∧
    (gone ++ owners κ M w).Perm loaders

theorem owning_newTable (H : Host) (env : Str → Option Str) :
    Owning H [] newLayout 1 (newTable env) where
  shaped := .newTable env
  strings _ htype := absurd htype List.not_mem_nil
  finalizer
    | 0 => iff_of_false Bool.false_ne_true Nat.zero_ne_one
    | 1 => iff_of_true rfl rfl
    | r + 2 => iff_of_false Bool.false_ne_true fun heq => by cases heq
  pending := rfl
  finalized := rfl
  owners := ⟨[], rfl, .refl _⟩

/-! ## Registering -/

/-- The table owns the new loader, and no longer the one that is replaced. -/
theorem owners_registered (h : Shaped κ M w) (type : Str) (l f : Ptr) :
    ((w.own M type).elim [] (owner κ) ++
      owners (registeredLayout κ w type l f) M (registered κ M w type l f)).Perm
        (owners κ M w ++ [(f, l)]) := by
  have htable := (get_registered h type l f).1
  have hgrows := grows_registered κ M w type l f
  have hnew : owner (registeredLayout κ w type l f) (.object w.heap.size) = [(f, l)] :=
    owner_entry (registeredLayout_entry ..)
  have hsame : ∀ p ∈ (w.heap.get M).props,
      owner (registeredLayout κ w type l f) p.2 = owner κ p.2 := by
    intro p hp
    obtain ⟨E, l', f', L, hv, hE, hrole⟩ := h.entry_of_mem hp
    rw [hv, owner_entry hrole, owner_entry ((hgrows.role E hE).trans hrole)]
  have hold : (w.own M type).elim [] (owner κ) =
      (w.own M type).elim [] (owner (registeredLayout κ w type l f)) := by
    cases hown : w.own M type with
    | none => rfl
    | some v => exact (hsame (type, v) (Assoc.mem_of_find? hown)).symm
  rw [owners, owners, htable, hold, ← List.flatMap_congr hsame, ← hnew]
  exact Assoc.perm_flatMap_insert (fun p => owner (registeredLayout κ w type l f) p.2) ..

theorem replaced_own (h : Shaped κ M w) (type : Str) :
    replaced κ (w.own M type) =
      ((w.own M type).elim [] (owner κ)).filter fun p => p.1 ≠ 0 := by
  cases hown : w.own M type with
  | none => rfl
  | some v =>
    obtain ⟨E, l, f, L, rfl, -, hrole⟩ := h.entry_of_own hown
    exact replaced_entry hrole

/-- No object but the table has a finalizer. -/
theorem finalizer_registered (h : Owning H loaders κ M w) (type : Str) (l f : Ptr) (r : Ref) :
    ((registered κ M w type l f).heap.get r).finalizer.isSome = true ↔ r = M := by
  obtain ⟨htable, hother⟩ := get_registered h.shaped type l f
  by_cases hr : r = M
  · rw [hr, htable]
    exact h.finalizer M
  rw [hother r hr]
  rcases Nat.lt_trichotomy r w.heap.size with hlt | rfl | hgt
  · rw [get_entryHeap_old hlt]
    exact h.finalizer r
  · rw [get_entryHeap_entry]
    exact iff_of_false Bool.false_ne_true hr
  · rw [get_entryHeap_new hgt]
    exact iff_of_false Bool.false_ne_true hr

/-- A loader is registered: it is reached through the table. -/
theorem Owning.register (h : Owning H loaders κ M w) (l : LoaderPtr) (f : Ptr)
    (hproto : (H.loader l.val).moduleType.val ≠ text "__proto__")
    (hsymbol : isSymbol (H.loader l.val).moduleType.val = false) :
    ∃ κ' w', Module.register H l.val f w = .ok () w' ∧
      Owning H (loaders ++ [(f, l.val)]) κ' M w' ∧
      HasEntry H w' (H.loader l.val).moduleType.val l.val := by
  generalize htype : (H.loader l.val).moduleType.val = type at hproto hsymbol
  obtain ⟨htable, -⟩ := get_registered h.shaped type l.val f
  have hshaped := h.shaped.registered type l.property f
  obtain ⟨gone, hfreed, hperm⟩ := h.owners
  have hregister := register_eq h.shaped (f := f) (htype ▸ hproto)
  rw [htype] at hregister
  refine ⟨_, _, hregister, ⟨hshaped, fun t ht => ?_, finalizer_registered h type l.val f, h.pending,
    h.finalized, gone ++ (w.own M type).elim [] (owner κ), ?_, ?_⟩, M, w.heap.size, ?_, ?_, ?_⟩
  · rw [htable] at ht
    rcases (Assoc.mem_map_fst_insert ..).mp ht with rfl | ht
    · exact hsymbol
    · exact h.strings t ht
  · rw [List.filter_append, ← hfreed, ← replaced_own h.shaped type]
    rfl
  · rw [List.append_assoc]
    refine ((owners_registered h.shaped type l.val f).append_left gone).trans ?_
    rw [← List.append_assoc]
    exact hperm.append_right _
  · rw [hshaped.get _ (H.free (by simp)), hshaped.modules]
  · refine World.get_of_own ?_
    rw [World.own, htable]
    exact Assoc.find?_insert_self ..
  · have hsize : w.heap.size < (registered κ M w type l.val f).heap.size := by
      rw [size_registered]
      omega
    rw [hshaped.get _ (H.free (by simp))]
    exact (hshaped.own_entry hsize (registeredLayout_entry ..)).1

/-- No loader that is reached through the table was freed. -/
theorem Owning.entries (h : Owning H loaders κ M w) (hnodup : (loaders.map Prod.snd).Nodup)
    {type : Str} {l : Ptr} (hentry : HasEntry H w type l) : l ∉ w.freed.map Prod.snd := by
  obtain ⟨M', E, hM, hE, hl⟩ := hentry
  rw [h.shaped.get _ (H.free (by simp)), h.shaped.modules] at hM
  cases hM
  cases hown : w.own M type with
  | none =>
    by_cases hhas : H.prototype.has type = true
    · obtain ⟨s, hs⟩ := World.get_of_has (h.shaped.proto M) hown hhas
      rw [hs] at hE
      cases hE
    · rw [h.shaped.get M (by simpa using hhas), hown] at hE
      cases hE
  | some v =>
    obtain ⟨E', l', f, L, rfl, hlt, hrole⟩ := h.shaped.entry_of_own hown
    rw [World.get_of_own hown] at hE
    cases hE
    rw [h.shaped.get _ (H.free (by simp)), (h.shaped.own_entry hlt hrole).1] at hl
    cases hl
    have howned : (f, l) ∈ Module.owners κ M w := by
      refine List.mem_flatMap.mpr ⟨_, Assoc.mem_of_find? hown, ?_⟩
      rw [owner_entry hrole]
      exact List.mem_singleton_self _
    obtain ⟨gone, hfreed, hperm⟩ := h.owners
    have hboth := (hperm.map Prod.snd).nodup_iff.mpr hnodup
    rw [List.map_append] at hboth
    intro hin
    obtain ⟨p, hp, hl⟩ := List.mem_map.mp hin
    rw [hfreed] at hp
    exact (List.nodup_append.mp hboth).2.2 _ (List.mem_map_of_mem (List.mem_filter.mp hp).1) _
      (List.mem_map_of_mem howned) hl

/-! ## Finalizers -/

section Finalize

variable {r : Ref} {rest : List Ref} {n : Nat}

theorem finalize_of_nil (h : w.pending = []) (n : Nat) : finalize H n w = w := by
  cases n with
  | zero => rfl
  | succ n => rw [finalize, h]

theorem finalize_of_ok (hpending : w.pending = r :: rest)
    (h : destory H { w with pending := rest, finalized := w.finalized ++ [r] } = .ok () w') :
    finalize H (n + 1) w = finalize H n w' := by
  rw [finalize, hpending]
  dsimp only
  rw [nativeDestory_eq, bind_of_ok h]
  rfl

theorem finalize_of_error (hpending : w.pending = r :: rest) {e : Fault}
    (h : destory H { w with pending := rest, finalized := w.finalized ++ [r] } = .error e w') :
    finalize H (n + 1) w = finalize H n w' := by
  rw [finalize, hpending]
  dsimp only
  rw [nativeDestory_eq, bind_of_error h]

end Finalize

/-- The loaders of some entries are freed. -/
theorem freeEntries_eq (h : Shaped κ M w) (keys : List Str)
    (hkeys : ∀ key ∈ keys, key ∈ (w.heap.get M).props.map Prod.fst) :
    freeEntries H M keys w =
      .ok () { w with freed := w.freed ++ keys.flatMap fun key => replaced κ (w.own M key) } := by
  induction keys generalizing w with
  | nil =>
    rw [List.flatMap_nil, List.append_nil]
    rfl
  | cons key keys ih =>
    obtain ⟨E, l, f, L, hown, hE, hrole⟩ := h.entry_of_key (hkeys key (List.mem_cons_self ..))
    have hfree := freeEntry_eq (H := H) h hE hrole
    rw [← hown] at hfree
    rw [freeEntries, bind_of_ok (getProp_of_get (World.get_of_own hown))]
    have hshaped : Shaped κ M { w with freed := w.freed ++ replaced κ (w.own M key) } :=
      h.of_heap rfl
    have hrest := ih hshaped fun k hk => hkeys k (List.mem_cons_of_mem _ hk)
    rw [List.flatMap_cons, ← List.append_assoc]
    exact (bind_of_ok hfree _).trans hrest

/-- The table is finalized while it is there: its loaders are freed. -/
theorem destory_eq (h : Shaped κ M w) (hfinalized : M ∈ w.finalized) :
    ∃ w', destory H w = .ok () w' ∧ w'.pending = w.pending ∧
      w'.freed = w.freed ++ (enumOrder ((w.heap.get M).props.map Prod.fst)).flatMap
        fun key => replaced κ (w.own M key) := by
  have hkeys := freeEntries_eq (H := H) h (enumOrder ((w.heap.get M).props.map Prod.fst))
    fun key hk => mem_of_mem_enumOrder hk
  have hdelete : ∀ freed, delProp (.object World.global) keyModules { w with freed := freed } =
      .ok () { w with
        heap := w.heap.set World.global { w.heap.get World.global with
          props := Assoc.erase (w.heap.get World.global).props keyModules }
        freed := freed } := by
    intro freed
    have hown : World.own { w with freed := freed } World.global keyModules = some (.object M) :=
      h.modules
    unfold delProp
    dsimp only
    rw [hown]
    refine congrArg (EStateM.Result.ok ()) (if_neg ?_)
    rintro ⟨-, -, hnot⟩
    exact hnot (List.mem_append_right _ hfinalized)
  rw [destory, bind_of_ok h.getProp_modules]
  exact ⟨_, (bind_of_ok rfl _).trans ((bind_of_ok hkeys _).trans (hdelete _)), rfl, rfl⟩

/-- What the finalizer frees is what the table owns. -/
theorem perm_freed (h : Owning H loaders κ M w) :
    ((enumOrder ((w.heap.get M).props.map Prod.fst)).flatMap
      fun key => replaced κ (w.own M key)).Perm
        ((owners κ M w).filter fun p => p.1 ≠ 0) := by
  have hkeys : (enumOrder ((w.heap.get M).props.map Prod.fst)).Perm
      ((w.heap.get M).props.map Prod.fst) := by
    have hall := perm_enumOrder ((w.heap.get M).props.map Prod.fst)
    rwa [List.filter_eq_self.mpr fun key hk => by simp [h.strings key hk]] at hall
  refine (hkeys.flatMap_right _).trans (.of_eq ?_)
  rw [List.flatMap_map, owners, List.filter_flatMap]
  refine List.flatMap_congr fun p hp => ?_
  obtain ⟨E, l, f, L, hv, -, hrole⟩ := h.shaped.entry_of_mem hp
  have hown : w.own M p.1 = some p.2 := Assoc.find?_of_mem h.shaped.table_nodup hp
  rw [hown, hv]
  exact replaced_entry hrole

/-- The heap is destroyed: each loader is freed once. -/
theorem Owning.destroyHeap (h : Owning H loaders κ M w) :
    (destroyHeap H w).freed.Perm (loaders.filter fun p => p.1 ≠ 0) := by
  have honly : ((List.range w.heap.size).filter fun r =>
      (w.heap.get r).finalizer.isSome ∧ r ∉ w.finalized) = [M] := by
    have hsame : (fun r => decide ((w.heap.get r).finalizer.isSome = true ∧ r ∉ w.finalized)) =
        fun r => r == M := by
      funext r
      rw [h.finalized, Bool.eq_iff_iff]
      simp [h.finalizer r]
    rw [hsame, List.filter_beq, List.count_eq_one_of_mem List.nodup_range
      (List.mem_range.mpr h.shaped.table.1)]
    rfl
  obtain ⟨n, hn⟩ := Nat.exists_eq_add_one_of_ne_zero (Nat.ne_of_gt h.shaped.globals.1)
  have hshaped : Shaped κ M { w with pending := [], finalized := w.finalized ++ [M] } :=
    h.shaped.of_heap rfl
  obtain ⟨w', hdestory, hpending, hfreed⟩ := destory_eq (H := H) hshaped
    (List.mem_append_right _ (List.mem_singleton_self M))
  have hfinalize : finalize H (n + 1) { w with pending := [M] } = finalize H n w' :=
    finalize_of_ok rfl hdestory
  obtain ⟨gone, hgone, hperm⟩ := h.owners
  have hall := hperm.filter fun p => p.1 ≠ 0
  rw [List.filter_append, ← hgone] at hall
  rw [Module.destroyHeap, honly, hn, hfinalize, finalize_of_nil hpending, hfreed]
  exact ((perm_freed h).append_left _).trans hall

/-! ## Calling `init` again -/

/-- There is no table, and the global object is plain. -/
structure NoTable (w : World) : Prop where
  plain : (w.heap.get World.global).proto = objectPrototype
  gone : w.own World.global keyModules = none

namespace NoTable

theorem getProp (h : NoTable w) :
    getProp H.prototype (.object World.global) keyModules w = .ok none w := by
  rw [getProp_object, World.get_of_plain h.plain (H.free (by simp)), h.gone]

/-- A finalizer fails. -/
theorem destory (h : NoTable w) : destory H w = .error (.thrown .typeError) w := by
  rw [Module.destory, bind_of_ok h.getProp]
  exact bind_of_error rfl _

/-- `register_loader` fails. -/
theorem register (h : NoTable w) (l f : Ptr) :
    ∃ w', register H l f w = .error (.thrown .typeError) w' := by
  have hnoted : NoTable { w with trace := w.trace ++ [.registers l] } := ⟨h.plain, h.gone⟩
  have hnote : note (.registers l) w = .ok () { w with trace := w.trace ++ [.registers l] } := rfl
  refine ⟨{ w with trace := w.trace ++ [.registers l] }, ?_⟩
  rw [Module.register, bind_of_ok hnote, enter]
  exact (bind_of_ok hnoted.getProp _).trans (bind_of_error rfl _)

/-- Another global variable is written. -/
theorem setProp (h : NoTable w) (hglobal : World.global < w.heap.size) {name : Str}
    (hname : keyModules ≠ name) (hproto : name ≠ text "__proto__") (v : Value) :
    ∃ w', setProp H.prototype (.object World.global) name v w = .ok () w' ∧ NoTable w' := by
  have hdefine : NoTable (w.define World.global name v) := by
    have hget : (w.define World.global name v).heap.get World.global =
        { w.heap.get World.global with
          props := Assoc.insert (w.heap.get World.global).props name v } :=
      Store.get_set_self hglobal _
    refine ⟨by rw [hget]; exact h.plain, ?_⟩
    rw [World.own, hget]
    exact (Assoc.find?_insert_ne _ hname v).trans h.gone
  cases hown : w.own World.global name with
  | some old =>
    have hheap : ((w.define World.global name v).drop World.global old).heap =
        (w.define World.global name v).heap := by
      cases old with
      | object q =>
        rw [World.drop]
        split <;> rfl
      | _ => rfl
    refine ⟨(w.define World.global name v).drop World.global old, ?_, ?_⟩
    · unfold Scripts.setProp
      dsimp only
      rw [hown]
    · exact ⟨by rw [hheap]; exact hdefine.plain, by rw [World.own, hheap]; exact hdefine.gone⟩
  | none => exact ⟨_, setProp_of_new h.plain hown hproto v, hdefine⟩

end NoTable

/-- The table `M` was replaced by a new one, and is to be finalized. -/
structure Replaced (M M' : Ref) (w : World) : Prop where
  pending : w.pending = [M]
  finalized : w.finalized = []
  ne : M' ≠ M
  table : w.own World.global keyModules = some (.object M')
  ne_global : M' ≠ World.global
  empty : (w.heap.get M').props = []
  finalizer : (w.heap.get M').finalizer.isSome = true
  plain : (w.heap.get World.global).proto = objectPrototype
  size : 1 < w.heap.size

namespace Replaced

variable {M' : Ref}

/-- The old finalizer takes the new table for its own, and deletes it. -/
theorem destory (h : Replaced M M' w) :
    ∃ w', destory H { w with pending := [], finalized := w.finalized ++ [M] } = .ok () w' ∧
      w'.pending = [M'] ∧ NoTable w' ∧ w'.heap.size = w.heap.size := by
  generalize hw : ({ w with pending := [], finalized := w.finalized ++ [M] } : World) = w₀
  have hheap : w₀.heap = w.heap := by rw [← hw]
  have hown : w₀.own World.global keyModules = some (.object M') := by
    rw [World.own, hheap]
    exact h.table
  have hmodules : getProp H.prototype (.object World.global) keyModules w₀ =
      .ok (some (.object M')) w₀ := by
    rw [getProp_object, World.get_of_own hown]
  have hkeys : enumerate (.object M') w₀ = .ok (.enumerator M' []) w₀ := by
    show EStateM.Result.ok (Value.enumerator M' (enumOrder ((w₀.heap.get M').props.map _))) w₀ = _
    rw [hheap, h.empty]
    rfl
  have hdelete : delProp (.object World.global) keyModules w₀ = .ok () { w₀ with
      heap := w₀.heap.set World.global { w₀.heap.get World.global with
        props := Assoc.erase (w₀.heap.get World.global).props keyModules }
      pending := w₀.pending ++ [M'] } := by
    unfold delProp
    dsimp only
    rw [hown]
    refine congrArg (EStateM.Result.ok ()) (if_pos ⟨rfl, ?_, ?_⟩)
    · show ((w₀.heap.set World.global _).get M').finalizer.isSome = true
      rw [Store.get_set_ne h.ne_global, hheap]
      exact h.finalizer
    · show M' ∉ w₀.pending ++ w₀.finalized
      rw [← hw, h.finalized]
      exact fun hin => h.ne (List.mem_singleton.mp hin)
  have hglobal : World.global < w₀.heap.size := by
    rw [hheap]
    exact Nat.lt_of_succ_lt h.size
  have hdestory : Module.destory H w₀ = _ := (bind_of_ok hmodules _).trans
    ((bind_of_ok hkeys _).trans ((bind_of_ok rfl _).trans hdelete))
  refine ⟨_, hdestory, ?_, ⟨?_, ?_⟩, ?_⟩
  · rw [← hw]
    rfl
  · show ((w₀.heap.set World.global _).get World.global).proto = _
    rw [Store.get_set_self hglobal, hheap]
    exact h.plain
  · show Assoc.find? ((w₀.heap.set World.global _).get World.global).props _ = none
    rw [Store.get_set_self hglobal]
    exact Assoc.find?_erase_self ..
  · show (w₀.heap.set World.global _).size = _
    rw [Store.size_set, hheap]

/-- Its own finalizer finds nothing. -/
theorem collect (h : Replaced M M' w) :
    ∃ w', collect H w = .ok () w' ∧ NoTable w' ∧ World.global < w'.heap.size := by
  obtain ⟨n, hn⟩ := Nat.exists_eq_add_of_lt h.size
  have hsize : w.heap.size = n + 1 + 1 := by omega
  obtain ⟨w₁, hfirst, hpending, hno, hheap⟩ := h.destory (H := H)
  have hsecond : NoTable { w₁ with pending := [], finalized := w₁.finalized ++ [M'] } :=
    ⟨hno.plain, hno.gone⟩
  have hfinalize : finalize H w.heap.size w =
      { w₁ with pending := [], finalized := w₁.finalized ++ [M'] } := by
    rw [hsize, finalize_of_ok h.pending hfirst, finalize_of_error hpending hsecond.destory,
      finalize_of_nil rfl]
  refine ⟨_, congrArg (EStateM.Result.ok PUnit.unit) hfinalize, hsecond, ?_⟩
  show World.global < w₁.heap.size
  rw [hheap]
  exact Nat.lt_of_succ_lt h.size

end Replaced

/-- Another value put where the table is: the table is garbage then, with its finalizer
still to run. -/
theorem Owning.setProp_modules (h : Owning H loaders κ M w) {made : Store Obj}
    (hgetGlobal : made.get World.global = w.heap.get World.global)
    (hgetM : made.get M = w.heap.get M) (v : Value) :
    setProp H.prototype (.object World.global) keyModules v { w with heap := made } =
      .ok () { w with
        heap := made.set World.global { made.get World.global with
          props := Assoc.insert (made.get World.global).props keyModules v }
        pending := w.pending ++ [M] } := by
  have hown : World.own { w with heap := made } World.global keyModules = some (.object M) := by
    show Assoc.find? (made.get World.global).props keyModules = _
    rw [hgetGlobal]
    exact h.shaped.modules
  have hfinal : ((World.define { w with heap := made } World.global keyModules
      v).heap.get M).finalizer.isSome = true := by
    show ((made.set World.global _).get M).finalizer.isSome = true
    rw [Store.get_set_ne h.shaped.table_ne_global, hgetM]
    exact (h.finalizer M).mpr rfl
  have hnot : M ∉ w.pending ++ w.finalized := by
    rw [h.pending, h.finalized]
    exact List.not_mem_nil
  unfold setProp
  dsimp only
  rw [hown]
  exact congrArg (EStateM.Result.ok ()) (if_pos ⟨rfl, hfinal, hnot⟩)

/-- `init` makes a table, and puts it where the old one is. -/
theorem ends_replace (h : Owning H loaders κ M w) :
    Ends (do
      let M ← newObject
      modify fun w => w.update M fun o => { o with finalizer := some destoryFunction }
      setProp H.prototype (.object World.global) keyModules (.object M)) w
      (fun _ w' => Replaced M w.heap.size w') fun _ _ => False := by
  have hglobal := h.shaped.globals.1
  have hM := h.shaped.table.1
  have hnew : w.heap.size ≠ World.global := Nat.ne_of_gt hglobal
  have hold : ∀ r < w.heap.size, ∀ o, (w.heap.alloc o).get r = w.heap.get r := fun r hr o =>
    Store.get_alloc_old hr o
  refine ends_bind_of_ok rfl (ends_bind (P := fun _ w' => w' = { w with
    heap := w.heap.alloc ⟨[], objectPrototype, some destoryFunction⟩ }) (ends_modify ?_) ?_)
  · rw [World.update]
    dsimp only
    rw [Store.get_alloc_new, Store.set_alloc_new]
    rfl
  rintro _ _ rfl
  generalize hmade : w.heap.alloc ⟨[], objectPrototype, some destoryFunction⟩ = made
  have hsize : made.size = w.heap.size + 1 := by rw [← hmade, Store.size_alloc]
  have hgetGlobal : made.get World.global = w.heap.get World.global := by
    rw [← hmade, hold _ hglobal]
  have hgetM : made.get M = w.heap.get M := by rw [← hmade, hold _ hM]
  have hgetNew : made.get w.heap.size = ⟨[], objectPrototype, some destoryFunction⟩ := by
    rw [← hmade, Store.get_alloc_new]
  have hglobal' : World.global < made.size := by
    rw [hsize]
    exact Nat.lt_succ_of_lt hglobal
  have hput := h.setProp_modules hgetGlobal hgetM (.object w.heap.size)
  refine ends_of_ok hput ⟨?_, h.finalized, Nat.ne_of_gt hM, ?_, hnew, ?_, ?_, ?_, ?_⟩
  · rw [h.pending]
    rfl
  · show Assoc.find? ((made.set World.global _).get World.global).props keyModules = _
    rw [Store.get_set_self hglobal']
    exact Assoc.find?_insert_self ..
  · show ((made.set World.global _).get w.heap.size).props = []
    rw [Store.get_set_ne hnew, hgetNew]
  · show ((made.set World.global _).get w.heap.size).finalizer.isSome = true
    rw [Store.get_set_ne hnew, hgetNew]
    rfl
  · show ((made.set World.global _).get World.global).proto = _
    rw [Store.get_set_self hglobal', hgetGlobal]
    exact h.shaped.proto World.global
  · show 1 < (made.set World.global _).size
    rw [Store.size_set, hsize]
    exact Nat.succ_lt_succ hglobal

theorem setUp_eq (H : Host) (js : Ptr) (c : Option Ptr) :
    setUp H js c = (do
      let M ← newObject
      modify fun w => w.update M fun o => { o with finalizer := some destoryFunction }
      setProp H.prototype (.object World.global) keyModules (.object M)) >>= (fun _ => do
      collect H
      setProp H.prototype (.object World.global) (text "kg_import") importFunction
      registerFirst H js c) := by
  cases c <;> simp only [setUp, registerFirst, bind_assoc]

/-- **`init` that is called again throws.** -/
theorem setUp_throws (h : Owning H loaders κ M w) (js : Ptr) (c : Option Ptr) :
    ∃ e w', setUp H js c w = .error e w' := by
  have hends : Ends (setUp H js c) w (fun _ _ => False) fun _ _ => True := by
    rw [setUp_eq]
    refine ends_bind ((ends_replace h).mono (fun _ _ h => h) fun _ _ _ => trivial) ?_
    intro _ w₁ hreplaced
    obtain ⟨w₂, hcollect, hno, hglobal⟩ := hreplaced.collect (H := H)
    obtain ⟨w₃, himport, hno'⟩ := hno.setProp (H := H) hglobal
      (by decide : keyModules ≠ text "kg_import") (by decide) importFunction
    obtain ⟨w₄, hregister⟩ := hno'.register (H := H) js H.jsDestory
    refine ends_bind_of_ok hcollect (ends_bind_of_ok himport ?_)
    exact ends_of_error (bind_of_error hregister _) trivial
  unfold Ends at hends
  generalize setUp H js c w = res at hends ⊢
  cases res with
  | ok _ w' => exact hends.elim
  | error e w' => exact ⟨e, w', rfl⟩

/-! ## Runs -/

/-- A call has completed when its loader is reached. -/
theorem Owning.completed (h : Owning H loaders κ M w) (hnodup : (loaders.map Prod.snd).Nodup)
    {call : Call} (hentry : HasEntry H w (H.loader call.last).moduleType.val call.last) :
    Completed H call w :=
  ⟨hentry, h.entries hnodup hentry, fun _ _ => h.entries hnodup⟩

/-- A type that is a plain string, and no name of prototypes. -/
def Plain (H : Host) (l : Ptr) : Prop :=
  (H.loader l).moduleType.val ≠ text "__proto__" ∧ isSymbol (H.loader l).moduleType.val = false

/-- Where a table owns its loaders, they stay owned if and only if `init` is not called
again. -/
theorem owned_iff_of_owning (calls : List Call) (h : Owning H loaders κ M w)
    (hnodup : ((loaders ++ calls.flatMap (Call.loaders H)).map Prod.snd).Nodup)
    (hplain : ∀ p ∈ calls.flatMap (Call.loaders H), Plain H p.2) :
    Owned H loaders calls w ↔ ∀ js c, .init js c ∉ calls := by
  induction calls generalizing loaders κ w with
  | nil => exact iff_of_true h.destroyHeap fun _ _ => List.not_mem_nil
  | cons call calls ih =>
    rw [List.flatMap_cons] at hnodup hplain
    cases call with
    | init js c =>
      refine iff_of_false ?_ fun hno => hno js c (List.mem_cons_self ..)
      rintro ⟨b, w', hrun, -⟩
      obtain ⟨e, w'', hthrows⟩ := setUp_throws h js.val (c.map Subtype.val)
      rw [Call.run, init_eq, bind_of_error hthrows] at hrun
      cases hrun
    | register l f =>
      obtain ⟨hproto, hsymbol⟩ :=
        hplain (f, l.val) (List.mem_append_left _ (List.mem_singleton_self _))
      obtain ⟨κ', w', hregister, howning, hentry⟩ := h.register l f hproto hsymbol
      have hrun : Call.run H (.register l f) w = .ok true w' := by
        rw [Call.run, registerLoader_eq, bind_of_ok hregister]
        rfl
      rw [← List.append_assoc] at hnodup
      have hrest := ih howning hnodup fun p hp => hplain p (List.mem_append_right _ hp)
      have hsofar : ((loaders ++ [(f, l.val)]).map Prod.snd).Nodup := by
        rw [List.map_append] at hnodup
        exact (List.nodup_append.mp hnodup).1
      constructor
      · rintro ⟨b, w'', hrun', -, howned⟩ js c hin
        rw [hrun] at hrun'
        cases hrun'
        rcases List.mem_cons.mp hin with heq | hin
        · cases heq
        · exact hrest.mp howned js c hin
      · intro hno
        refine ⟨true, w', hrun, howning.completed hsofar hentry, hrest.mpr fun js c hin => ?_⟩
        exact hno js c (List.mem_cons_of_mem _ hin)

/-- The loaders of `init` are owned by the table it makes. -/
theorem init_create (H : Host) (env : Str → Option Str) (js : LoaderPtr) (c : Option LoaderPtr)
    (hplain : ∀ p ∈ Call.loaders H (.init js c), Plain H p.2) :
    ∃ κ w, Call.run H (.init js c) (World.create env) = .ok true w ∧
      Owning H (Call.loaders H (.init js c)) κ 1 w ∧
      HasEntry H w (H.loader (Call.init js c).last).moduleType.val (Call.init js c).last := by
  obtain ⟨hproto, hsymbol⟩ := hplain (H.jsDestory, js.val) (List.mem_cons_self ..)
  obtain ⟨κ, w, hjs, howning, hentry⟩ :=
    (owning_newTable H env).register js H.jsDestory hproto hsymbol
  rw [Call.run, init_eq]
  cases c with
  | none =>
    refine ⟨κ, w, ?_, howning, hentry⟩
    have hsetUp : setUp H js.val none (World.create env) = .ok () w := by
      rw [setUp_create, registerFirst, bind_of_ok hjs]
      rfl
    exact bind_of_ok hsetUp _
  | some c =>
    obtain ⟨hproto', hsymbol'⟩ := hplain (H.cDestory, c.val)
      (List.mem_cons_of_mem _ (List.mem_singleton_self _))
    obtain ⟨κ', w', hc, howning', hentry'⟩ := howning.register c H.cDestory hproto' hsymbol'
    refine ⟨κ', w', ?_, howning', hentry'⟩
    have hsetUp : setUp H js.val (some c.val) (World.create env) = .ok () w' := by
      rw [setUp_create, registerFirst, bind_of_ok hjs]
      exact hc
    exact bind_of_ok hsetUp _

/-- **When loaders are owned**, from `init` to the end of the heap: if and only if
`init` is not called again. -/
theorem owned_iff (H : Host) (env : Str → Option Str) (js : LoaderPtr) (c : Option LoaderPtr)
    (calls : List Call)
    (hnodup : (((Call.init js c :: calls).flatMap (Call.loaders H)).map Prod.snd).Nodup)
    (hplain : ∀ p ∈ (Call.init js c :: calls).flatMap (Call.loaders H), Plain H p.2) :
    Owned H [] (.init js c :: calls) (World.create env) ↔ ∀ js' c', .init js' c' ∉ calls := by
  rw [List.flatMap_cons] at hnodup hplain
  obtain ⟨κ, w, hrun, howning, hentry⟩ := init_create H env js c fun p hp =>
    hplain p (List.mem_append_left _ hp)
  have hrest := owned_iff_of_owning calls howning hnodup fun p hp =>
    hplain p (List.mem_append_right _ hp)
  rw [List.map_append] at hnodup
  rw [← hrest]
  constructor
  · rintro ⟨b, w', hrun', -, howned⟩
    rw [hrun] at hrun'
    cases hrun'
    exact howned
  · exact fun howned =>
      ⟨true, w, hrun, howning.completed (List.nodup_append.mp hnodup).1 hentry, howned⟩

/-- `init`, and a loader that takes the place of its own. -/
theorem owned_iff_replaced :
    Owned (.initial fun _ => JsLoader.loader) []
      [.init ⟨1, by decide⟩ none, .register ⟨2, by decide⟩ 3] (World.create fun _ => none) ↔
      ∀ js' c', Call.init js' c' ∉ [Call.register ⟨2, by decide⟩ 3] :=
  owned_iff _ _ _ _ _ (by decide) fun _ _ =>
    (by decide : text "js" ≠ text "__proto__" ∧ isSymbol (text "js") = false)

/-- `init` twice. -/
theorem init_again : ¬ Owned (.initial fun _ => JsLoader.loader) []
    [.init ⟨1, by decide⟩ none, .init ⟨2, by decide⟩ none] (World.create fun _ => none) := by
  rintro ⟨b, w, hfirst, -, b', w', hsecond, -⟩
  have hruns : EStateM.run'
      (Call.run (.initial fun _ => JsLoader.loader) (.init ⟨1, by decide⟩ none) >>= fun _ =>
        Call.run (.initial fun _ => JsLoader.loader) (.init ⟨2, by decide⟩ none))
      (World.create fun _ => none) = none := by
    decide +kernel
  have hboth := run'_of_ok ((bind_of_ok hfirst fun _ =>
    Call.run (.initial fun _ => JsLoader.loader) (.init ⟨2, by decide⟩ none)).trans hsecond)
  exact Option.some_ne_none b' (hboth.symm.trans hruns)

end KgCpp.Scripts.Module
