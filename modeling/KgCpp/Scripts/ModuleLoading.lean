import KgCpp.Scripts.ModuleGraph
import KgCpp.Scripts.ModuleRefinement

/-!
# What holds while modules are loaded

The cache is the state: a module that was evaluated is in it, unless it is still
being loaded (`Loading`). So a module that is in neither was never evaluated, and
when it is, it is being loaded until it is stored.
-/

namespace KgCpp.Scripts.Module

open Lib

variable {H : Host} {κ κ' : Layout} {M : Ref} {w w' : World}

/-! ## The table in a heap that grows -/

/-- A heap that only has more objects has the same table. -/
theorem tableOf_of_grows (h : Shaped κ M w) (hgrows : Grows κ w κ' w')
    (hold : ∀ r < w.heap.size, w'.heap.get r = w.heap.get r) :
    tableOf κ' M w' = tableOf κ M w := by
  rw [tableOf, tableOf, hold M h.table.1]
  refine List.map_congr_left fun p hp => ?_
  obtain ⟨E, l, f, L, hv, hE, hrole⟩ := h.entry_of_mem hp
  obtain ⟨-, -, hL, -⟩ := h.entry hE hrole
  rw [hv, rowOf_entry hrole, rowOf_entry ((hgrows.role E hE).trans hrole), hold L hL]

/-- A registered loader has a row without modules. -/
theorem tableOf_registered (h : Shaped κ M w) (type : Str) (l f : Ptr) :
    tableOf (registeredLayout κ w type l f) M (registered κ M w type l f) =
      Assoc.insert (tableOf κ M w) type ⟨l, []⟩ := by
  obtain ⟨htable, hother⟩ := get_registered h type l f
  have hgrows := grows_registered κ M w type l f
  have hnew : rowOf (registeredLayout κ w type l f) (registered κ M w type l f)
      (.object w.heap.size) = ⟨l, []⟩ := by
    have hlibs : w.heap.size + 1 ≠ M := Nat.ne_of_gt (Nat.lt_succ_of_lt h.table.1)
    rw [rowOf_entry (registeredLayout_entry ..), hother _ hlibs,
      get_entryHeap_new (Nat.lt_succ_self _)]
    rfl
  have hrows : ∀ p ∈ (w.heap.get M).props,
      rowOf (registeredLayout κ w type l f) (registered κ M w type l f) p.2 = rowOf κ w p.2 := by
    intro p hp
    obtain ⟨E, l', f', L, hv, hE, hrole⟩ := h.entry_of_mem hp
    obtain ⟨-, -, hL, hlibs⟩ := h.entry hE hrole
    rw [hv, rowOf_entry hrole, rowOf_entry ((hgrows.role E hE).trans hrole),
      hother L (h.libs_ne hlibs).2, get_entryHeap_old hL]
  rw [tableOf, htable, Assoc.map_insert, hnew, tableOf]
  exact congrArg (Assoc.insert · type _) (List.map_congr_left fun p hp => by rw [hrows p hp])

/-- The module that a table has. -/
def cacheOf (T : Table) (node : Node) : Option Value :=
  (Assoc.find? T node.1).bind fun row => Assoc.find? row.libs node.2

theorem cacheOf_entry {E : Ref} {type : Str} {l f : Ptr} {L : Ref}
    (hown : w.own M type = some (.object E)) (hrole : κ E = .entry type l f L) (name : Str) :
    cacheOf (tableOf κ M w) (type, name) = w.own L name := by
  rw [cacheOf, find?_tableOf_entry hown hrole]
  rfl

/-- The module that is stored is the one that is new. -/
theorem cacheOf_insert {T : Table} {type name : Str} {row : Row}
    (hrow : Assoc.find? T type = some row) (v : Value) (node : Node) :
    cacheOf (Assoc.insert T type ⟨row.loader, Assoc.insert row.libs name v⟩) node =
      if node = (type, name) then some v else cacheOf T node := by
  obtain ⟨type', name'⟩ := node
  by_cases htype : type' = type
  · subst htype
    rw [cacheOf, Assoc.find?_insert_self, cacheOf, hrow]
    by_cases hname : name' = name
    · rw [hname, if_pos rfl]
      exact Assoc.find?_insert_self ..
    · rw [if_neg fun heq => hname (Prod.ext_iff.mp heq).2]
      exact Assoc.find?_insert_ne _ hname _
  · rw [if_neg fun heq => htype (Prod.ext_iff.mp heq).1, cacheOf,
      Assoc.find?_insert_ne _ htype, cacheOf]

/-! ## Traces -/

section Traces

variable {trace trace' : List Event} {e : Event} {pkg type v : Value}

theorem reading_append (trace : List Event) (e : Event) :
    reading (trace ++ [e]) = (reading trace).step e := by
  rw [reading, List.foldl_append]
  rfl

theorem evaluations_append_none {files : Files} (h : evaluation H files e = none) :
    evaluations H files (trace ++ [e]) = evaluations H files trace := by
  rw [evaluations, List.filterMap_append, List.filterMap_cons_none h]
  exact List.append_nil _

theorem evaluations_append_some {files : Files} {node : Node}
    (h : evaluation H files e = some node) :
    evaluations H files (trace ++ [e]) = evaluations H files trace ++ [node] := by
  rw [evaluations, List.filterMap_append, List.filterMap_cons_some h]
  rfl

theorem Decided.append (h : Decided H trace pkg type v) (e : Event) :
    Decided H (trace ++ [e]) pkg type v := fun name hname hhas => by
  obtain ⟨l, hl, htype⟩ := h name hname hhas
  exact ⟨l, List.mem_append_left _ hl, htype⟩

end Traces

/-! ## The invariant -/

/-- What holds while the modules in `P` are being loaded. -/
structure Loading (m : Modules H) (P : Node → Prop) (κ : Layout) (M : Ref) (w : World) :
    Prop where
  shaped : Shaped κ M w
  env : w.env = m.env
  table : (tableOf κ M w).map (fun p => (p.1, p.2.loader)) = m.table
  once : (evaluations H m.files w.trace).Nodup
  done : ∀ node ∈ evaluations H m.files w.trace, cacheOf (tableOf κ M w) node ≠ none ∨ P node
  loading : ∀ node, P node → cacheOf (tableOf κ M w) node = none
  stored : ∀ node v, cacheOf (tableOf κ M w) node = some v ↔
    ∃ l, (H.loader l).moduleType.val = node.1 ∧ .stores l node.2 v ∈ w.trace
  decided : ∀ pkg type v, (pkg, type, v) ∈ (reading w.trace).results → Decided H w.trace pkg type v

variable {m : Modules H} {P : Node → Prop}

namespace Loading

variable {type name : Str} {l : Ptr}

theorem keys (h : Loading m P κ M w) :
    (w.heap.get M).props.map Prod.fst = m.table.map Prod.fst := by
  rw [← keys_tableOf κ M w, ← h.table, List.map_map]
  rfl

/-- The entry of a type has the loader in the table. -/
theorem find?_table (h : Loading m P κ M w) {E : Ref} {f : Ptr} {L : Ref}
    (hown : w.own M type = some (.object E)) (hrole : κ E = .entry type l f L) :
    Assoc.find? m.table type = some l := by
  rw [← h.table, Assoc.find?_map Row.loader, find?_tableOf_entry hown hrole]
  rfl

/-- An event is noted that says nothing of modules. -/
theorem note (h : Loading m P κ M w) {e : Event} (heval : evaluation H m.files e = none)
    (hstores : ∀ l p v, e ≠ .stores l p v)
    (hresults : (reading (w.trace ++ [e])).results = (reading w.trace).results) :
    Loading m P κ M { w with trace := w.trace ++ [e] } := by
  have hsame : evaluations H m.files (w.trace ++ [e]) = evaluations H m.files w.trace :=
    evaluations_append_none heval
  have hmem : ∀ l p v, .stores l p v ∈ w.trace ++ [e] ↔ .stores l p v ∈ w.trace := fun l p v =>
    ⟨fun hin => (List.mem_append.mp hin).resolve_right fun hlast =>
      hstores l p v (List.mem_singleton.mp hlast).symm, List.mem_append_left _⟩
  refine ⟨h.shaped.of_heap rfl, h.env, h.table, ?_, ?_, h.loading, fun node v => ?_, ?_⟩
  · rw [hsame]
    exact h.once
  · rw [hsame]
    exact h.done
  · simp only [hmem]
    exact h.stored node v
  · rw [hresults]
    exact fun pkg type v hin => (h.decided pkg type v hin).append e

/-- A module is evaluated that is neither in the cache nor being loaded. -/
theorem call (h : Loading m P κ M w) {path : Str} (hfile : (m.files l path).isSome = true)
    (htype : (H.loader l).moduleType.val = type)
    (hcache : cacheOf (tableOf κ M w) (type, name) = none) (hP : ¬ P (type, name)) :
    Loading m (fun node => P node ∨ node = (type, name)) κ M
      { w with trace := w.trace ++ [.calls l name path] } := by
  have heval : evaluations H m.files (w.trace ++ [.calls l name path]) =
      evaluations H m.files w.trace ++ [(type, name)] :=
    evaluations_append_some (by rw [evaluation, if_pos hfile, htype])
  have hnew : (type, name) ∉ evaluations H m.files w.trace := fun hin =>
    (h.done _ hin).elim (fun hne => hne hcache) hP
  refine ⟨h.shaped.of_heap rfl, h.env, h.table, ?_, ?_, ?_, fun node v => ?_, ?_⟩
  · rw [heval]
    exact List.nodup_append.mpr ⟨h.once, List.nodup_singleton _, fun a ha b hb hab =>
      hnew (List.mem_singleton.mp hb ▸ hab ▸ ha)⟩
  · rw [heval]
    intro node hin
    rcases List.mem_append.mp hin with hin | hin
    · exact (h.done node hin).imp_right .inl
    · exact .inr (.inr (List.mem_singleton.mp hin))
  · rintro node (hnode | rfl)
    · exact h.loading node hnode
    · exact hcache
  · have hmem : ∀ l' p v, .stores l' p v ∈ w.trace ++ [.calls l name path] ↔
        .stores l' p v ∈ w.trace := by simp
    simp only [hmem]
    exact h.stored node v
  · rw [reading_append]
    exact fun pkg type v hin => (h.decided pkg type v hin).append _

/-- A value is stored for a module that has none: the trace still tells what is in the
cache. -/
theorem stored_append (h : Loading m P κ M w)
    (hnone : cacheOf (tableOf κ M w) (type, name) = none)
    (htype : (H.loader l).moduleType.val = type) (v : Value) (node : Node) (v' : Value) :
    (if node = (type, name) then some v else cacheOf (tableOf κ M w) node) = some v' ↔
      ∃ l', (H.loader l').moduleType.val = node.1 ∧
        .stores l' node.2 v' ∈ w.trace ++ [.stores l name v] := by
  have hmem : ∀ l' p v', .stores l' p v' ∈ w.trace ++ [.stores l name v] ↔
      .stores l' p v' ∈ w.trace ∨ l' = l ∧ p = name ∧ v' = v := by simp
  simp only [hmem]
  by_cases hnode : node = (type, name)
  · subst hnode
    rw [if_pos rfl]
    constructor
    · rintro ⟨⟩
      exact ⟨l, htype, .inr ⟨rfl, rfl, rfl⟩⟩
    · rintro ⟨l', htype', hin | ⟨-, -, rfl⟩⟩
      · rw [(h.stored _ _).mpr ⟨l', htype', hin⟩] at hnone
        cases hnone
      · rfl
  · rw [if_neg hnode, h.stored]
    refine exists_congr fun l' => and_congr_right fun htype' => ⟨.inl, fun hin => ?_⟩
    refine hin.resolve_right ?_
    rintro ⟨rfl, hname, -⟩
    exact hnode (Prod.ext (htype'.symm.trans htype) hname)

/-- The module that was being loaded is stored. -/
theorem store (h : Loading m (fun node => P node ∨ node = (type, name)) κ M w)
    (hP : ¬ P (type, name)) {E : Ref} {f : Ptr} {L : Ref}
    (hown : w.own M type = some (.object E)) (hE : E < w.heap.size)
    (hrole : κ E = .entry type l f L) (htype : (H.loader l).moduleType.val = type) (v : Value) :
    Loading m P κ M { w.define L name v with trace := w.trace ++ [.stores l name v] } := by
  obtain ⟨-, -, hL, hlibs⟩ := h.shaped.entry hE hrole
  have hrow := find?_tableOf_entry hown hrole
  have htable : tableOf κ M { w.define L name v with trace := w.trace ++ [.stores l name v] } =
      Assoc.insert (tableOf κ M w) type ⟨l, Assoc.insert (w.heap.get L).props name v⟩ :=
    tableOf_setLibs h.shaped hown hE hrole rfl
  have hcache : ∀ node, cacheOf (tableOf κ M { w.define L name v with
      trace := w.trace ++ [.stores l name v] }) node =
        if node = (type, name) then some v else cacheOf (tableOf κ M w) node := by
    intro node
    rw [htable]
    exact cacheOf_insert hrow v node
  have heval : evaluations H m.files (w.trace ++ [.stores l name v]) =
      evaluations H m.files w.trace := evaluations_append_none rfl
  have hdefine : Shaped κ M (w.define L name v) := h.shaped.setLibs hL hlibs rfl
  refine ⟨hdefine.of_heap rfl, h.env, ?_, ?_, ?_, ?_, ?_, ?_⟩
  · have hkeep : Assoc.insert m.table type l = m.table :=
      Assoc.insert_of_find? (h.find?_table hown hrole)
    rw [htable, Assoc.map_insert Row.loader, h.table]
    exact hkeep
  · rw [heval]
    exact h.once
  · rw [heval]
    intro node hin
    rw [hcache]
    by_cases hnode : node = (type, name)
    · exact .inl (by rw [if_pos hnode]; simp)
    · rw [if_neg hnode]
      exact (h.done node hin).imp_right fun hP' => hP'.resolve_right hnode
  · intro node hnode
    have hne : node ≠ (type, name) := by
      rintro rfl
      exact hP hnode
    rw [hcache, if_neg hne]
    exact h.loading node (.inl hnode)
  · intro node v'
    rw [hcache]
    exact h.stored_append (h.loading _ (.inr rfl)) htype v node v'
  · rw [reading_append]
    exact fun pkg type v hin => (h.decided pkg type v hin).append _

/-- A call returns. -/
theorem returns (h : Loading m P κ M w) {pkg ty v : Value} {begun : List (Value × Value)}
    (hbegun : (reading w.trace).begun = (pkg, ty) :: begun)
    (hdecided : Decided H w.trace pkg ty v) :
    Loading m P κ M { w with trace := w.trace ++ [.returns v] } ∧
      (reading (w.trace ++ [.returns v])).begun = begun := by
  have hread : reading (w.trace ++ [.returns v]) =
      ⟨begun, (pkg, ty, v) :: (reading w.trace).results⟩ := by
    rw [reading_append, Reading.step, hbegun]
    rfl
  have heval : evaluations H m.files (w.trace ++ [.returns v]) =
      evaluations H m.files w.trace := evaluations_append_none rfl
  have hmem : ∀ l p v', .stores l p v' ∈ w.trace ++ [.returns v] ↔ .stores l p v' ∈ w.trace := by
    simp
  refine ⟨⟨h.shaped.of_heap rfl, h.env, h.table, ?_, ?_, h.loading, fun node v' => ?_, ?_⟩, ?_⟩
  · rw [heval]
    exact h.once
  · rw [heval]
    exact h.done
  · simp only [hmem]
    exact h.stored node v'
  · rw [hread]
    intro pkg' type' v' hin
    rcases List.mem_cons.mp hin with heq | hin
    · cases heq
      exact hdecided.append _
    · exact (h.decided pkg' type' v' hin).append _
  · rw [hread]

/-- A module makes an object. -/
theorem newObject (h : Loading m P κ M w) :
    ∃ w', Scripts.newObject w = .ok w.heap.size w' ∧ w'.trace = w.trace ∧
      Grows κ w (Function.update κ w.heap.size .other) w' ∧
      Loading m P (Function.update κ w.heap.size .other) M w' := by
  obtain ⟨w', hnew, htrace, hshaped, hgrows, hold⟩ := h.shaped.newObject
  have htable := tableOf_of_grows h.shaped hgrows hold
  have henv : w'.env = w.env := by
    cases hnew
    rfl
  refine ⟨w', hnew, htrace, hgrows, hshaped, henv.trans h.env, ?_, ?_, ?_, ?_, ?_, ?_⟩
  · rw [htable]
    exact h.table
  · rw [htrace]
    exact h.once
  · rw [htrace, htable]
    exact h.done
  · rw [htable]
    exact h.loading
  · rw [htrace, htable]
    exact h.stored
  · rw [htrace]
    exact h.decided

end Loading

end KgCpp.Scripts.Module
