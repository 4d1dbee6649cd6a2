import KgCpp.Scripts.ModuleLoading

/-!
# Each module body runs at most once

A module is never asked for while it is being loaded: what it imports has a smaller
rank in the graph. So by induction on how deep imports may be nested, the bodies of
modules keep `Loading` (`loads`): where those of smaller rank do, so does a search
that has them evaluated, and a call of `kg_import`, and a body with its calls.
-/

namespace KgCpp.Scripts.Module

open Lib

variable {H : Host} {m : Modules H} {S P : Node → Prop} {ρ : Node → Nat} {n : Nat}
  {κ κ' : Layout} {M : Ref} {w w' : World}

/-! ## Loaders and what they answer -/

theorem moduleType_of_foldl (loaders : List LoaderPtr) {T : List (Str × Ptr)}
    (hT : ∀ type l, Assoc.find? T type = some l → (H.loader l).moduleType.val = type)
    {type : Str} {l : Ptr}
    (h : Assoc.find? (loaders.foldl
      (fun T l => Assoc.insert T (H.loader l.val).moduleType.val l.val) T) type = some l) :
    (H.loader l).moduleType.val = type := by
  induction loaders generalizing T with
  | nil => exact hT type l h
  | cons first rest ih =>
    refine ih (fun type' l' h' => ?_) h
    by_cases htype : type' = (H.loader first.val).moduleType.val
    · rw [htype, Assoc.find?_insert_self] at h'
      cases h'
      exact htype.symm
    · rw [Assoc.find?_insert_ne _ htype] at h'
      exact hT type' l' h'

/-- The loader of a type is for it. -/
theorem Modules.moduleType_of_table (m : Modules H) {type : Str} {l : Ptr}
    (h : Assoc.find? m.table type = some l) : (H.loader l).moduleType.val = type :=
  moduleType_of_foldl _ (fun _ _ h => by cases h) h

/-- What loaders answer whose modules import each other. -/
abbrev Modules.answers (m : Modules H) (n : Nat) : ModuleImport := fun l path =>
  (loading m.files n l path).run H

theorem answers_of_none {l : Ptr} {path : Str} (h : m.files l path = none) (n : Nat) :
    m.answers n l path = pure (.undefined, false) := by
  cases n <;> rw [Modules.answers, loading, h] <;> rfl

theorem answers_of_some {l : Ptr} {path : Str} {body : Body} (h : m.files l path = some body)
    (n : Nat) : m.answers (n + 1) l path = (body.script (loading m.files n)).run H := by
  rw [Modules.answers, loading, h]
  rfl

/-! ## Runs -/

/-- On the way from `w` to `w'` no entry became another, and all calls that began
have ended. -/
structure Later (κ : Layout) (M : Ref) (w : World) (κ' : Layout) (w' : World) : Prop where
  grows : Grows κ w κ' w'
  table : w'.heap.get M = w.heap.get M
  begun : (reading w'.trace).begun = (reading w.trace).begun

theorem Later.of_heap (hheap : w'.heap = w.heap)
    (hbegun : (reading w'.trace).begun = (reading w.trace).begun) : Later κ M w κ w' :=
  ⟨⟨Nat.le_of_eq (by rw [hheap]), fun _ _ => rfl⟩, by rw [hheap], hbegun⟩

theorem Later.trans {κ'' : Layout} {w'' : World} (h : Later κ M w κ' w')
    (h' : Later κ' M w' κ'' w'') : Later κ M w κ'' w'' :=
  ⟨h.grows.trans h'.grows, h'.table.trans h.table, h'.begun.trans h.begun⟩

/-- And modules were loaded. -/
def Keeps (m : Modules H) (P : Node → Prop) (κ : Layout) (M : Ref) (w w' : World) : Prop :=
  ∃ κ', Later κ M w κ' w' ∧ Loading m P κ' M w'

theorem Keeps.refl (h : Loading m P κ M w) : Keeps m P κ M w w := ⟨κ, .of_heap rfl rfl, h⟩

theorem Keeps.trans {w'' : World} (hlater : Later κ M w κ' w') (h : Keeps m P κ' M w' w'') :
    Keeps m P κ M w w'' := by
  obtain ⟨κ'', hlater', hloading⟩ := h
  exact ⟨κ'', hlater.trans hlater', hloading⟩

/-- A module that may be loaded while those in `P` are, by imports nested no deeper
than `n`. -/
structure Allowed (S : Node → Prop) (ρ : Node → Nat) (P : Node → Prop) (n : Nat) (node : Node) :
    Prop where
  mem : S node
  rank : ρ node < n
  below : ∀ node', P node' → ρ node < ρ node'

/-- It is not being loaded already. -/
theorem Allowed.not_loading {node : Node} (h : Allowed S ρ P n node) : ¬ P node := fun hP =>
  Nat.lt_irrefl _ (h.below node hP)

/-- The bodies of modules may be evaluated, with imports nested no deeper than `n`. -/
def Loads (m : Modules H) (S : Node → Prop) (ρ : Node → Nat) (M : Ref) (n : Nat) : Prop :=
  ∀ P κ w type name l path body,
    Loading m (fun node => P node ∨ node = (type, name)) κ M w → Allowed S ρ P n (type, name) →
    m.body (type, name) = some body → m.files l path = some body →
    Ends (m.answers n l path) w
      (fun r w' => r.2 = true ∧ Keeps m (fun node => P node ∨ node = (type, name)) κ M w w')
      fun _ _ => False

/-! ## Searching one entry -/

section Libs

variable {E : Ref} {type name : Str} {l f : Ptr} {L : Ref}

/-- A loader has no file for a path. -/
theorem ends_ask_of_none (h : Loading m P κ M w) {path : Str} (hfile : m.files l path = none)
    (n : Nat) (name : Str) :
    Ends (ask (m.answers n) l name path) w
      (fun r w' => r = (.undefined, false) ∧ Loading m P κ M w' ∧ w'.heap = w.heap ∧
        (reading w'.trace).begun = (reading w.trace).begun)
      fun _ _ => False := by
  have hcalls := h.note (e := .calls l name path) (by rw [evaluation, hfile]; rfl) (by simp)
    (by rw [reading_append]; rfl)
  have hanswers := hcalls.note (e := .answers l name path .undefined false) rfl (by simp)
    (by rw [reading_append]; rfl)
  rw [ask, answers_of_none hfile]
  refine ends_bind_of_ok rfl (ends_bind_of_ok rfl (ends_bind_of_ok rfl (ends_pure ?_)))
  refine ⟨rfl, hanswers, rfl, ?_⟩
  show (reading (w.trace ++ [_] ++ [_])).begun = _
  rw [reading_append, reading_append]
  rfl

/-- A loader has the module, and its body is evaluated. -/
theorem ends_ask_of_some (hloads : Loads m S ρ M n) (h : Loading m P κ M w)
    (hallowed : Allowed S ρ P n (type, name)) (htype : (H.loader l).moduleType.val = type)
    (hcache : cacheOf (tableOf κ M w) (type, name) = none) {path : Str} {body : Body}
    (hbody : m.body (type, name) = some body) (hfile : m.files l path = some body) :
    Ends (ask (m.answers n) l name path) w
      (fun r w' => r.2 = true ∧ Keeps m (fun node => P node ∨ node = (type, name)) κ M w w')
      fun _ _ => False := by
  have hsome : (m.files l path).isSome = true := by rw [hfile]; rfl
  have hcall := h.call hsome htype hcache hallowed.not_loading
  have hcalls : Later κ M w κ { w with trace := w.trace ++ [.calls l name path] } :=
    .of_heap rfl (by rw [reading_append]; rfl)
  refine ends_bind_of_ok rfl (ends_bind (hloads _ _ _ _ _ _ _ _ hcall hallowed hbody hfile) ?_)
  rintro r w' ⟨hok, κ', hlater, hloading⟩
  refine ends_bind_of_ok rfl (ends_pure ⟨hok, κ', (hcalls.trans hlater).trans ?_, ?_⟩)
  · exact .of_heap rfl (by rw [reading_append]; rfl)
  · exact hloading.note rfl (by simp) (by rw [reading_append]; rfl)

/-- The module is stored. -/
theorem ends_store (hlater : Later κ M w κ' w')
    (h : Loading m (fun node => P node ∨ node = (type, name)) κ' M w') (hP : ¬ P (type, name))
    (hown : w.own M type = some (.object E)) (hE : E < w.heap.size)
    (hrole : κ E = .entry type l f L) (htype : (H.loader l).moduleType.val = type)
    (hname : name ≠ text "__proto__") (v : Value) :
    Ends (setProp H.prototype (.object L) name v) w'
      (fun _ w'' => Keeps m P κ M w { w'' with trace := w''.trace ++ [.stores l name v] })
      fun _ _ => False := by
  have hown' : w'.own M type = some (.object E) := by
    rw [World.own, hlater.table]
    exact hown
  have hE' : E < w'.heap.size := Nat.lt_of_lt_of_le hE hlater.grows.size
  have hrole' := (hlater.grows.role E hE).trans hrole
  obtain ⟨-, -, -, hlibs⟩ := h.shaped.entry hE' hrole'
  obtain ⟨hglobal, hM⟩ := h.shaped.libs_ne hlibs
  refine ends_of_ok (setProp_of_plain hglobal (h.shaped.proto L) hname v)
    ⟨κ', hlater.trans ⟨⟨?_, fun _ _ => rfl⟩, ?_, ?_⟩, h.store hP hown' hE' hrole' htype v⟩
  · exact Nat.le_of_eq (Store.size_set ..).symm
  · exact Store.get_set_ne hM.symm _
  · show (reading (w'.trace ++ [_])).begun = _
    rw [reading_append]
    rfl

/-- An entry is searched: it has the module, from now on, or its loader has not. -/
theorem ends_searchLibs_loading (hloads : Loads m S ρ M n) (h : Loading m P κ M w)
    (hown : w.own M type = some (.object E)) (hE : E < w.heap.size)
    (hrole : κ E = .entry type l f L) (hname : name ≠ text "__proto__")
    (hallowed : (m.body (type, name)).isSome = true → Allowed S ρ P n (type, name)) :
    Ends (searchLibs H (m.answers n) l L name) w
      (fun found w' => Keeps m P κ M w w' ∧ found.elim (m.body (type, name) = none) fun v =>
        ∃ l, (H.loader l).moduleType.val = type ∧ .stores l name v ∈ w'.trace)
      fun _ _ => False := by
  have hcache := cacheOf_entry hown hrole name
  have htable := h.find?_table hown hrole
  have htype := m.moduleType_of_table htable
  have hbody : m.body (type, name) = m.bodyOf l name := by
    rw [Modules.body, htable]
    rfl
  cases hcached : w.own L name with
  | some v =>
    have hok : searchLibs H (m.answers n) l L name w = .ok (some v) w := by
      rw [searchLibs, hcached]
    exact ends_of_ok hok ⟨.refl h, (h.stored _ v).mp (hcache.trans hcached)⟩
  | none =>
    rw [hcached] at hcache
    have hstart : searchLibs H (m.answers n) l L name w =
        searchPaths H (m.answers n) l (.object L) name (paths (H.loader l) w.env name) w := by
      rw [← searchLoader_eq, searchLibs, hcached]
    rw [Ends, hstart]
    -- the paths in front had no file
    refine ends_searchPaths
      (J := fun rest w' => Loading m P κ M w' ∧ w'.heap = w.heap ∧
        (reading w'.trace).begun = (reading w.trace).begun ∧
        rest.findSome? (m.files l) = m.bodyOf l name)
      (A := fun _ w' => ¬ P (type, name) ∧
        Keeps m (fun node => P node ∨ node = (type, name)) κ M w w')
      ?_ ?_ ?_ _ ⟨h, rfl, rfl, by rw [h.env]; rfl⟩
    · rintro path rest w' ⟨hloading, hheap, hbegun, hfirst⟩
      cases hfile : m.files l path with
      | none =>
        refine (ends_ask_of_none hloading hfile n name).mono ?_ fun _ _ hno => hno.elim
        rintro _ w'' ⟨rfl, hloading', hheap', hbegun'⟩
        rw [List.findSome?_cons, hfile] at hfirst
        exact ⟨hloading', hheap'.trans hheap, hbegun'.trans hbegun, hfirst⟩
      | some body =>
        rw [List.findSome?_cons, hfile] at hfirst
        have hsome : m.body (type, name) = some body := hbody.trans hfirst.symm
        have hcache' : cacheOf (tableOf κ M w') (type, name) = none := by
          rw [tableOf_of_heap hheap]
          exact hcache
        have hnode := hallowed (by rw [hsome]; rfl)
        refine (ends_ask_of_some hloads hloading hnode htype hcache' hsome hfile).mono ?_
          fun _ _ hno => hno.elim
        rintro r w'' ⟨hok, hkeeps⟩
        rw [if_pos hok]
        exact ⟨hnode.not_loading, hkeeps.trans (.of_heap hheap hbegun)⟩
    · rintro v w' ⟨hP, κ', hlater, hloading⟩
      refine (ends_store hlater hloading hP hown hE hrole htype hname v).mono ?_
        fun _ _ hno => hno.elim
      exact fun _ w'' hkeeps => ⟨hkeeps, l, htype,
        List.mem_append_right _ (List.mem_singleton_self _)⟩
    · rintro w' ⟨hloading, hheap, hbegun, hfirst⟩
      exact ⟨⟨κ, .of_heap hheap hbegun, hloading⟩, hbody.trans hfirst.symm⟩

end Libs

/-! ## Searching the table -/

namespace Modules

variable {node : Node} (nodes : List Node)

theorem firstOf_cons_of_none (h : m.body node = none) :
    m.firstOf (node :: nodes) = m.firstOf nodes := List.find?_cons_of_neg (by simp [h])

theorem firstOf_cons_of_isSome (h : (m.body node).isSome = true) :
    m.firstOf (node :: nodes) = some node := List.find?_cons_of_pos h

end Modules

section Table

variable {name type : Str}

/-- What an entry has under a name that is inherited. -/
theorem Loading.get_of_has (h : Loading m P κ M w) (hname : H.prototype.has name = true) (L : Ref) :
    ∃ v, w.get H.prototype L name = some v := by
  cases hown : w.own L name with
  | some v => exact ⟨v, World.get_of_own hown⟩
  | none =>
    obtain ⟨s, hs⟩ := World.get_of_has (h.shaped.proto L) hown hname
    exact ⟨_, hs⟩

/-- A call with a type. -/
theorem ends_searchTyped_loading (hloads : Loads m S ρ M n) (h : Loading m P κ M w)
    (hallowed : (m.body (type, name)).isSome = true → Allowed S ρ P n (type, name)) :
    Ends (searchTyped H (m.answers n) (.object M) type name) w
      (fun v w' => Keeps m P κ M w w' ∧ (H.prototype.has name = false →
        ∃ l, (H.loader l).moduleType.val = type ∧ .stores l name v ∈ w'.trace))
      fun e w' => (∃ v, e = .thrown v) ∧ Keeps m P κ M w w' := by
  cases hown : w.own M type with
  | none =>
    obtain ⟨v, hthrows⟩ := searchTyped_throws h.shaped (m.answers n) name hown
    exact ends_of_error hthrows ⟨⟨v, rfl⟩, .refl h⟩
  | some entry =>
    obtain ⟨E, l, f, L, rfl, hE, hrole⟩ := h.shaped.entry_of_own hown
    by_cases hhas : H.prototype.has name = true
    · obtain ⟨v, hv⟩ := h.get_of_has hhas L
      refine ends_of_ok (searchTyped_of_get h.shaped (m.answers n) hown hE hrole hv)
        ⟨.refl h, fun hno => ?_⟩
      rw [hhas] at hno
      cases hno
    · have hplain : H.prototype.has name = false := by simpa using hhas
      rw [Ends, searchTyped_eq h.shaped (m.answers n) hown hE hrole (h.shaped.get L hplain)]
      refine ends_bind ((ends_searchLibs_loading hloads h hown hE hrole
        (H.prototype.ne_proto hplain) hallowed).mono (fun _ _ h => h) fun _ _ hno => hno.elim) ?_
      rintro found w' ⟨hkeeps, hfound⟩
      cases found with
      | some v => exact ends_pure ⟨hkeeps, fun _ => hfound⟩
      | none => exact ends_throw ⟨⟨_, rfl⟩, hkeeps⟩

/-- One entry after another is searched. -/
theorem ends_searchKeys_loading (hloads : Loads m S ρ M n) (h : Loading m P κ M w)
    (keys : List Str) (hkeys : ∀ key ∈ keys, key ∈ m.table.map Prod.fst)
    (hallowed : ∀ node, m.firstOf (keys.map (·, name)) = some node → Allowed S ρ P n node) :
    Ends (searchKeys H (m.answers n) M name keys) w
      (fun found w' => Keeps m P κ M w w' ∧ (H.prototype.has name = false →
        ∀ v, found = some v → ∃ l, .stores l name v ∈ w'.trace))
      fun _ _ => False := by
  refine ends_searchKeys
    (J := fun rest w' => Keeps m P κ M w w' ∧ (∀ key ∈ rest, key ∈ m.table.map Prod.fst) ∧
      m.firstOf (rest.map (·, name)) = m.firstOf (keys.map (·, name)))
    ?_ ?_ keys ⟨.refl h, hkeys, rfl⟩
  · rintro key rest w' ⟨⟨κ', hlater, hloading⟩, hin, hfirst⟩
    have hkey := hin key (List.mem_cons_self ..)
    rw [← hloading.keys] at hkey
    obtain ⟨E, l, f, L, hown, hE, hrole⟩ := hloading.shaped.entry_of_key hkey
    rw [Ends, searchKey_of_get (World.get_of_own hown)]
    by_cases hhas : H.prototype.has name = true
    · obtain ⟨v, hv⟩ := hloading.get_of_has hhas L
      refine ends_of_ok (searchEntry_of_get hloading.shaped (m.answers n) hE hrole hv)
        ⟨⟨κ', hlater, hloading⟩, fun hno => ?_⟩
      rw [hhas] at hno
      cases hno
    · have hplain : H.prototype.has name = false := by simpa using hhas
      rw [searchEntry_eq hloading.shaped (m.answers n) hE hrole (hloading.shaped.get L hplain)]
      rw [List.map_cons] at hfirst
      refine (ends_searchLibs_loading hloads hloading hown hE hrole
        (H.prototype.ne_proto hplain) fun hsome => hallowed _ ?_).mono ?_ fun _ _ hno => hno
      · rw [← hfirst]
        exact m.firstOf_cons_of_isSome _ hsome
      · rintro found w'' ⟨hkeeps, hfound⟩
        cases found with
        | some v =>
          obtain ⟨l', -, hstores⟩ := hfound
          refine ⟨hkeeps.trans hlater, fun _ v' hv' => ⟨l', ?_⟩⟩
          cases hv'
          exact hstores
        | none =>
          refine ⟨hkeeps.trans hlater, fun k hk => hin k (List.mem_cons_of_mem _ hk), ?_⟩
          rw [← hfirst]
          exact (m.firstOf_cons_of_none _ hfound).symm
  · exact fun w' hJ => ⟨hJ.1, fun _ v hv => by cases hv⟩

/-- **A search keeps what holds while modules are loaded**, when the module it is for
may be loaded. -/
theorem ends_search_loading (hloads : Loads m S ρ M n) (h : Loading m P κ M w) {pkg type : Value}
    (hallowed : ∀ node, m.For pkg type node → Allowed S ρ P n node) :
    Ends (search H (m.answers n) pkg type) w
      (fun v w' => Keeps m P κ M w w' ∧ Decided H w'.trace pkg type v)
      fun e w' => (∃ v, e = .thrown v) ∧ Keeps m P κ M w w' := by
  cases hpkg : pkg.asCString with
  | none =>
    rw [search, hpkg]
    exact ends_throw ⟨⟨_, rfl⟩, .refl h⟩
  | some name =>
    have hresolve : ∀ node, m.firstOf ((m.types type.asCString).map (·, name)) = some node →
        Allowed S ρ P n node := fun node hnode => hallowed node ⟨name, hpkg, hnode⟩
    rw [search, hpkg]
    refine ends_bind_of_ok h.shaped.getProp_modules ?_
    cases htype : type.asCString with
    | some t =>
      rw [htype] at hresolve
      refine (ends_searchTyped_loading hloads h fun hsome =>
        hresolve _ (m.firstOf_cons_of_isSome _ hsome)).mono ?_ fun _ _ h => h
      rintro v w' ⟨hkeeps, hstores⟩
      refine ⟨hkeeps, fun name' hname' hhas => ?_⟩
      rw [hpkg] at hname'
      cases hname'
      obtain ⟨l, hl, hin⟩ := hstores hhas
      refine ⟨l, hin, fun t' ht' => ?_⟩
      rw [htype] at ht'
      cases ht'
      exact hl
    | none =>
      rw [htype] at hresolve
      refine ends_bind_of_ok rfl ?_
      rw [h.keys]
      refine ends_bind ((ends_searchKeys_loading hloads h _ (fun key hk => mem_of_mem_enumOrder hk)
        hresolve).mono (fun _ _ h => h) fun _ _ hno => hno.elim) ?_
      rintro found w' ⟨hkeeps, hstores⟩
      cases found with
      | none => exact ends_throw ⟨⟨_, rfl⟩, hkeeps⟩
      | some v =>
        refine ends_pure ⟨hkeeps, fun name' hname' hhas => ?_⟩
        rw [hpkg] at hname'
        cases hname'
        obtain ⟨l, hin⟩ := hstores hhas v rfl
        refine ⟨l, hin, fun t' ht' => ?_⟩
        rw [htype] at ht'
        cases ht'

end Table

/-! ## Bodies -/

/-- A call of `kg_import` with names that are held. -/
theorem ends_kgImport_loading (hloads : Loads m S ρ M n) (h : Loading m P κ M w)
    {held : Held} {pkg type : Value} (hnames : Names held.strings pkg type)
    (hallowed : ∀ node, m.For pkg type node → Allowed S ρ P n node) :
    Ends (kgImport H (m.answers n) held pkg type) w (fun _ => Keeps m P κ M w)
      fun e w' => (∃ v, e = .thrown v) ∧ Keeps m P κ M w w' := by
  generalize hbegin : Event.begins pkg type held.strings = begin
  have hbegins : Loading m P κ M { w with trace := w.trace ++ [begin] } := by
    subst hbegin
    exact h.note rfl (by simp) (by rw [reading_append]; rfl)
  have hread : (reading (w.trace ++ [begin])).begun = (pkg, type) :: (reading w.trace).begun := by
    rw [reading_append, ← hbegin]
    rfl
  have hends := ends_search_loading hloads hbegins hallowed
  rw [kgImport_of_held _ hnames]
  unfold Ends at hends ⊢
  rw [noting, hbegin]
  generalize search H (m.answers n) pkg type { w with trace := w.trace ++ [begin] } = res at hends
  cases res with
  | ok v w' =>
    obtain ⟨⟨κ', hlater, hloading⟩, hdecided⟩ := hends
    obtain ⟨hreturns, hbegun⟩ := hloading.returns (hlater.begun.trans hread) hdecided
    exact ⟨κ', ⟨⟨hlater.grows.size, hlater.grows.role⟩, hlater.table, hbegun⟩, hreturns⟩
  | error e w' =>
    obtain ⟨⟨v, rfl⟩, κ', hlater, hloading⟩ := hends
    refine ⟨⟨v, rfl⟩, κ', ⟨⟨hlater.grows.size, hlater.grows.role⟩, hlater.table, ?_⟩,
      hloading.note rfl (by simp) (by rw [reading_append]; rfl)⟩
    show (reading (w'.trace ++ [_])).begun = _
    rw [reading_append, Reading.step, hlater.begun, hread]
    rfl

/-- **A body keeps what holds while modules are loaded**, when it asks for modules
that may be loaded, by names that are held. -/
theorem ends_script (hloads : Loads m S ρ M n) (body : Body) (h : Loading m P κ M w)
    (hnames : body.HoldsNames)
    (hallowed : ∀ pkg type node, body.Asks pkg type → m.For pkg type node →
      Allowed S ρ P n node) :
    Ends ((body.script (loading m.files n)).run H) w
      (fun r w' => r.2 = true ∧ Keeps m P κ M w w') fun _ _ => False := by
  induction body generalizing κ w with
  | returns v => exact ends_pure ⟨rfl, .refl h⟩
  | newObject k ih =>
    obtain ⟨w', hnew, htrace, hgrows, hloading⟩ := h.newObject
    have hlater : Later κ M w (Function.update κ w.heap.size .other) w' := by
      refine ⟨hgrows, ?_, by rw [htrace]⟩
      cases hnew
      exact Store.get_alloc_old h.shaped.table.1 _
    refine ends_bind_of_ok hnew ((ih _ hloading (hnames _) fun pkg type node hasks =>
      hallowed pkg type node (.inside _ hasks)).mono ?_ fun _ _ hno => hno)
    exact fun _ w'' h => ⟨h.1, h.2.trans hlater⟩
  | imports pkg type held k ih =>
    have hcall := ends_kgImport_loading hloads h hnames.1 fun node => hallowed pkg type node .here
    have hattempt : Ends (attempt (kgImport H (m.answers n) held pkg type)) w
        (fun _ => Keeps m P κ M w) fun _ _ => False := by
      unfold Ends at hcall ⊢
      rw [attempt]
      generalize kgImport H (m.answers n) held pkg type w = res at hcall
      cases res with
      | ok v w' => exact hcall
      | error e w' =>
        obtain ⟨⟨v, rfl⟩, hkeeps⟩ := hcall
        exact hkeeps
    rw [Body.script, Script.run]
    refine ends_bind hattempt ?_
    rintro res w' ⟨κ', hlater, hloading⟩
    refine (ih res hloading (hnames.2 res) fun pkg' type' node hasks =>
      hallowed pkg' type' node (.later res hasks)).mono ?_ fun _ _ hno => hno
    exact fun _ w'' h => ⟨h.1, h.2.trans hlater⟩

/-- **The bodies of modules keep it**, whose imports have a smaller rank. -/
theorem loads (hfalls : ∀ node node', S node → m.Imports node node' → S node' ∧ ρ node' < ρ node)
    (hnames : ∀ node body, S node → m.body node = some body → body.HoldsNames) (n : Nat) :
    Loads m S ρ M n := by
  induction n with
  | zero => exact fun P κ w type name l path body _ hallowed =>
      absurd hallowed.rank (Nat.not_lt_zero _)
  | succ n ih =>
    intro P κ w type name l path body h hallowed hbody hfile
    rw [answers_of_some hfile]
    refine ends_script ih body h (hnames _ _ hallowed.mem hbody) fun pkg ty node hasks hfor => ?_
    obtain ⟨hS, hlt⟩ := hfalls (type, name) node hallowed.mem ⟨body, hbody, pkg, ty, hasks, hfor⟩
    refine ⟨hS, Nat.lt_of_lt_of_le hlt (Nat.le_of_lt_succ hallowed.rank), ?_⟩
    rintro node' (hnode' | rfl)
    · exact Nat.lt_trans hlt (hallowed.below node' hnode')
    · exact hlt

/-! ## Runs -/

/-- While loaders are registered, nothing else goes on. -/
structure Registering (m : Modules H) (T : List (Str × Ptr)) (κ : Layout) (M : Ref) (w : World) :
    Prop where
  shaped : Shaped κ M w
  env : w.env = m.env
  table : tableOf κ M w = T.map fun p => (p.1, ⟨p.2, []⟩)
  trace : ∀ e ∈ w.trace, ∃ l, e = .registers l

namespace Registering

variable {T : List (Str × Ptr)}

theorem register (h : Registering m T κ M w) {l : LoaderPtr} (f : Ptr)
    (hplain : (H.loader l.val).moduleType.val ≠ text "__proto__") :
    ∃ κ' w', Module.register H l.val f w = .ok () w' ∧
      Registering m (Assoc.insert T (H.loader l.val).moduleType.val l.val) κ' M w' := by
  refine ⟨_, _, register_eq h.shaped hplain, h.shaped.registered _ l.property f, h.env, ?_, ?_⟩
  · rw [tableOf_registered h.shaped, h.table]
    exact (Assoc.map_insert (fun p => Row.mk p []) T _ l.val).symm
  · intro e he
    rcases List.mem_append.mp he with he | he
    · exact h.trace e he
    · exact ⟨_, List.mem_singleton.mp he⟩

/-- When all loaders are registered, no module is loaded or being loaded. -/
theorem loading (h : Registering m m.table κ M w) : Loading m (fun _ => False) κ M w := by
  have heval : evaluations H m.files w.trace = [] := by
    refine List.filterMap_eq_nil_iff.mpr fun e he => ?_
    obtain ⟨l, rfl⟩ := h.trace e he
    rfl
  have hread : ∀ trace : List Event, (∀ e ∈ trace, ∃ l, e = .registers l) → ∀ s,
      trace.foldl Reading.step s = s := by
    intro trace
    induction trace with
    | nil => exact fun _ _ => rfl
    | cons e trace ih =>
      intro hall s
      obtain ⟨l, rfl⟩ := hall e (List.mem_cons_self ..)
      exact ih (fun e' he' => hall e' (List.mem_cons_of_mem _ he')) s
  have hcache : ∀ node, cacheOf (tableOf κ M w) node = none := by
    intro node
    rw [h.table, cacheOf, Assoc.find?_map fun p => Row.mk p []]
    cases Assoc.find? m.table node.1 <;> rfl
  refine ⟨h.shaped, h.env, ?_, ?_, ?_, fun _ hP => hP.elim, fun node v => ?_, ?_⟩
  · rw [h.table, List.map_map]
    exact List.map_id _
  · rw [heval]
    exact List.nodup_nil
  · rw [heval]
    exact fun _ hin => absurd hin List.not_mem_nil
  · rw [hcache]
    refine ⟨fun hv => (by cases hv), ?_⟩
    rintro ⟨l, -, hin⟩
    obtain ⟨l', heq⟩ := h.trace _ hin
    cases heq
  · rw [reading, hread w.trace h.trace]
    exact fun _ _ _ hin => absurd hin List.not_mem_nil

end Registering

/-- The loaders of `init` are registered. -/
theorem ends_registerFirst (h : Registering m [] κ M w) :
    Ends (registerFirst H m.js.val (m.c.map Subtype.val)) w
      (fun _ w' => ∃ κ', Registering m ((m.js :: m.c.toList).foldl
        (fun T (l : LoaderPtr) => Assoc.insert T (H.loader l).moduleType.val l.val) []) κ' M w')
      fun _ _ => False := by
  obtain ⟨κ', w', hjs, h'⟩ := h.register H.jsDestory (m.plain m.js (List.mem_cons_self ..))
  refine ends_bind_of_ok hjs ?_
  cases hc : m.c with
  | none => exact ends_pure ⟨κ', h'⟩
  | some c =>
    have hplain := m.plain c (by rw [hc]; simp)
    obtain ⟨κ'', w'', hregister, h''⟩ := h'.register H.cDestory hplain
    exact ends_of_ok hregister ⟨κ'', h''⟩

/-- Loaders are registered, and the script goes on. -/
theorem ends_registerAll {T : List (Str × Ptr)} (h : Registering m T κ M w)
    (loaders : List (LoaderPtr × Ptr))
    (hplain : ∀ l ∈ loaders.map Prod.fst, (H.loader l.val).moduleType.val ≠ text "__proto__")
    {s : Script} {Q : Value × Bool → World → Prop} {E : Fault → World → Prop}
    (hs : ∀ κ' w', Registering m ((loaders.map Prod.fst).foldl
      (fun T (l : LoaderPtr) => Assoc.insert T (H.loader l).moduleType.val l.val) T) κ' M w' →
        Ends (s.run H) w' Q E) :
    Ends ((Modules.registerAll loaders s).run H) w Q E := by
  induction loaders generalizing T κ w with
  | nil => exact hs κ w h
  | cons l rest ih =>
    obtain ⟨κ', w', hregister, h'⟩ := h.register l.2 (hplain l.1 (List.mem_cons_self ..))
    show Ends (Script.run H (.registers l.1 l.2 (Modules.registerAll rest s))) w Q E
    rw [Script.run, registerLoader_eq]
    refine ends_bind_of_ok ((bind_of_ok hregister _).trans rfl) ?_
    exact ih h' (fun l' hl' => hplain l' (List.mem_cons_of_mem _ hl')) hs

/-- What holds while modules are loaded says that each was evaluated once. -/
theorem Loading.once_trace (h : Loading m P κ M w) : Once H m.files w.trace where
  evaluated := h.once
  identical l l' pkg v v' hv hv' htype := by
    have hfirst := (h.stored ((H.loader l).moduleType.val, pkg) v).mpr ⟨l, rfl, hv⟩
    have hsecond := (h.stored ((H.loader l).moduleType.val, pkg) v').mpr ⟨l', htype.symm, hv'⟩
    exact Option.some_injective _ (hfirst.symm.trans hsecond)
  decided := h.decided

/-- **Each module body runs at most once**, and what is decided by a type of modules
is one object: in every program that imports modules of a finite set, which import
each other without a cycle, by names that are held while the call runs. Imports nested
as deep as there are modules are enough. -/
theorem modules_once (H : Host) (m : Modules H) (program : Body) (S : Finset Node) (n : Nat)
    (hprogram : ∀ pkg type node, program.Asks pkg type → m.For pkg type node → node ∈ S)
    (hclosed : ∀ node ∈ S, ∀ node', m.Imports node node' → node' ∈ S)
    (hacyclic : ∀ node ∈ S, ¬ Relation.TransGen m.Imports node node) (hn : S.card ≤ n)
    (hnames : program.HoldsNames)
    (hbodies : ∀ node ∈ S, ∀ body, m.body node = some body → body.HoldsNames) :
    ∃ r w', m.run program n = .ok r w' ∧ Once H m.files w'.trace := by
  have hfalls : ∀ node node', node ∈ S → m.Imports node node' →
      node' ∈ S ∧ rank m.Imports S node' < rank m.Imports S node := fun node node' hS himports =>
    have hS' := hclosed node hS node' himports
    ⟨hS', rank_lt hacyclic hS' himports⟩
  have hstart : Registering m [] newLayout 1 (newTable m.env) :=
    ⟨.newTable m.env, rfl, rfl, fun _ he => absurd he List.not_mem_nil⟩
  have hends : Ends (registerFirst H m.js.val (m.c.map Subtype.val) >>= fun _ =>
      (Modules.registerAll m.others (program.script (loading m.files n))).run H) (newTable m.env)
      (fun _ w' => Once H m.files w'.trace) fun _ _ => False := by
    refine ends_bind (ends_registerFirst hstart) ?_
    rintro _ w ⟨κ, hfirst⟩
    refine ends_registerAll hfirst m.others (fun l hl => m.plain l ?_) fun κ' w' hregistering => ?_
    · exact List.mem_cons_of_mem _ (List.mem_append_right _ hl)
    have htable : Registering m m.table κ' 1 w' := by
      rw [Modules.table, List.foldl_append]
      exact hregistering
    have hloads : Loads m (· ∈ S) (rank m.Imports S) 1 n :=
      loads hfalls (fun node body hS hbody => hbodies node hS body hbody) n
    refine (ends_script hloads program htable.loading hnames
      fun pkg type node hasks hfor => ?_).mono ?_ fun _ _ hno => hno
    · have hS := hprogram pkg type node hasks hfor
      exact ⟨hS, Nat.lt_of_lt_of_le (rank_lt_card hacyclic hS) hn, fun _ hP => hP.elim⟩
    · rintro r w'' ⟨-, κ'', -, hloading⟩
      exact hloading.once_trace
  rw [Modules.run, history_create]
  unfold Ends at hends
  generalize (registerFirst H m.js.val (m.c.map Subtype.val) >>= fun _ =>
    (Modules.registerAll m.others (program.script (loading m.files n))).run H)
      (newTable m.env) = res at hends ⊢
  cases res with
  | ok r w' => exact ⟨r, w', rfl, hends⟩
  | error e w' => exact hends.elim

/-- `b.js` exports an object, and so does `a.js`, which imports `b` first. -/
def modulesAB : Modules (.initial fun _ => JsLoader.loader) where
  env _ := some (text "/lib")
  files _ path :=
    if path = text "/lib/a.js" then
      some (.imports (.string (text "b")) .undefined (.of [text "b"]) fun _ =>
        .newObject fun r => .returns ⟨.object r, rfl⟩)
    else if path = text "/lib/b.js" then some (.newObject fun r => .returns ⟨.object r, rfl⟩)
    else none
  js := ⟨1, by decide⟩
  c := none
  others := []
  plain l hl := by
    rw [List.mem_singleton.mp hl]
    decide

/-- `kg_import("a", "js")` and `kg_import("b")`, with literals. -/
def programAB : Body :=
  .imports (.string (text "a")) (.string (text "js")) (.of [text "a", text "js"]) fun _ =>
  .imports (.string (text "b")) .undefined (.of [text "b"]) fun _ =>
  .returns ⟨.object World.global, rfl⟩

/-- Literals are held. -/
theorem names_literal {strings : List Str} {s : Str} (hs : s ∈ strings) {type : Value}
    (htype : ∀ t, type = .string t → t ∈ strings) :
    Names (Held.of strings).strings (.string s) type :=
  ⟨fun _ hp => Value.string.inj hp ▸ List.mem_append_left _ hs,
    fun t ht => List.mem_append_left _ (htype t ht)⟩

/-- What a request is for. -/
theorem eq_of_for {pkg : Str} {type : Value} {node node' : Node}
    (hresolve : m.resolve (cString pkg) type.asCString = some node')
    (h : m.For (.string pkg) type node) : node = node' := by
  obtain ⟨name, ⟨⟩, hname⟩ := h
  exact Option.some_injective _ (hname.symm.trans hresolve)

/-- The module `b` is imported by `a` and by the program. -/
theorem modules_once_ab : ∃ r w', modulesAB.run programAB 2 = .ok r w' ∧
    Once (.initial fun _ => JsLoader.loader) modulesAB.files w'.trace := by
  have hforA : ∀ node, modulesAB.For (.string (text "a")) (.string (text "js")) node →
      node = (text "js", text "a") := fun node => eq_of_for (by decide +kernel)
  have hforB : ∀ node, modulesAB.For (.string (text "b")) .undefined node →
      node = (text "js", text "b") := fun node => eq_of_for (by decide +kernel)
  have hfromA : ∀ node, modulesAB.Imports (text "js", text "a") node →
      node = (text "js", text "b") := by
    rintro node ⟨body, hbody, pkg, type, hasks, hnode⟩
    cases hbody
    rcases hasks with _ | ⟨res, _ | _ | ⟨r, ⟨⟩⟩⟩
    exact hforB node hnode
  have hfromB : ∀ node, ¬ modulesAB.Imports (text "js", text "b") node := by
    rintro node ⟨body, hbody, pkg, type, hasks, hnode⟩
    cases hbody
    rcases hasks with _ | _ | ⟨r, ⟨⟩⟩
  have hAB : (text "js", text "a") ≠ (text "js", text "b") := by decide
  refine modules_once _ modulesAB programAB {(text "js", text "a"), (text "js", text "b")} 2
    ?_ ?_ ?_ Finset.card_le_two ?_ ?_
  · intro pkg type node hasks hnode
    rcases hasks with _ | ⟨res, _ | ⟨res', ⟨⟩⟩⟩
    · rw [hforA node hnode]
      simp
    · rw [hforB node hnode]
      simp
  · intro node hS node' himports
    rcases Finset.mem_insert.mp hS with rfl | hB
    · rw [hfromA node' himports]
      simp
    · rw [Finset.mem_singleton.mp hB] at himports
      exact absurd himports (hfromB node')
  · intro node hS hcycle
    obtain ⟨node', himports, hback⟩ := Relation.TransGen.head'_iff.mp hcycle
    rcases Finset.mem_insert.mp hS with rfl | hB
    · rw [hfromA node' himports] at hback
      rcases Relation.ReflTransGen.cases_head hback with heq | ⟨node'', himports', -⟩
      · exact hAB heq.symm
      · exact hfromB node'' himports'
    · rw [Finset.mem_singleton.mp hB] at himports
      exact hfromB node' himports
  · refine ⟨names_literal (by decide) fun t ht => ?_, fun _ =>
      ⟨names_literal (by decide) fun t ht => (by cases ht), fun _ => trivial⟩⟩
    cases ht
    decide
  · intro node hS body hbody
    rcases Finset.mem_insert.mp hS with rfl | hB
    · cases hbody
      exact ⟨names_literal (by decide) fun t ht => (by cases ht), fun _ _ => trivial⟩
    · rw [Finset.mem_singleton.mp hB] at hbody
      cases hbody
      exact fun _ => trivial

/-- `my.js` exports an object. -/
def modulesMy : Modules (.initial fun _ => JsLoader.loader) where
  env _ := some (text "/lib")
  files _ path :=
    if path = text "/lib/my.js" then some (.newObject fun r => .returns ⟨.object r, rfl⟩)
    else none
  js := ⟨1, by decide⟩
  c := none
  others := []
  plain l hl := by
    rw [List.mem_singleton.mp hl]
    decide

/-- `kg_import(["m", "y"].join(""), "js")`: of the names, only literals are held. -/
def programMy : Body :=
  .imports (.string (text "my")) (.string (text "js")) (.of [text "m", text "y", text "js"])
    fun _ => .returns ⟨.object World.global, rfl⟩

/-- A name that is made when the program runs is freed, and read: the module, which
imports nothing, is not imported. -/
theorem modules_once_freed :
    (∀ pkg type node, programMy.Asks pkg type → modulesMy.For pkg type node →
      node = (text "js", text "my")) ∧
    (∀ node, ¬ modulesMy.Imports (text "js", text "my") node) ∧
    readsFreed (modulesMy.run programMy 1) = true ∧
    ¬ ∃ r w', modulesMy.run programMy 1 = .ok r w' ∧
      Once (.initial fun _ => JsLoader.loader) modulesMy.files w'.trace := by
  have hreads : readsFreed (modulesMy.run programMy 1) = true := by decide +kernel
  refine ⟨?_, ?_, hreads, ?_⟩
  · intro pkg type node hasks hfor
    rcases hasks with _ | ⟨res, ⟨⟩⟩
    exact eq_of_for (by decide +kernel) hfor
  · rintro node ⟨body, hbody, pkg, type, hasks, hnode⟩
    cases hbody
    rcases hasks with _ | _ | ⟨r, ⟨⟩⟩
  · rintro ⟨r, w', hrun, -⟩
    rw [hrun] at hreads
    cases hreads

end KgCpp.Scripts.Module
