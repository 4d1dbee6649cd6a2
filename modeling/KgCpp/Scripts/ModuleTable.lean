import KgCpp.Scripts.ModuleSearch

/-!
# The objects of the module system

Which objects of a heap belong to the module system, and what for, is told by a
layout: a `Role` for each reference. `Shaped` says that the objects are as their
roles want them. It is what every operation here keeps: a loader may make
objects, `import_pkg` writes to objects that hold modules, and `register_loader`
makes an entry and its object for modules.

With names that `Object.prototype` does not have, reading the objects is reading
the table (`searchTyped_eq`, `searchEntry_eq`).
-/

namespace KgCpp.Scripts

open Lib

namespace Module

/-- What an object is for: the global object, the table, an entry of the table
with its loader and its free function, the modules of an entry, or something
else. -/
inductive Role where
  | globals
  | table
  | entry (type : Str) (loader fft : Ptr) (libs : Ref)
  | libs (type : Str)
  | other
deriving DecidableEq, Repr

/-- A layout of the heap. -/
abbrev Layout := Ref → Role

/-- The properties of an entry. -/
def entryProps (loader fft : Ptr) (libs : Ref) : List (Str × Value) :=
  [(keyLoader, .pointer loader), (keyDestory, .pointer fft), (keyLibs, .object libs)]

/-- An object is as its role wants it; `M` is the table. -/
def Fits (κ : Layout) (M : Ref) (w : World) (r : Ref) : Role → Prop
  | .globals => r = World.global ∧ w.own r keyModules = some (.object M)
  | .table => r = M ∧ ((w.heap.get r).props.map Prod.fst).Nodup ∧
      ∀ p ∈ (w.heap.get r).props, ∃ E l f L, p.2 = .object E ∧ E < w.heap.size ∧
        κ E = .entry p.1 l f L
  | .entry type loader fft libs => (w.heap.get r).props = entryProps loader fft libs ∧
      loader ≠ 0 ∧ libs < w.heap.size ∧ κ libs = .libs type
  | .libs _ => True
  | .other => True

/-- The heap has the layout `κ`, with the table `M`. -/
structure Shaped (κ : Layout) (M : Ref) (w : World) : Prop where
  globals : World.global < w.heap.size ∧ κ World.global = .globals
  table : M < w.heap.size ∧ κ M = .table
  proto : ∀ r, (w.heap.get r).proto = objectPrototype
  fits : ∀ r < w.heap.size, Fits κ M w r (κ r)

variable {H : Host} {κ κ' : Layout} {M : Ref} {w w' : World}

theorem Host.free (H : Host) {name : Str}
    (h : name ∈ [keyModules, keyLoader, keyDestory, keyLibs]) :
    H.prototype.has name = false := H.unused name h

/-! ## Reading -/

namespace Shaped

theorem modules (h : Shaped κ M w) : w.own World.global keyModules = some (.object M) := by
  have hfits := h.fits _ h.globals.1
  rw [h.globals.2] at hfits
  exact hfits.2

theorem table_ne_global (h : Shaped κ M w) : M ≠ World.global := by
  intro heq
  have hrole := h.table.2
  rw [heq, h.globals.2] at hrole
  cases hrole

theorem table_nodup (h : Shaped κ M w) : ((w.heap.get M).props.map Prod.fst).Nodup := by
  have hfits := h.fits _ h.table.1
  rw [h.table.2] at hfits
  exact hfits.2.1

/-- What is in the table is an entry. -/
theorem entry_of_mem (h : Shaped κ M w) {p : Str × Value} (hp : p ∈ (w.heap.get M).props) :
    ∃ E l f L, p.2 = .object E ∧ E < w.heap.size ∧ κ E = .entry p.1 l f L := by
  have hfits := h.fits _ h.table.1
  rw [h.table.2] at hfits
  exact hfits.2.2 p hp

theorem entry_of_own (h : Shaped κ M w) {key : Str} {v : Value} (hv : w.own M key = some v) :
    ∃ E l f L, v = .object E ∧ E < w.heap.size ∧ κ E = .entry key l f L :=
  h.entry_of_mem (Assoc.mem_of_find? hv)

/-- The entry under a key. -/
theorem entry_of_key (h : Shaped κ M w) {type : Str}
    (htype : type ∈ (w.heap.get M).props.map Prod.fst) :
    ∃ E l f L, w.own M type = some (.object E) ∧ E < w.heap.size ∧ κ E = .entry type l f L := by
  obtain ⟨v, hv⟩ := Option.ne_none_iff_exists'.mp fun hnone =>
    Assoc.find?_eq_none_iff.mp hnone htype
  obtain ⟨E, l, f, L, rfl, hE, hrole⟩ := h.entry_of_own hv
  exact ⟨E, l, f, L, hv, hE, hrole⟩

variable {E : Ref} {type : Str} {l f : Ptr} {L : Ref}

/-- An entry has its loader, its free function and its modules. -/
theorem entry (h : Shaped κ M w) (hE : E < w.heap.size) (hrole : κ E = .entry type l f L) :
    (w.heap.get E).props = entryProps l f L ∧ l ≠ 0 ∧ L < w.heap.size ∧ κ L = .libs type := by
  have hfits := h.fits E hE
  rw [hrole] at hfits
  exact hfits

theorem own_entry (h : Shaped κ M w) (hE : E < w.heap.size) (hrole : κ E = .entry type l f L) :
    w.own E keyLoader = some (.pointer l) ∧ w.own E keyDestory = some (.pointer f) ∧
      w.own E keyLibs = some (.object L) := by
  have hprops := (h.entry hE hrole).1
  refine ⟨?_, ?_, ?_⟩ <;> rw [World.own, hprops] <;> rfl

/-- A name that is not inherited is found where it is an own property. -/
theorem get (h : Shaped κ M w) {P : ObjectPrototype} (r : Ref) {name : Str}
    (hname : P.has name = false) : w.get P r name = w.own r name :=
  World.get_of_plain (h.proto r) hname

/-- Reading the table. -/
theorem getProp_modules (h : Shaped κ M w) :
    getProp H.prototype (.object World.global) keyModules w = .ok (some (.object M)) w :=
  getProp_of_get ((h.get _ (H.free (by simp))).trans h.modules)

/-- Reading the modules of an entry. -/
theorem getProp_libs (h : Shaped κ M w) (hE : E < w.heap.size)
    (hrole : κ E = .entry type l f L) :
    getProp H.prototype (.object E) keyLibs w = .ok (some (.object L)) w :=
  getProp_of_get ((h.get E (H.free (by simp))).trans (h.own_entry hE hrole).2.2)

/-- Reading the loader of an entry. -/
theorem getProp_loader (h : Shaped κ M w) (hE : E < w.heap.size)
    (hrole : κ E = .entry type l f L) :
    getProp H.prototype (.object E) keyLoader w = .ok (some (.pointer l)) w :=
  getProp_of_get ((h.get E (H.free (by simp))).trans (h.own_entry hE hrole).1)

/-- The modules of an entry. -/
theorem libs_ne (h : Shaped κ M w) (hrole : κ L = .libs type) : L ≠ World.global ∧ L ≠ M := by
  constructor
  · rintro rfl
    rw [h.globals.2] at hrole
    cases hrole
  · rintro rfl
    rw [h.table.2] at hrole
    cases hrole

end Shaped

/-- Look a module up in the modules `L` of an entry whose loader is `l`. -/
def searchLibs (H : Host) (imp : ModuleImport) (l : Ptr) (L : Ref) (pkg : Str) :
    Action Fault World (Option Value) := fun w =>
  match w.own L pkg with
  | some v => .ok (some v) w
  | none => searchLoader H imp l (.object L) pkg w

/-- An entry of the table is searched. -/
theorem searchEntry_eq (h : Shaped κ M w) (imp : ModuleImport) {E : Ref} {type pkg : Str}
    {l f : Ptr} {L : Ref} (hE : E < w.heap.size) (hrole : κ E = .entry type l f L)
    (hpkg : w.get H.prototype L pkg = w.own L pkg) :
    searchEntry H imp (.object E) pkg w = searchLibs H imp l L pkg w := by
  have hl : l ≠ 0 := (h.entry hE hrole).2.1
  rw [searchEntry, bind_of_ok (h.getProp_libs hE hrole)]
  dsimp only
  rw [bind_of_ok (getProp_of_get hpkg), searchLibs]
  cases w.own L pkg with
  | some v => rfl
  | none =>
    dsimp only
    rw [bind_of_ok (h.getProp_loader hE hrole)]
    exact congrFun (if_neg hl) w

/-- The table is searched with a type it has no entry for. -/
theorem searchTyped_none (imp : ModuleImport) {key : Str} (pkg : Str)
    (hkey : w.get H.prototype M key = none) :
    searchTyped H imp (.object M) key pkg w = .error (.thrown (noLoader key)) w := by
  rw [searchTyped, bind_of_ok (getProp_of_get hkey)]
  rfl

/-- The table is searched with a type it has an entry for. -/
theorem searchTyped_eq (h : Shaped κ M w) (imp : ModuleImport) {E : Ref} {key pkg : Str}
    {l f : Ptr} {L : Ref} (hown : w.own M key = some (.object E)) (hE : E < w.heap.size)
    (hrole : κ E = .entry key l f L) (hpkg : w.get H.prototype L pkg = w.own L pkg) :
    searchTyped H imp (.object M) key pkg w =
      (searchLibs H imp l L pkg >>= fun found =>
        found.elim (throw (.thrown (noLoaderModule key pkg))) pure) w := by
  have hl : l ≠ 0 := (h.entry hE hrole).2.1
  rw [searchTyped, bind_of_ok (getProp_of_get (World.get_of_own hown))]
  dsimp only
  rw [bind_of_ok (h.getProp_libs hE hrole)]
  dsimp only
  rw [bind_of_ok (getProp_of_get hpkg)]
  cases hpkgOwn : w.own L pkg with
  | some v =>
    have hfound : searchLibs H imp l L pkg w = .ok (some v) w := by
      rw [searchLibs, hpkgOwn]
    rw [bind_of_ok hfound]
    rfl
  | none =>
    dsimp only
    rw [bind_of_ok (h.getProp_loader hE hrole)]
    have hsame : searchLibs H imp l L pkg w = searchLoader H imp l (.object L) pkg w := by
      rw [searchLibs, hpkgOwn]
    dsimp only
    rw [if_neg (show (Value.pointer l).asPointer ≠ 0 from hl)]
    refine bind_eq_bind hsame.symm fun found w' => ?_
    cases found <;> rfl

section Found

variable {E : Ref} {key pkg : Str} {l f : Ptr} {L : Ref} {v : Value}

/-- An entry is searched for a name that its modules have, or inherit. -/
theorem searchEntry_of_get (h : Shaped κ M w) (imp : ModuleImport) (hE : E < w.heap.size)
    (hrole : κ E = .entry key l f L) (hv : w.get H.prototype L pkg = some v) :
    searchEntry H imp (.object E) pkg w = .ok (some v) w := by
  rw [searchEntry, bind_of_ok (h.getProp_libs hE hrole)]
  exact bind_of_ok (getProp_of_get hv) _

/-- The table is searched for such a name. -/
theorem searchTyped_of_get (h : Shaped κ M w) (imp : ModuleImport)
    (hown : w.own M key = some (.object E)) (hE : E < w.heap.size)
    (hrole : κ E = .entry key l f L) (hv : w.get H.prototype L pkg = some v) :
    searchTyped H imp (.object M) key pkg w = .ok v w := by
  rw [searchTyped, bind_of_ok (getProp_of_get (World.get_of_own hown))]
  dsimp only
  rw [bind_of_ok (h.getProp_libs hE hrole)]
  exact bind_of_ok (getProp_of_get hv) _

/-- The table is searched with a type that has no entry: even an inherited one has
no modules. -/
theorem searchTyped_throws (h : Shaped κ M w) (imp : ModuleImport) (pkg : Str)
    (hown : w.own M key = none) :
    ∃ v, searchTyped H imp (.object M) key pkg w = .error (.thrown v) w := by
  by_cases hkey : H.prototype.has key = true
  · obtain ⟨s, hs⟩ := World.get_of_has (h.proto M) hown hkey
    have hgetLibs : getProp H.prototype (.builtin s) keyLibs w = .ok none w := by
      show (pure (if H.prototype.has keyLibs = true then _ else _) : Action Fault World _) w = _
      rw [H.free (by simp)]
      rfl
    refine ⟨notLibs key, ?_⟩
    rw [searchTyped, bind_of_ok (getProp_of_get hs)]
    exact bind_of_ok hgetLibs _
  · refine ⟨noLoader key, searchTyped_none imp pkg ?_⟩
    rw [h.get M (by simpa using hkey), hown]

end Found

/-! ## Writing -/

/-- A heap grows: the objects there are keep their roles. -/
structure Grows (κ : Layout) (w : World) (κ' : Layout) (w' : World) : Prop where
  size : w.heap.size ≤ w'.heap.size
  role : ∀ r < w.heap.size, κ' r = κ r

theorem Grows.refl (κ : Layout) (w : World) : Grows κ w κ w := ⟨Nat.le_refl _, fun _ _ => rfl⟩

theorem Grows.trans {κ'' : Layout} {w'' : World} (h : Grows κ w κ' w')
    (h' : Grows κ' w' κ'' w'') : Grows κ w κ'' w'' where
  size := Nat.le_trans h.size h'.size
  role r hr := (h'.role r (Nat.lt_of_lt_of_le hr h.size)).trans (h.role r hr)

/-- An object that stays as it is keeps fitting its role. -/
theorem Fits.mono {r : Ref} {role : Role} (h : Fits κ M w r role) (hgrows : Grows κ w κ' w')
    (hobj : w'.heap.get r = w.heap.get r) : Fits κ' M w' r role := by
  cases role with
  | globals => exact ⟨h.1, by rw [World.own, hobj]; exact h.2⟩
  | table =>
    refine ⟨h.1, by rw [hobj]; exact h.2.1, fun p hp => ?_⟩
    rw [hobj] at hp
    obtain ⟨E, l, f, L, hv, hE, hrole⟩ := h.2.2 p hp
    exact ⟨E, l, f, L, hv, Nat.lt_of_lt_of_le hE hgrows.size, (hgrows.role E hE).trans hrole⟩
  | entry type loader fft libs =>
    obtain ⟨hprops, hne, hlt, hrole⟩ := h
    exact ⟨by rw [hobj]; exact hprops, hne, Nat.lt_of_lt_of_le hlt hgrows.size,
      (hgrows.role libs hlt).trans hrole⟩
  | libs type => trivial
  | other => trivial

namespace Shaped

/-- Only the heap matters. -/
theorem of_heap (h : Shaped κ M w) (hheap : w'.heap = w.heap) : Shaped κ M w' := by
  have hgrows : Grows κ w κ w' := ⟨by rw [hheap], fun _ _ => rfl⟩
  refine ⟨by rw [hheap]; exact h.globals, by rw [hheap]; exact h.table,
    by rw [hheap]; exact h.proto, fun r hr => ?_⟩
  rw [hheap] at hr
  exact (h.fits r hr).mono hgrows (by rw [hheap])

/-- A heap that grows, whose old objects stay or still fit, and whose new ones
fit. -/
theorem grow (h : Shaped κ M w) (hgrows : Grows κ w κ' w')
    (hproto : ∀ r, (w'.heap.get r).proto = objectPrototype)
    (hold : ∀ r < w.heap.size, w'.heap.get r = w.heap.get r ∨ Fits κ' M w' r (κ r))
    (hnew : ∀ r < w'.heap.size, w.heap.size ≤ r → Fits κ' M w' r (κ' r)) : Shaped κ' M w' := by
  refine ⟨⟨Nat.lt_of_lt_of_le h.globals.1 hgrows.size,
      (hgrows.role _ h.globals.1).trans h.globals.2⟩,
    ⟨Nat.lt_of_lt_of_le h.table.1 hgrows.size, (hgrows.role _ h.table.1).trans h.table.2⟩,
    hproto, fun r hr => ?_⟩
  by_cases hlt : r < w.heap.size
  · rw [hgrows.role r hlt]
    rcases hold r hlt with hsame | hfits
    · exact (h.fits r hlt).mono hgrows hsame
    · exact hfits
  · exact hnew r hr (Nat.le_of_not_lt hlt)

/-- A loader makes an object. -/
theorem newObject (h : Shaped κ M w) :
    ∃ w', newObject w = .ok w.heap.size w' ∧ w'.trace = w.trace ∧
      Shaped (Function.update κ w.heap.size .other) M w' ∧
      Grows κ w (Function.update κ w.heap.size .other) w' ∧
      ∀ r < w.heap.size, w'.heap.get r = w.heap.get r := by
  have hold : ∀ r < w.heap.size, (w.heap.alloc .empty).get r = w.heap.get r := fun r hr =>
    Store.get_alloc_old hr _
  have hgrows : Grows κ w (Function.update κ w.heap.size .other)
      { w with heap := w.heap.alloc .empty } := by
    refine ⟨by rw [Store.size_alloc]; exact Nat.le_succ _, fun r hr => ?_⟩
    exact Function.update_of_ne (Nat.ne_of_lt hr) ..
  refine ⟨_, rfl, rfl, h.grow hgrows (fun r => ?_) (fun r hr => .inl (hold r hr))
    (fun r hr hle => ?_), hgrows, hold⟩
  · rcases Nat.lt_trichotomy r w.heap.size with hlt | rfl | hgt
    · show ((w.heap.alloc .empty).get r).proto = _
      rw [hold r hlt]
      exact h.proto r
    · show ((w.heap.alloc .empty).get w.heap.size).proto = _
      rw [Store.get_alloc_new]
      rfl
    · show ((w.heap.alloc .empty).get r).proto = _
      rw [Store.get_of_size_le (by rw [Store.size_alloc]; exact hgt)]
      rfl
  · rw [Store.size_alloc] at hr
    rw [Nat.le_antisymm (Nat.le_of_lt_succ hr) hle, Function.update_self]
    trivial

/-- The modules of an entry change. -/
theorem setLibs (h : Shaped κ M w) {L : Ref} {type : Str} (hL : L < w.heap.size)
    (hrole : κ L = .libs type) {props : List (Str × Value)}
    (hheap : w'.heap = w.heap.set L { w.heap.get L with props := props }) : Shaped κ M w' := by
  have hgrows : Grows κ w κ w' :=
    ⟨by rw [hheap, Store.size_set], fun _ _ => rfl⟩
  refine h.grow hgrows (fun r => ?_) (fun r hr => ?_) fun r hr hle => ?_
  · by_cases hr : r = L
    · rw [hheap, hr, Store.get_set_self hL]
      exact h.proto L
    · rw [hheap, Store.get_set_ne hr]
      exact h.proto r
  · by_cases hr : r = L
    · rw [hr, hrole]
      exact .inr trivial
    · exact .inl (by rw [hheap, Store.get_set_ne hr])
  · rw [hheap, Store.size_set] at hr
    exact absurd hr (Nat.not_lt.mpr hle)

end Shaped

/-! ## Registering -/

/-- The object that `register_loader` makes for an entry. -/
def entryObj (l f : Ptr) (L : Ref) : Obj := ⟨entryProps l f L, objectPrototype, none⟩

theorem newEntry_eq (hpos : 0 < w.heap.size) (l f : Ptr) :
    newEntry H l f w = .ok w.heap.size
      { w with heap := (w.heap.alloc (entryObj l f (w.heap.size + 1))).alloc .empty } := by
  have hne : w.heap.size ≠ World.global := Nat.pos_iff_ne_zero.mp hpos
  -- writing to the object that was made last, or last but one
  have hlast : ∀ (o : Obj) name v, o.proto = objectPrototype → name ≠ text "__proto__" →
      setProp H.prototype (.object w.heap.size) name v { w with heap := w.heap.alloc o } =
        .ok () { w with
          heap := w.heap.alloc { o with props := Assoc.insert o.props name v } } := by
    intro o name v hproto hname
    have hget : (w.heap.alloc o).get w.heap.size = o := Store.get_alloc_new ..
    rw [setProp_of_plain hne (by rw [hget]; exact hproto) hname]
    unfold World.define World.update
    dsimp only
    rw [hget, Store.set_alloc_new]
  have hsecond : ∀ (o : Obj) name v, o.proto = objectPrototype → name ≠ text "__proto__" →
      setProp H.prototype (.object w.heap.size) name v
          { w with heap := (w.heap.alloc o).alloc .empty } =
        .ok () { w with heap := (w.heap.alloc
          { o with props := Assoc.insert o.props name v }).alloc .empty } := by
    intro o name v hproto hname
    have hlt : w.heap.size < (w.heap.alloc o).size := by
      rw [Store.size_alloc]
      exact Nat.lt_succ_self _
    have hget : ((w.heap.alloc o).alloc .empty).get w.heap.size = o := by
      rw [Store.get_alloc_old hlt, Store.get_alloc_new]
    rw [setProp_of_plain hne (by rw [hget]; exact hproto) hname]
    unfold World.define World.update
    dsimp only
    rw [hget, Store.set_alloc_old hlt, Store.set_alloc_new]
  have hmake : newObject w = .ok w.heap.size { w with heap := w.heap.alloc .empty } := rfl
  have hmake' : ∀ o : Obj, newObject { w with heap := w.heap.alloc o } =
      .ok (w.heap.size + 1) { w with heap := (w.heap.alloc o).alloc .empty } := fun o => by
    rw [← Store.size_alloc w.heap o]
    rfl
  rw [newEntry, bind_of_ok hmake, bind_of_ok (hlast .empty keyLoader (.pointer l) rfl (by decide)),
    bind_of_ok (hlast _ keyDestory (.pointer f) rfl (by decide)), bind_of_ok (hmake' _),
    bind_of_ok (hsecond _ keyLibs (.object (w.heap.size + 1)) rfl (by decide))]
  rfl

/-- What the function that frees a loader is called with when its entry is
replaced. -/
def replaced (κ : Layout) (v : Option Value) : List (Ptr × Ptr) :=
  match v with
  | some (.object E) =>
    match κ E with
    | .entry _ l f _ => if f = 0 then [] else [(f, l)]
    | _ => []
  | _ => []

/-- The heap with a new entry and its object for modules. -/
def entryHeap (heap : Store Obj) (l f : Ptr) : Store Obj :=
  (heap.alloc (entryObj l f (heap.size + 1))).alloc .empty

theorem size_entryHeap (heap : Store Obj) (l f : Ptr) :
    (entryHeap heap l f).size = heap.size + 1 + 1 := by
  rw [entryHeap, Store.size_alloc, Store.size_alloc]

theorem get_entryHeap_old {heap : Store Obj} {r : Ref} (hr : r < heap.size) (l f : Ptr) :
    (entryHeap heap l f).get r = heap.get r := by
  rw [entryHeap, Store.get_alloc_old (by rw [Store.size_alloc]; exact Nat.lt_succ_of_lt hr),
    Store.get_alloc_old hr]

theorem get_entryHeap_entry (heap : Store Obj) (l f : Ptr) :
    (entryHeap heap l f).get heap.size = entryObj l f (heap.size + 1) := by
  rw [entryHeap, Store.get_alloc_old (by rw [Store.size_alloc]; exact Nat.lt_succ_self _),
    Store.get_alloc_new]

/-- Behind the entry there are objects without properties only. -/
theorem get_entryHeap_new {heap : Store Obj} {r : Ref} (hr : heap.size < r) (l f : Ptr) :
    (entryHeap heap l f).get r = .empty := by
  have hlast := Store.get_alloc_new (heap.alloc (entryObj l f (heap.size + 1))) Obj.empty
  rw [Store.size_alloc] at hlast
  rcases Nat.eq_or_lt_of_le hr with rfl | hlt
  · exact hlast
  · exact Store.get_of_size_le (by rw [size_entryHeap]; exact hlt)

/-- The world after `register_loader`. -/
def registered (κ : Layout) (M : Ref) (w : World) (type : Str) (l f : Ptr) : World :=
  World.define
    { w with
      heap := entryHeap w.heap l f
      freed := w.freed ++ replaced κ (w.own M type)
      trace := w.trace ++ [.registers l] } M type (.object w.heap.size)

/-- The layout after `register_loader`. -/
def registeredLayout (κ : Layout) (w : World) (type : Str) (l f : Ptr) : Layout :=
  Function.update (Function.update κ w.heap.size (.entry type l f (w.heap.size + 1)))
    (w.heap.size + 1) (.libs type)

theorem freeEntry_eq (h : Shaped κ M w) {E : Ref} {type : Str} {l f : Ptr} {L : Ref}
    (hE : E < w.heap.size) (hrole : κ E = .entry type l f L) :
    freeEntry H (.object E) w =
      .ok () { w with freed := w.freed ++ replaced κ (some (.object E)) } := by
  have hgetDestory : getProp H.prototype (.object E) keyDestory w = .ok (some (.pointer f)) w :=
    getProp_of_get ((h.get E (H.free (by simp))).trans (h.own_entry hE hrole).2.1)
  have hreplaced : replaced κ (some (.object E)) = if f = 0 then [] else [(f, l)] := by
    rw [replaced, hrole]
  have hfun : ((some (Value.pointer f)).getD .undefined).asPointer = f := rfl
  rw [freeEntry, bind_of_ok hgetDestory, hreplaced, hfun]
  by_cases hf : f = 0
  · rw [if_pos hf, if_pos hf, List.append_nil]
    rfl
  · rw [if_neg hf, if_neg hf, bind_of_ok (h.getProp_loader hE hrole)]
    rfl

/-- What `register_loader` finds under the type frees its loader when it is an
entry, and does nothing when it is inherited. -/
theorem freeOld_eq (h : Shaped κ M w) {key : Str} (hne : key ≠ text "__proto__") :
    freeOld H (w.get H.prototype M key) w =
      .ok () { w with freed := w.freed ++ replaced κ (w.own M key) } := by
  cases hown : w.own M key with
  | some v =>
    obtain ⟨E, l, f, L, rfl, hE, hrole⟩ := h.entry_of_own hown
    rw [World.get_of_own hown]
    exact freeEntry_eq h hE hrole
  | none =>
    have hnothing : replaced κ none = [] := rfl
    rw [hnothing, List.append_nil]
    by_cases hhas : H.prototype.has key = true
    · rw [World.get_inherited (h.proto M) hown hhas hne]
      have hget : getProp H.prototype (.builtin key) keyDestory w = .ok none w := by
        have hno : H.prototype.has keyDestory = false := H.free (by simp)
        show (pure (if H.prototype.has keyDestory = true then _ else _) :
          Action Fault World _) w = _
        rw [hno]
        rfl
      show freeEntry H (.builtin key) w = _
      rw [freeEntry, bind_of_ok hget]
      rfl
    · rw [h.get M (by simpa using hhas), hown]
      rfl

/-- `register_loader`, when its type is not that of the prototype. -/
theorem register_eq (h : Shaped κ M w) {l f : Ptr}
    (hne : (H.loader l).moduleType.val ≠ text "__proto__") :
    register H l f w = .ok () (registered κ M w (H.loader l).moduleType.val l f) := by
  generalize htype : (H.loader l).moduleType.val = type at hne
  have hnote : note (.registers l) w =
      .ok () { w with trace := w.trace ++ [.registers l] } := rfl
  have h1 : Shaped κ M { w with trace := w.trace ++ [.registers l] } := h.of_heap rfl
  have hold : getProp H.prototype (.object M) type { w with trace := w.trace ++ [.registers l] } =
      .ok (World.get H.prototype { w with trace := w.trace ++ [.registers l] } M type)
        { w with trace := w.trace ++ [.registers l] } := rfl
  have hfree := freeOld_eq (H := H) h1 hne
  have hpos : 0 < w.heap.size := h.globals.1
  have hnew := newEntry_eq (H := H) (w := { w with
    freed := w.freed ++ replaced κ (w.own M type)
    trace := w.trace ++ [.registers l] }) hpos l f
  have hM : (some (Value.object M)).getD .undefined = .object M := rfl
  rw [register, bind_of_ok hnote, enter, bind_of_ok h1.getProp_modules, htype, hM, bind_of_ok hold,
    bind_of_ok hfree]
  refine (bind_of_ok hnew _).trans (setProp_of_plain h.table_ne_global ?_ hne _)
  show ((entryHeap w.heap l f).get M).proto = _
  rw [get_entryHeap_old h.table.1]
  exact h.proto M

/-- The objects after `register_loader`. -/
theorem get_registered (h : Shaped κ M w) (type : Str) (l f : Ptr) :
    (registered κ M w type l f).heap.get M =
        ⟨Assoc.insert (w.heap.get M).props type (.object w.heap.size), (w.heap.get M).proto,
          (w.heap.get M).finalizer⟩ ∧
      ∀ r, r ≠ M → (registered κ M w type l f).heap.get r = (entryHeap w.heap l f).get r := by
  have hM : M < (entryHeap w.heap l f).size := by
    rw [size_entryHeap]
    exact Nat.lt_succ_of_lt (Nat.lt_succ_of_lt h.table.1)
  refine ⟨?_, fun r hr => Store.get_set_ne hr _⟩
  show (Store.set _ M _).get M = _
  rw [Store.get_set_self hM]
  show Obj.mk (Assoc.insert ((entryHeap w.heap l f).get M).props type _)
    ((entryHeap w.heap l f).get M).proto ((entryHeap w.heap l f).get M).finalizer = _
  rw [get_entryHeap_old h.table.1]

theorem size_registered (κ : Layout) (M : Ref) (w : World) (type : Str) (l f : Ptr) :
    (registered κ M w type l f).heap.size = w.heap.size + 1 + 1 := by
  show (Store.set _ _ _).size = _
  rw [Store.size_set, size_entryHeap]

theorem grows_registered (κ : Layout) (M : Ref) (w : World) (type : Str) (l f : Ptr) :
    Grows κ w (registeredLayout κ w type l f) (registered κ M w type l f) := by
  refine ⟨by rw [size_registered]; omega, fun r hr => ?_⟩
  rw [registeredLayout, Function.update_of_ne (Nat.ne_of_lt (Nat.lt_succ_of_lt hr)),
    Function.update_of_ne (Nat.ne_of_lt hr)]

theorem registeredLayout_entry (κ : Layout) (w : World) (type : Str) (l f : Ptr) :
    registeredLayout κ w type l f w.heap.size = .entry type l f (w.heap.size + 1) := by
  rw [registeredLayout, Function.update_of_ne (Nat.ne_of_lt (Nat.lt_succ_self _)),
    Function.update_self]

theorem registeredLayout_libs (κ : Layout) (w : World) (type : Str) (l f : Ptr) :
    registeredLayout κ w type l f (w.heap.size + 1) = .libs type := Function.update_self ..

theorem Shaped.registered (h : Shaped κ M w) (type : Str) {l : Ptr} (hl : l ≠ 0) (f : Ptr) :
    Shaped (registeredLayout κ w type l f) M (registered κ M w type l f) := by
  obtain ⟨htable, hother⟩ := get_registered h type l f
  have hgrows := grows_registered κ M w type l f
  have hentry : registeredLayout κ w type l f w.heap.size =
      .entry type l f (w.heap.size + 1) := registeredLayout_entry ..
  refine h.grow hgrows (fun r => ?_) (fun r hr => ?_) fun r hr hle => ?_
  · by_cases hr : r = M
    · rw [hr, htable]
      exact h.proto M
    rw [hother r hr]
    rcases Nat.lt_trichotomy r w.heap.size with hlt | rfl | hgt
    · rw [get_entryHeap_old hlt]
      exact h.proto r
    · rw [get_entryHeap_entry]
      rfl
    · rw [get_entryHeap_new hgt]
      rfl
  · by_cases hrM : r = M
    · rw [hrM, h.table.2]
      refine .inr ⟨rfl, by rw [htable]; exact Assoc.nodup_insert h.table_nodup .., fun p hp => ?_⟩
      rw [htable] at hp
      rcases Assoc.mem_insert hp with rfl | hp
      · refine ⟨w.heap.size, l, f, w.heap.size + 1, rfl, ?_, hentry⟩
        rw [size_registered]
        exact Nat.lt_succ_of_lt (Nat.lt_succ_self _)
      · obtain ⟨E, l', f', L', hv, hE, hrole⟩ := h.entry_of_mem hp
        exact ⟨E, l', f', L', hv, Nat.lt_of_lt_of_le hE hgrows.size,
          (hgrows.role E hE).trans hrole⟩
    · exact .inl ((hother r hrM).trans (get_entryHeap_old hr l f))
  · have hrM : r ≠ M := Nat.ne_of_gt (Nat.lt_of_lt_of_le h.table.1 hle)
    rw [size_registered] at hr
    rcases Nat.eq_or_lt_of_le hle with rfl | hlt
    · rw [hentry]
      refine ⟨by rw [hother _ hrM, get_entryHeap_entry]; rfl, hl, ?_, registeredLayout_libs ..⟩
      rw [size_registered]
      exact Nat.lt_succ_self _
    · rw [Nat.le_antisymm (Nat.le_of_lt_succ hr) hlt]
      rw [show registeredLayout κ w type l f (w.heap.size + 1) = .libs type from
        registeredLayout_libs ..]
      trivial

/-! ## A new table -/

/-- A heap with the global object and a new table. -/
def tableWorld (env : Str → Option Str) (globals : List (Str × Value)) : World :=
  { World.create env with
    heap := ⟨[⟨globals, objectPrototype, none⟩, ⟨[], objectPrototype, some destoryFunction⟩]⟩ }

/-- A heap in which `init` has made the table and `kg_import`. -/
def newTable (env : Str → Option Str) : World :=
  tableWorld env [(keyModules, .object 1), (text "kg_import", importFunction)]

/-- Its layout. -/
def newLayout : Layout
  | 0 => .globals
  | 1 => .table
  | _ => .other

theorem Shaped.newTable (env : Str → Option Str) : Shaped newLayout 1 (newTable env) where
  globals := ⟨(by decide : 0 < 2), rfl⟩
  table := ⟨(by decide : 1 < 2), rfl⟩
  proto
    | 0 | 1 => rfl
    | _ + 2 => rfl
  fits
    | 0, _ => ⟨rfl, rfl⟩
    | 1, _ => ⟨rfl, List.nodup_nil, fun _ hp => absurd hp List.not_mem_nil⟩
    | _ + 2, _ => trivial

/-- The loaders that `init` makes. -/
def registerFirst (H : Host) (js : Ptr) (c : Option Ptr) : Action Fault World Unit := do
  register H js H.jsDestory
  match c with
  | none => pure ()
  | some c => register H c H.cDestory

/-- A property that is neither there nor inherited is made. -/
theorem setProp_of_new {r : Ref} {name : Str} (hproto : (w.heap.get r).proto = objectPrototype)
    (hown : w.own r name = none) (hne : name ≠ text "__proto__") (x : Value) :
    setProp H.prototype (.object r) name x w = .ok () (w.define r name x) := by
  unfold setProp
  dsimp only
  rw [hown, World.holder_of_plain hproto hown]
  split
  · exact absurd ‹_› (by simp)
  · exact if_neg hne
  · rfl

theorem setProp_tableWorld (env : Str → Option Str) {globals : List (Str × Value)} {name : Str}
    (hnew : Assoc.find? globals name = none) (hne : name ≠ text "__proto__") (x : Value) :
    setProp H.prototype (.object World.global) name x (tableWorld env globals) =
      .ok () (tableWorld env (Assoc.insert globals name x)) :=
  setProp_of_new (w := tableWorld env globals) (r := World.global) rfl hnew hne x

/-- `init` of a new heap. -/
theorem setUp_create (H : Host) (env : Str → Option Str) (js : Ptr) (c : Option Ptr) :
    setUp H js c (World.create env) = registerFirst H js c (newTable env) := by
  have hnew : newObject (World.create env) = .ok 1 { World.create env with
      heap := (World.create env).heap.alloc .empty } := rfl
  have hmodules : setProp H.prototype (.object World.global) keyModules (.object 1)
      (tableWorld env []) = .ok () (tableWorld env [(keyModules, .object 1)]) :=
    setProp_tableWorld env rfl (by decide) _
  have hcollect : collect H (tableWorld env [(keyModules, .object 1)]) =
      .ok () (tableWorld env [(keyModules, .object 1)]) := rfl
  have hne : keyModules ≠ text "kg_import" := by decide
  have himport := setProp_tableWorld (H := H) env
    (Assoc.find?_cons_ne hne : Assoc.find? [(keyModules, .object 1)] (text "kg_import") = none)
    (by decide) importFunction
  have hinsert : Assoc.insert [(keyModules, Value.object 1)] (text "kg_import") importFunction =
      [(keyModules, .object 1), (text "kg_import", importFunction)] := if_neg hne
  rw [hinsert] at himport
  unfold setUp
  rw [bind_of_ok hnew]
  refine (bind_of_ok rfl _).trans ((bind_of_ok hmodules _).trans ?_)
  exact (bind_of_ok hcollect _).trans ((bind_of_ok himport _).trans rfl)

end Module

end KgCpp.Scripts
