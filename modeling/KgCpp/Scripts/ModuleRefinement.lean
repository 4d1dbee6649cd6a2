import KgCpp.Scripts.ModuleRules

/-!
# Importing refines the search in the table

`kg_import` is what `ModuleSpec` says (`import_refines_iff`): for every table in a
heap, every environment and every outcome of the loaders, as long as the name of
the module and the type hold no zero byte. Names reach the table as C strings, and
lose what is behind a zero byte there.
-/

namespace KgCpp.Scripts.Module

open Lib

variable {H : Host} {outcome : Ptr → Str → Outcome} {κ : Layout} {M : Ref} {w w' : World}
  {F : Fault → World → Prop}

/-! ## Lists up to an element -/

section UpTo

variable {α : Type} {p : α → Bool} {x : α} (xs : List α)

theorem upTo_cons_of_pos (h : p x = true) : upTo p (x :: xs) = [x] := by
  rw [upTo, List.takeWhile_cons_of_neg (by simp [h]), List.find?_cons_of_pos h]
  rfl

theorem upTo_cons_of_neg (h : p x = false) : upTo p (x :: xs) = x :: upTo p xs := by
  rw [upTo, List.takeWhile_cons_of_pos (by simp [h]), List.find?_cons_of_neg (by simp [h])]
  rfl

end UpTo

/-! ## One row -/

theorem callsOf_append (t t' : List Event) : callsOf (t ++ t') = callsOf t ++ callsOf t' :=
  List.filterMap_append

/-- What the outcomes at some paths decide. -/
def decided (outcome : Ptr → Str → Outcome) (l : Ptr) (paths : List Str) : Outcome :=
  ((paths.map (outcome l)).find? Outcome.decides).getD .nothing

/-- The paths that are asked for. -/
def askedOf (outcome : Ptr → Str → Outcome) (l : Ptr) (paths : List Str) : List (Ptr × Str) :=
  (upTo (fun path => (outcome l path).decides) paths).map (l, ·)

/-- The value that an outcome leaves. -/
def Outcome.value : Outcome → Option Value
  | .module v => some v
  | .nothing => none
  | .error v => some v.val

/-- A module is written. -/
def Outcome.write (o : Outcome) (heap : Store Obj) (L : Ref) (pkg : Str) : Store Obj :=
  match o with
  | .module v => heap.set L
      { heap.get L with props := Assoc.insert (heap.get L).props pkg v }
  | _ => heap

section Paths

variable {l : Ptr} {path : Str} (rest : List Str)

theorem decided_cons_of_pos (h : (outcome l path).decides = true) :
    decided outcome l (path :: rest) = outcome l path := by
  rw [decided, List.map_cons, List.find?_cons_of_pos h]
  rfl

theorem decided_cons_of_neg (h : (outcome l path).decides = false) :
    decided outcome l (path :: rest) = decided outcome l rest := by
  rw [decided, List.map_cons, List.find?_cons_of_neg (by simp [h]), decided]

theorem askedOf_cons_of_pos (h : (outcome l path).decides = true) :
    askedOf outcome l (path :: rest) = [(l, path)] := by
  rw [askedOf, upTo_cons_of_pos (p := fun path => (outcome l path).decides) _ h]
  rfl

theorem askedOf_cons_of_neg (h : (outcome l path).decides = false) :
    askedOf outcome l (path :: rest) = (l, path) :: askedOf outcome l rest := by
  rw [askedOf, upTo_cons_of_neg (p := fun path => (outcome l path).decides) _ h]
  rfl

end Paths

/-- The world in which a loader has answered. -/
def answered (w : World) (l : Ptr) (pkg path : Str) (o : Outcome) : World :=
  { w with trace :=
      w.trace ++ [.calls l pkg path] ++ [.answers l pkg path o.answer.1 o.answer.2] }

theorem ask_eq (l : Ptr) (pkg path : Str) (w : World) :
    ask (imports outcome) l pkg path w =
      .ok (outcome l path).answer (answered w l pkg path (outcome l path)) := rfl

theorem callsOf_answered (w : World) (l : Ptr) (pkg path : Str) (o : Outcome) :
    callsOf (answered w l pkg path o).trace = callsOf w.trace ++ [(l, path)] := by
  rw [answered, callsOf_append, callsOf_append]
  exact List.append_nil _

/-- The world after a search of paths: a module may have been written. -/
structure Searched (w : World) (L : Ref) (pkg : Str) (o : Outcome) (asked : List (Ptr × Str))
    (found : Option Value) (w' : World) : Prop where
  found : found = o.value
  heap : w'.heap = o.write w.heap L pkg
  env : w'.env = w.env
  asked : callsOf w'.trace = callsOf w.trace ++ asked

/-- The first path with an outcome that decides ends the search. -/
theorem ends_searchPaths_imports {L : Ref} (hL : L ≠ World.global) {pkg : Str}
    (hpkg : pkg ≠ text "__proto__") (l : Ptr) (paths : List Str) {w : World}
    (hproto : (w.heap.get L).proto = objectPrototype) :
    Ends (searchPaths H (imports outcome) l (.object L) pkg paths) w
      (Searched w L pkg (decided outcome l paths) (askedOf outcome l paths)) F := by
  induction paths generalizing w with
  | nil => exact ends_pure ⟨rfl, rfl, rfl, (List.append_nil _).symm⟩
  | cons path rest ih =>
    refine ends_bind_of_ok (ask_eq l pkg path w) ?_
    cases hout : outcome l path with
    | module v =>
      have hdec : (outcome l path).decides = true := by rw [hout]; rfl
      rw [decided_cons_of_pos rest hdec, askedOf_cons_of_pos rest hdec, hout]
      refine ends_ite (fun _ => ?_) fun hno => absurd rfl hno
      have hset : setProp H.prototype (.object L) pkg v (answered w l pkg path (.module v)) =
          .ok () (World.define (answered w l pkg path (.module v)) L pkg v) :=
        setProp_of_plain (w := answered w l pkg path (.module v)) hL hproto hpkg v
      refine ends_bind_of_ok hset (ends_bind_of_ok rfl ?_)
      refine ends_pure ⟨rfl, rfl, rfl, ?_⟩
      rw [callsOf_append]
      exact (List.append_nil _).trans (callsOf_answered w l pkg path _)
    | error e =>
      have hdec : (outcome l path).decides = true := by rw [hout]; rfl
      rw [decided_cons_of_pos rest hdec, askedOf_cons_of_pos rest hdec, hout]
      refine ends_ite (fun hno => absurd hno Bool.false_ne_true) fun _ => ?_
      refine ends_ite (fun _ => ?_) fun hno => absurd e.property hno
      exact ends_pure ⟨rfl, rfl, rfl, callsOf_answered w l pkg path _⟩
    | nothing =>
      have hdec : (outcome l path).decides = false := by rw [hout]; rfl
      rw [decided_cons_of_neg rest hdec, askedOf_cons_of_neg rest hdec]
      refine ends_ite (fun hno => absurd hno Bool.false_ne_true) fun _ => ?_
      refine ends_ite (fun hno => absurd rfl hno) fun _ => ?_
      have hnext := ih (w := answered w l pkg path .nothing) hproto
      refine hnext.mono (fun found w' hs => ⟨hs.found, hs.heap, hs.env, ?_⟩) fun _ _ h => h
      rw [hs.asked, callsOf_answered, List.append_assoc]
      rfl

/-- The world after a row was looked at: its modules may have become others. -/
structure Looked (H : Host) (outcome : Ptr → Str → Outcome) (w : World) (L : Ref) (row : Row)
    (pkg : Str) (found : Option Value) (w' : World) : Prop where
  found : found = (row.lookup H w.env outcome pkg).map Prod.fst
  heap : w'.heap = (row.lookup H w.env outcome pkg).elim w.heap fun p =>
    w.heap.set L { w.heap.get L with props := p.2.libs }
  env : w'.env = w.env
  asked : callsOf w'.trace = callsOf w.trace ++ row.asked H w.env outcome pkg

variable (outcome) in
/-- An entry is searched as its row. -/
theorem ends_searchLibs (h : Shaped κ M w) {L : Ref} {type pkg : Str} (hL : L < w.heap.size)
    (hrole : κ L = .libs type) (hpkg : H.prototype.has pkg = false) (l : Ptr) :
    Ends (searchLibs H (imports outcome) l L pkg) w
      (Looked H outcome w L ⟨l, (w.heap.get L).props⟩ pkg) F := by
  have hproto := H.prototype.ne_proto hpkg
  have hkeep : w.heap = w.heap.set L { w.heap.get L with props := (w.heap.get L).props } :=
    (Store.set_get hL).symm
  cases hown : w.own L pkg with
  | some v =>
    have hfound : Assoc.find? (w.heap.get L).props pkg = some v := hown
    have hok : searchLibs H (imports outcome) l L pkg w = .ok (some v) w := by
      rw [searchLibs, hown]
    refine ends_of_ok hok ⟨?_, ?_, rfl, ?_⟩
    · rw [Row.lookup, hfound]
      rfl
    · rw [Row.lookup, hfound]
      exact hkeep
    · rw [Row.asked, hfound, List.append_nil]
  | none =>
    have hfound : Assoc.find? (w.heap.get L).props pkg = none := hown
    have hstart : searchLibs H (imports outcome) l L pkg w =
        searchPaths H (imports outcome) l (.object L) pkg (paths (H.loader l) w.env pkg) w := by
      rw [← searchLoader_eq, searchLibs, hown]
    rw [Ends, hstart]
    refine Ends.mono (ends_searchPaths_imports (h.libs_ne hrole).1 hproto l _ (h.proto L))
      (fun found w' hs => ⟨?_, ?_, hs.env, ?_⟩) fun _ _ h => h
    · rw [hs.found, Row.lookup, hfound, Row.decision, Row.paths, decided]
      cases (((paths (H.loader l) w.env pkg).map (outcome l)).find? Outcome.decides).getD
        .nothing <;> rfl
    · rw [hs.heap, Row.lookup, hfound, Row.decision, Row.paths, decided]
      cases (((paths (H.loader l) w.env pkg).map (outcome l)).find? Outcome.decides).getD
        .nothing with
      | module v => rfl
      | nothing => rfl
      | error e => exact hkeep
    · rw [hs.asked, Row.asked, hfound]
      rfl

/-! ## The table -/

theorem find?_tableOf (κ : Layout) (M : Ref) (w : World) (type : Str) :
    Assoc.find? (tableOf κ M w) type = (w.own M type).map (rowOf κ w) := Assoc.find?_map ..

theorem keys_tableOf (κ : Layout) (M : Ref) (w : World) :
    (tableOf κ M w).map Prod.fst = (w.heap.get M).props.map Prod.fst := by
  rw [tableOf, List.map_map]
  rfl

theorem rowOf_entry {E : Ref} {type : Str} {l f : Ptr} {L : Ref}
    (hrole : κ E = .entry type l f L) (w : World) :
    rowOf κ w (.object E) = ⟨l, (w.heap.get L).props⟩ := by
  rw [rowOf, hrole]

/-- Only the heap matters. -/
theorem tableOf_of_heap (hheap : w'.heap = w.heap) : tableOf κ M w' = tableOf κ M w := by
  have hrow : rowOf κ w' = rowOf κ w := by
    funext v
    unfold rowOf
    rw [hheap]
  rw [tableOf, tableOf, hheap, hrow]

/-- The modules of an entry change, and so does its row. -/
theorem tableOf_setLibs (h : Shaped κ M w) {E : Ref} {type : Str} {l f : Ptr} {L : Ref}
    (hown : w.own M type = some (.object E)) (hE : E < w.heap.size)
    (hrole : κ E = .entry type l f L) {libs : List (Str × Value)}
    (hheap : w'.heap = w.heap.set L { w.heap.get L with props := libs }) :
    tableOf κ M w' = Assoc.insert (tableOf κ M w) type ⟨l, libs⟩ := by
  obtain ⟨-, -, hL, hlibs⟩ := h.entry hE hrole
  have hM : w'.heap.get M = w.heap.get M := by
    rw [hheap, Store.get_set_ne (h.libs_ne hlibs).2.symm]
  have hrow : rowOf κ w' (.object E) = ⟨l, libs⟩ := by
    rw [rowOf_entry hrole, hheap, Store.get_set_self hL]
  rw [tableOf, tableOf, hM, ← hrow]
  refine Assoc.map_eq_insert h.table_nodup (Assoc.mem_of_find? hown) fun p hp hne => ?_
  obtain ⟨E', l', f', L', hv, hE', hrole'⟩ := h.entry_of_mem hp
  obtain ⟨-, -, -, hlibs'⟩ := h.entry hE' hrole'
  have hL' : L' ≠ L := by
    rintro rfl
    rw [hlibs] at hlibs'
    cases hlibs'
    exact hne rfl
  rw [hv, rowOf_entry hrole', rowOf_entry hrole', hheap, Store.get_set_ne hL']

namespace Table

variable {env : Str → Option Str} {type pkg : Str} {row : Row} (C : Table)

theorem find_cons_of_none (h : row.lookup H env outcome pkg = none) :
    find H env outcome ((type, row) :: C) pkg = find H env outcome C pkg := by
  simp only [find, List.findSome?_cons, h, Option.map_none]

theorem find_cons_of_some {v : Value} {row' : Row}
    (h : row.lookup H env outcome pkg = some (v, row')) :
    find H env outcome ((type, row) :: C) pkg = some (type, v, row') := by
  simp only [find, List.findSome?_cons, h, Option.map_some]

theorem asks_cons_of_none (h : row.lookup H env outcome pkg = none) :
    asks H env outcome ((type, row) :: C) pkg =
      row.asked H env outcome pkg ++ asks H env outcome C pkg := by
  rw [asks, upTo_cons_of_neg (p := fun p : Str × Row => (p.2.lookup H env outcome pkg).isSome) _
    (by rw [h]; rfl), List.flatMap_cons, asks]

theorem asks_cons_of_some {v : Value} {row' : Row}
    (h : row.lookup H env outcome pkg = some (v, row')) :
    asks H env outcome ((type, row) :: C) pkg = row.asked H env outcome pkg := by
  rw [asks, upTo_cons_of_pos (p := fun p : Str × Row => (p.2.lookup H env outcome pkg).isSome) _
    (by rw [h]; rfl), List.flatMap_cons, List.flatMap_nil, List.append_nil]

end Table

/-! ## The search -/

/-- The world after a search in some rows of a table. -/
structure Imported (H : Host) (outcome : Ptr → Str → Outcome) (κ : Layout) (M : Ref) (w : World)
    (pkg : Str) (C : Table) (found : Option Value) (w' : World) : Prop where
  found : found = (C.find H w.env outcome pkg).map fun p => p.2.1
  shaped : Shaped κ M w'
  table : tableOf κ M w' = (C.find H w.env outcome pkg).elim (tableOf κ M w) fun p =>
    Assoc.insert (tableOf κ M w) p.1 p.2.2
  others : ∀ r, (∀ type, κ r ≠ .libs type) → w'.heap.get r = w.heap.get r
  asked : callsOf w'.trace = callsOf w.trace ++ C.asks H w.env outcome pkg

/-- Nothing was found, and nothing was written. -/
theorem Imported.of_none (h : Shaped κ M w) {pkg : Str} {C : Table}
    (hfind : C.find H w.env outcome pkg = none) (hheap : w'.heap = w.heap)
    (hasked : callsOf w'.trace = callsOf w.trace ++ C.asks H w.env outcome pkg) :
    Imported H outcome κ M w pkg C none w' where
  found := by rw [hfind]; rfl
  shaped := h.of_heap hheap
  table := by rw [hfind]; exact tableOf_of_heap hheap
  others r _ := by rw [hheap]
  asked := hasked

theorem Row.loader_of_lookup {row row' : Row} {env : Str → Option Str} {pkg : Str} {v : Value}
    (h : row.lookup H env outcome pkg = some (v, row')) : row'.loader = row.loader := by
  rw [Row.lookup] at h
  split at h
  · cases h
    rfl
  split at h <;> cases h <;> rfl

/-- The row of an entry. -/
theorem find?_tableOf_entry {E : Ref} {type : Str} {l f : Ptr} {L : Ref}
    (hown : w.own M type = some (.object E)) (hrole : κ E = .entry type l f L) :
    Assoc.find? (tableOf κ M w) type = some ⟨l, (w.heap.get L).props⟩ := by
  rw [find?_tableOf, hown, Option.map_some, rowOf_entry hrole]

variable (outcome) in
/-- The entries under some keys, one after another, are searched as their rows. -/
theorem ends_searchKeys_imports (h : Shaped κ M w) {pkg : Str}
    (hpkg : H.prototype.has pkg = false) (keys : List Str)
    (hkeys : ∀ key ∈ keys, key ∈ (w.heap.get M).props.map Prod.fst) :
    Ends (searchKeys H (imports outcome) M pkg keys) w
      (Imported H outcome κ M w pkg ((tableOf κ M w).rows keys)) F := by
  generalize hT : tableOf κ M w = T
  refine ends_searchKeys (J := fun rest w' => w'.heap = w.heap ∧ w'.env = w.env ∧
      (∀ key ∈ rest, key ∈ (w.heap.get M).props.map Prod.fst) ∧
      (T.rows rest).find H w.env outcome pkg = (T.rows keys).find H w.env outcome pkg ∧
      callsOf w'.trace ++ (T.rows rest).asks H w.env outcome pkg =
        callsOf w.trace ++ (T.rows keys).asks H w.env outcome pkg)
    ?_ ?_ keys ⟨rfl, rfl, hkeys, rfl, rfl⟩
  · rintro key rest w' ⟨hheap, henv, hin, hfind, hasked⟩
    obtain ⟨E, l, f, L, hown, hE, hrole⟩ := h.entry_of_key (hin key (List.mem_cons_self ..))
    have hrow := find?_tableOf_entry hown hrole
    obtain ⟨-, -, hL, hlibs⟩ := h.entry hE hrole
    have h' : Shaped κ M w' := h.of_heap hheap
    have hown' : w'.own M key = some (.object E) := by rw [World.own, hheap]; exact hown
    rw [Ends, searchKey_of_get (World.get_of_own hown'),
      searchEntry_eq h' (imports outcome) (by rw [hheap]; exact hE) hrole (h'.get L hpkg)]
    have hends := ends_searchLibs (H := H) (F := F) outcome h' (by rw [hheap]; exact hL)
      hlibs hpkg l
    rw [hheap] at hends
    have hrows : T.rows (key :: rest) = (key, ⟨l, (w.heap.get L).props⟩) :: T.rows rest := by
      rw [hT] at hrow
      rw [Table.rows, List.filterMap_cons_some (by rw [hrow]; rfl), Table.rows]
    rw [hrows] at hfind hasked
    refine hends.mono (fun found w'' hlooked => ?_) fun _ _ h => h
    obtain ⟨hfound, hheap', henv', hasked'⟩ := hlooked
    rw [henv] at hfound hheap' hasked' henv'
    cases hlookup : Row.lookup H w.env outcome ⟨l, (w.heap.get L).props⟩ pkg with
    | none =>
      rw [hlookup] at hfound hheap'
      rw [hfound]
      rw [Table.find_cons_of_none _ hlookup] at hfind
      rw [Table.asks_cons_of_none _ hlookup] at hasked
      refine ⟨hheap'.trans hheap, henv', fun k hk => hin k (List.mem_cons_of_mem _ hk), hfind, ?_⟩
      rw [hasked', List.append_assoc]
      exact hasked
    | some p =>
      obtain ⟨v, row'⟩ := p
      rw [hlookup] at hfound hheap'
      rw [hfound]
      rw [Table.find_cons_of_some _ hlookup] at hfind
      rw [Table.asks_cons_of_some _ hlookup] at hasked
      have hset : w''.heap = w.heap.set L { w.heap.get L with props := row'.libs } := by
        rw [hheap']
        show w'.heap.set L { w'.heap.get L with props := row'.libs } = _
        rw [hheap]
      refine ⟨by rw [← hfind]; rfl, h.setLibs hL hlibs hset, ?_, fun r hr => ?_, ?_⟩
      · rw [← hfind, tableOf_setLibs h hown hE hrole hset, hT]
        have hl : row'.loader = l := Row.loader_of_lookup hlookup
        rw [← hl]
        rfl
      · rw [hset, Store.get_set_ne]
        rintro rfl
        exact hr key hlibs
      · rw [hasked', hasked]
  · rintro w' ⟨hheap, henv, -, hfind, hasked⟩
    have hnone : (T.rows keys).find H w.env outcome pkg = none := hfind.symm
    exact .of_none h hnone hheap (by rw [← hasked]; exact (List.append_nil _).symm)

/-- With a type that has an entry, the search is that of one key. -/
theorem searchTyped_eq_searchKeys (h : Shaped κ M w) (imp : ModuleImport) {key pkg : Str}
    (hkey : key ∈ (w.heap.get M).props.map Prod.fst) (hpkg : H.prototype.has pkg = false) :
    searchTyped H imp (.object M) key pkg w =
      (searchKeys H imp M pkg [key] >>= fun found =>
        found.elim (throw (.thrown (noLoaderModule key pkg))) pure) w := by
  obtain ⟨E, l, f, L, hown, hE, hrole⟩ := h.entry_of_key hkey
  have hkeys : searchKeys H imp M pkg [key] w = searchLibs H imp l L pkg w := by
    rw [← searchEntry_eq h imp hE hrole (h.get L hpkg), ← searchKey_of_get (World.get_of_own hown),
      searchKeys_cons, ← bind_pure (searchKey H imp M pkg key), bind_assoc]
    refine bind_eq_bind rfl fun found w' => ?_
    cases found <;> rfl
  rw [searchTyped_eq h imp hown hE hrole (h.get L hpkg)]
  exact bind_eq_bind hkeys.symm fun _ _ => rfl

/-- Without a type, all entries are searched. -/
theorem ends_searchUntyped_imports (h : Shaped κ M w) {pkg : Str}
    (hpkg : H.prototype.has pkg = false) :
    Ends (searchUntyped H (imports outcome) (.object M) pkg) w
      (fun v => Imported H outcome κ M w pkg (tableOf κ M w).inOrder (some v))
      fun e w' => e = .thrown (noModule pkg) ∧
        Imported H outcome κ M w pkg (tableOf κ M w).inOrder none w' := by
  have hkeys := ends_searchKeys_imports (H := H)
    (F := fun e w' => e = .thrown (noModule pkg) ∧
      Imported H outcome κ M w pkg (tableOf κ M w).inOrder none w') outcome h hpkg
    (enumOrder ((w.heap.get M).props.map Prod.fst)) fun key hk => mem_of_mem_enumOrder hk
  rw [← keys_tableOf κ M w] at hkeys
  refine ends_bind_of_ok rfl ?_
  rw [← keys_tableOf κ M w]
  refine ends_bind hkeys fun found w' hi => ?_
  cases found with
  | some v => exact ends_pure hi
  | none => exact ends_throw ⟨rfl, hi⟩

/-- With a type, its entry is searched, if there is one. -/
theorem ends_searchTyped_imports (h : Shaped κ M w) {pkg t : Str}
    (hpkg : H.prototype.has pkg = false) (ht : H.prototype.has t = false) :
    Ends (searchTyped H (imports outcome) (.object M) t pkg) w
      (fun v => Imported H outcome κ M w pkg ((tableOf κ M w).rows [t]) (some v))
      fun e w' => e = .thrown ((tableOf κ M w).complaint pkg (some t)) ∧
        Imported H outcome κ M w pkg ((tableOf κ M w).rows [t]) none w' := by
  by_cases hkey : t ∈ (w.heap.get M).props.map Prod.fst
  · obtain ⟨_, _, _, _, hown, -, hrole⟩ := h.entry_of_key hkey
    have hrow := find?_tableOf_entry hown hrole
    rw [Ends, searchTyped_eq_searchKeys h (imports outcome) hkey hpkg]
    refine ends_bind (ends_searchKeys_imports outcome h hpkg [t] fun key hk => ?_)
      fun found w' hi => ?_
    · rw [List.mem_singleton.mp hk]
      exact hkey
    cases found with
    | some v => exact ends_pure hi
    | none =>
      refine ends_throw ⟨?_, hi⟩
      rw [Table.complaint, hrow]
      rfl
  · have hown : w.own M t = none := Assoc.find?_eq_none_iff.mpr hkey
    have hrow : Assoc.find? (tableOf κ M w) t = none := by
      rw [find?_tableOf, hown]
      rfl
    have hget : w.get H.prototype M t = none := by rw [h.get M ht, hown]
    have hrows : (tableOf κ M w).rows [t] = [] := by
      rw [Table.rows, List.filterMap_cons_none (by rw [hrow]; rfl)]
      rfl
    refine ends_of_error (searchTyped_none (imports outcome) pkg hget) ⟨?_, ?_⟩
    · rw [Table.complaint, hrow]
      rfl
    · rw [hrows]
      exact .of_none h rfl rfl (List.append_nil _).symm

variable (outcome) in
/-- `search`, with names without a zero byte that are not inherited. -/
theorem ends_search_imports (h : Shaped κ M w) {pkg : Str} {type : Value} (hzero : 0 ∉ pkg)
    (hzeroType : ∀ t, type = .string t → 0 ∉ t) (hpkg : H.prototype.has pkg = false)
    (htype : ∀ t, type = .string t → H.prototype.has t = false) :
    Ends (search H (imports outcome) (.string pkg) type) w
      (fun v => Imported H outcome κ M w pkg ((tableOf κ M w).candidates (typeName type)) (some v))
      fun e w' => e = .thrown ((tableOf κ M w).complaint pkg (typeName type)) ∧
        Imported H outcome κ M w pkg ((tableOf κ M w).candidates (typeName type)) none w' := by
  have hname : (Value.string pkg).asCString = some pkg := congrArg some (cString_of_not_mem hzero)
  rw [search, hname]
  refine ends_bind_of_ok h.getProp_modules ?_
  cases type with
  | string t =>
    have ht : (Value.string t).asCString = some t :=
      congrArg some (cString_of_not_mem (hzeroType t rfl))
    rw [ht]
    exact ends_searchTyped_imports h hpkg (htype t rfl)
  | _ => exact ends_searchUntyped_imports h hpkg

/-! ## The call -/

/-- `kg_import` does what the search in the table says, when its names have no zero
byte and are held. -/
theorem meets_of_not_mem (h : Shaped κ M w) {held : Held} {pkg : Str} {type : Value}
    (hnames : Names held.strings (.string pkg) type) (hzero : 0 ∉ pkg)
    (hzeroType : ∀ t, type = .string t → 0 ∉ t) (hpkg : H.prototype.has pkg = false)
    (htype : ∀ t, type = .string t → H.prototype.has t = false) :
    ∃ w', Meets H outcome κ M w held pkg type w' := by
  generalize hbegin : Event.begins (.string pkg) type held.strings = begin
  have hbegins : Shaped κ M { w with trace := w.trace ++ [begin] } := h.of_heap rfl
  have hcalls : callsOf (w.trace ++ [begin]) = callsOf w.trace := by
    rw [callsOf_append, ← hbegin]
    exact List.append_nil _
  have htableW : tableOf κ M { w with trace := w.trace ++ [begin] } = tableOf κ M w :=
    tableOf_of_heap rfl
  have hends := ends_search_imports outcome hbegins hzero hzeroType hpkg htype
  rw [Ends] at hends
  generalize hrun : search H (imports outcome) (.string pkg) type
    { w with trace := w.trace ++ [begin] } = res at hends
  cases res with
  | ok v w' =>
    obtain ⟨hfound, hshaped, htable, hothers, hasked⟩ := hends
    rw [htableW] at hfound htable hasked
    refine ⟨{ w' with trace := w'.trace ++ [.returns v] }, ?_, hshaped.of_heap rfl,
      (tableOf_of_heap rfl).trans htable, hothers, ?_⟩
    · rw [kgImport_of_held _ hnames, noting, hbegin, hrun]
      obtain ⟨p, hp, rfl⟩ := Option.map_eq_some_iff.mp hfound.symm
      rw [Table.answer, Table.lookup, hp]
      rfl
    · rw [callsOf_append, hasked, hcalls]
      exact List.append_nil _
  | error e w' =>
    obtain ⟨rfl, hfound, hshaped, htable, hothers, hasked⟩ := hends
    rw [htableW] at hfound htable hasked hrun
    refine ⟨{ w' with trace := w'.trace ++
        [.throws ((tableOf κ M w).complaint pkg (typeName type))] }, ?_, hshaped.of_heap rfl,
      (tableOf_of_heap rfl).trans htable, hothers, ?_⟩
    · rw [kgImport_of_held _ hnames, noting, hbegin, hrun]
      have hnone := Option.map_eq_none_iff.mp hfound.symm
      rw [Table.answer, Table.lookup, hnone]
      rfl
    · rw [callsOf_append, hasked, hcalls]
      exact List.append_nil _

/-! ## Names with a zero byte -/

/-- A heap whose table has one entry, and that a module. -/
def cachedWorld (key name : Str) (v : Value) : World :=
  { World.create fun _ => none with
    heap := ⟨[⟨[(keyModules, .object 1)], objectPrototype, none⟩,
      ⟨[(key, .object 2)], objectPrototype, none⟩, entryObj 1 0 3,
      ⟨[(name, v)], objectPrototype, none⟩]⟩ }

/-- The layout of that heap. -/
def cachedLayout (key : Str) : Layout
  | 0 => .globals
  | 1 => .table
  | 2 => .entry key 1 0 3
  | 3 => .libs key
  | _ => .other

theorem shaped_cachedWorld (key name : Str) (v : Value) :
    Shaped (cachedLayout key) 1 (cachedWorld key name v) where
  globals := ⟨(by decide : 0 < 4), rfl⟩
  table := ⟨(by decide : 1 < 4), rfl⟩
  proto
    | 0 | 1 | 2 | 3 => rfl
    | _ + 4 => rfl
  fits
    | 0, _ => ⟨rfl, rfl⟩
    | 1, _ => ⟨rfl, List.nodup_singleton _, fun p hp =>
        ⟨2, 1, 0, 3, by rw [List.mem_singleton.mp hp], (by decide : 2 < 4),
          by rw [List.mem_singleton.mp hp]; rfl⟩⟩
    | 2, _ => ⟨rfl, by decide, (by decide : 3 < 4), rfl⟩
    | 3, _ => trivial
    | _ + 4, _ => trivial

/-- The code finds the module under the C string of a name, and in the entry under
the C string of a type. -/
theorem kgImport_cachedWorld (H : Host) (imp : ModuleImport) {held : Held} {pkg : Str}
    {type : Value} (hnames : Names held.strings (.string pkg) type) (v : Value) {key : Str}
    (hkey : type.asCString = some key ∨ type.asCString = none ∧ key = text "js") :
    ∃ w', kgImport H imp held (.string pkg) type (cachedWorld key (cString pkg) v) =
      .ok v w' := by
  have h : Shaped (cachedLayout key) 1
      { cachedWorld key (cString pkg) v with trace := [.begins (.string pkg) type held.strings] } :=
    (shaped_cachedWorld key (cString pkg) v).of_heap rfl
  generalize hw : ({ cachedWorld key (cString pkg) v with
    trace := [.begins (.string pkg) type held.strings] } : World) = w at h
  have hheap : w.heap = (cachedWorld key (cString pkg) v).heap := by rw [← hw]
  have hown : w.own 1 key = some (.object 2) := by
    rw [World.own, hheap]
    exact if_pos rfl
  have hlibs : w.own 3 (cString pkg) = some v := by
    rw [World.own, hheap]
    exact if_pos rfl
  have hget : w.get H.prototype 3 (cString pkg) = w.own 3 (cString pkg) := by
    rw [World.get_of_own hlibs, hlibs]
  have hsize : 2 < w.heap.size := by
    rw [hheap]
    exact (by decide : 2 < 4)
  have hfound : searchLibs H imp 1 3 (cString pkg) w = .ok (some v) w := by
    rw [searchLibs, hlibs]
  suffices hsearch : search H imp (.string pkg) type w = .ok v w by
    refine ⟨{ w with trace := w.trace ++ [.returns v] }, ?_⟩
    rw [kgImport_of_held imp hnames, noting]
    have hbegin : { cachedWorld key (cString pkg) v with
        trace := (cachedWorld key (cString pkg) v).trace ++
          [.begins (.string pkg) type held.strings] } = w := hw
    rw [hbegin, hsearch]
  rw [search]
  refine (bind_of_ok h.getProp_modules _).trans ?_
  rcases hkey with htype | ⟨htype, rfl⟩
  · rw [htype]
    refine (searchTyped_eq h imp hown hsize rfl hget).trans ((bind_of_ok hfound _).trans rfl)
  · rw [htype]
    have henum : enumerate (.object 1) w = .ok (.enumerator 1 [text "js"]) w := by
      have horder : enumOrder [text "js"] = [text "js"] :=
        enumOrder_singleton (by decide) (by decide)
      have hprops : (w.heap.get 1).props.map Prod.fst = [text "js"] := by rw [hheap]; rfl
      show EStateM.Result.ok (Value.enumerator 1 (enumOrder ((w.heap.get 1).props.map _))) w = _
      rw [hprops, horder]
    have hkey : searchKey H imp 1 (cString pkg) (text "js") w = .ok (some v) w := by
      rw [searchKey_of_get (World.get_of_own hown), searchEntry_eq h imp hsize rfl hget, hfound]
    have hkeys : searchKeys H imp 1 (cString pkg) [text "js"] w = .ok (some v) w := by
      rw [searchKeys_cons, bind_of_ok hkey]
      rfl
    refine (bind_of_ok henum _).trans ?_
    exact (bind_of_ok hkeys _).trans rfl

/-- The search finds a module under its own name and type only. -/
theorem find_cachedWorld (H : Host) (outcome : Ptr → Str → Outcome) {key name pkg : Str} (v : Value)
    {type : Value} (hne : pkg ≠ name ∨ ∃ t, type = .string t ∧ t ≠ key) :
    (tableOf (cachedLayout key) 1 (cachedWorld key name v)).lookup H (fun _ => none) outcome pkg
      (typeName type) = none := by
  have htable : tableOf (cachedLayout key) 1 (cachedWorld key name v) =
      [(key, ⟨1, [(name, v)]⟩)] := rfl
  rw [htable, Table.lookup, Table.find, List.findSome?_eq_none_iff]
  rintro ⟨t, row⟩ hrow
  have hmem : ∀ types, (t, row) ∈ Table.rows [(key, ⟨1, [(name, v)]⟩)] types →
      t ∈ types ∧ t = key ∧ row = ⟨1, [(name, v)]⟩ := by
    intro types hrows
    obtain ⟨t', hin, hsome⟩ := List.mem_filterMap.mp hrows
    obtain ⟨row', hfind, heq⟩ := Option.map_eq_some_iff.mp hsome
    cases heq
    have hone := List.mem_singleton.mp (Assoc.mem_of_find? hfind)
    cases hone
    exact ⟨hin, rfl, rfl⟩
  have hboth : (∀ t', type = .string t' → t = t') ∧ t = key ∧ row = ⟨1, [(name, v)]⟩ := by
    cases type with
    | string t' =>
      obtain ⟨hin, h⟩ := hmem [t'] hrow
      exact ⟨fun t'' heq => by cases heq; exact List.mem_singleton.mp hin, h⟩
    | _ => exact ⟨fun _ heq => (by cases heq), (hmem _ hrow).2⟩
  obtain ⟨htype, rfl, rfl⟩ := hboth
  have hname : name ≠ pkg := by
    rcases hne with hne | ⟨t', heq, hne⟩
    · exact hne.symm
    · exact absurd (htype t' heq).symm hne
  have hlookup : Row.lookup H (fun _ => none) outcome ⟨1, [(name, v)]⟩ pkg = none := by
    rw [Row.lookup, Assoc.find?_cons_ne hname]
    rfl
  rw [hlookup]
  rfl

/-- A name with a zero byte is taken for what is in front of it. -/
theorem not_meets_cachedWorld (H : Host) (outcome : Ptr → Str → Outcome) {held : Held}
    {key pkg : Str} {type v : Value} (hnames : Names held.strings (.string pkg) type)
    (hkey : type.asCString = some key ∨ type.asCString = none ∧ key = text "js")
    (hne : pkg ≠ cString pkg ∨ ∃ t, type = .string t ∧ t ≠ key) (w' : World) :
    ¬ Meets H outcome (cachedLayout key) 1 (cachedWorld key (cString pkg) v) held pkg type w' := by
  intro hmeets
  obtain ⟨w'', hcode⟩ := kgImport_cachedWorld H (imports outcome) hnames v hkey
  have hspec := hmeets.ends
  rw [hcode, Table.answer] at hspec
  have hfind := find_cachedWorld H outcome v hne
  have henv : (cachedWorld key (cString pkg) v).env = fun _ => none := rfl
  rw [henv, hfind] at hspec
  cases hspec

/-! ## Names that are freed -/

section Freed

variable {imp : ModuleImport} {held : Held} {pkg t : Str} {type : Value}

/-- Nothing that the search says ends with a string that was freed. -/
theorem not_meets_of_freed (hfreed : ∃ w', kgImport H (imports outcome) held (.string pkg) type w =
    .error .freedString w') (w' : World) : ¬ Meets H outcome κ M w held pkg type w' := by
  obtain ⟨w'', hfreed⟩ := hfreed
  intro hmeets
  have hends := hmeets.ends
  rw [hfreed] at hends
  generalize (tableOf κ M w).answer H w.env outcome pkg (typeName type) = answer at hends
  cases answer <;> cases hends

/-- A call fails as what it computes does. -/
theorem kgImport_of_error {e : Fault} (h : ∀ trace, seek H imp held.strings (.string pkg) type
      { w with trace := trace } = .error e { w with trace := trace }) :
    ∃ w', kgImport H imp held (.string pkg) type w = .error e w' := by
  have hbegins := h (w.trace ++ [.begins (.string pkg) type held.strings])
  rw [kgImport_eq, noting, hbegins]
  cases e <;> exact ⟨_, rfl⟩

/-- The type is read first. -/
theorem seek_freedType (h : Shaped κ M w) (ht : t ∉ held.strings) :
    seek H imp held.strings (.string pkg) (.string t) w = .error .freedString w := by
  refine (bind_of_ok h.getProp_modules _).trans ?_
  show seekTyped H imp held.strings (.object M) t pkg w = _
  rw [seekTyped, chars_of_not_mem ht]
  rfl

/-- A type that has no entry: the error names it up to its first zero byte. -/
theorem seek_noLoader (h : Shaped κ M w) (ht : t ∈ held.strings)
    (hhas : H.prototype.has (cString t) = false) (hown : w.own M (cString t) = none) :
    seek H imp held.strings (.string pkg) (.string t) w =
      .error (.thrown (noLoader (cString t))) w := by
  refine (bind_of_ok h.getProp_modules _).trans ?_
  show seekTyped H imp held.strings (.object M) t pkg w = _
  rw [seekTyped, chars_of_mem ht, pure_bind,
    bind_of_ok (getProp_of_get ((h.get M hhas).trans hown))]
  rfl

/-- With a type, the package is read when there is an entry for it. -/
theorem seek_freedPkg (h : Shaped κ M w) (ht : t ∈ held.strings) (hpkg : pkg ∉ held.strings)
    (hkey : cString t ∈ (w.heap.get M).props.map Prod.fst) :
    seek H imp held.strings (.string pkg) (.string t) w = .error .freedString w := by
  obtain ⟨E, l, f, L, hown, hE, hrole⟩ := h.entry_of_key hkey
  refine (bind_of_ok h.getProp_modules _).trans ?_
  show seekTyped H imp held.strings (.object M) t pkg w = _
  rw [seekTyped, chars_of_mem ht, pure_bind, bind_of_ok (getProp_of_get (World.get_of_own hown))]
  dsimp only
  rw [bind_of_ok (h.getProp_libs hE hrole)]
  dsimp only
  rw [chars_of_not_mem hpkg]
  rfl

/-- Without a type, it is read for the first entry. -/
theorem seek_freedPkg_untyped (h : Shaped κ M w) (htype : type.asString = none)
    (hpkg : pkg ∉ held.strings) {key : Str} (hkeys : (w.heap.get M).props.map Prod.fst = [key])
    (horder : enumOrder [key] = [key]) :
    seek H imp held.strings (.string pkg) type w = .error .freedString w := by
  obtain ⟨E, l, f, L, hown, hE, hrole⟩ := h.entry_of_key (hkeys ▸ List.mem_singleton_self key)
  have henum : enumerate (.object M) w = .ok (.enumerator M [key]) w := by
    show EStateM.Result.ok (Value.enumerator M (enumOrder ((w.heap.get M).props.map _))) w = _
    rw [hkeys, horder]
  have hentry : seekEntry H imp held.strings (.object E) pkg w = .error .freedString w := by
    rw [seekEntry, bind_of_ok (h.getProp_libs hE hrole)]
    dsimp only
    rw [chars_of_not_mem hpkg]
    rfl
  have hseek : seekKeys H imp held.strings M pkg [key] w = .error .freedString w := by
    rw [seekKeys, bind_of_ok (getProp_of_get (World.get_of_own hown))]
    exact bind_of_error hentry _
  rw [seek]
  refine (bind_of_ok h.getProp_modules _).trans ?_
  rw [htype]
  refine (bind_of_ok henum _).trans ?_
  exact bind_of_error hseek _

/-- What properties have in the heap with one entry. -/
theorem refers_cachedWorld {key name s : Str} (h : Refers (cachedWorld key name .undefined) s) :
    s ∈ ownNames ∨ s = key ∨ s = name := by
  obtain ⟨r, p, hp, hs⟩ := h
  rcases r with _ | _ | _ | _ | r
  · cases List.mem_singleton.mp hp
    exact hs.elim (fun hs => .inl (hs ▸ by decide)) fun hs => by cases hs
  · cases List.mem_singleton.mp hp
    exact hs.elim (fun hs => .inr (.inl hs.symm)) fun hs => by cases hs
  · have hprops : ((cachedWorld key name .undefined).heap.get 2).props =
        [(keyLoader, .pointer 1), (keyDestory, .pointer 0), (keyLibs, .object 3)] := rfl
    rw [hprops] at hp
    simp only [List.mem_cons, List.not_mem_nil, or_false] at hp
    rcases hp with rfl | rfl | rfl
    all_goals exact hs.elim (fun hs => .inl (hs ▸ by decide)) fun hs => by cases hs
  · cases List.mem_singleton.mp hp
    exact hs.elim (fun hs => .inr (.inr hs.symm)) fun hs => by cases hs
  · cases hp

/-- Where an entry may be under the name `key`. -/
theorem in_cachedWorld {key : Str} (hkey : .string pkg = Value.string key → key ∈ held.strings)
    (hkeyType : type = .string key → key ∈ held.strings) :
    held.In (cachedWorld key keyLibs .undefined) (.string pkg) type := by
  intro s hs hrefers
  rcases refers_cachedWorld hrefers with hown | rfl | rfl
  · exact held.own s hown
  · exact hs.elim hkey hkeyType
  · exact held.own _ (by decide)

theorem noLoader_injective {s s' : Str} (h : noLoader s = noLoader s') : s = s' :=
  List.append_cancel_left (List.append_cancel_right (Value.string.inj h))

/-- What the search says of a type that has no entry. -/
theorem answer_cachedWorld (hneType : t ≠ keyLibs) :
    (tableOf (cachedLayout keyLibs) 1 (cachedWorld keyLibs keyLibs .undefined)).answer H
      (fun _ => none) outcome pkg (typeName (.string t)) = .error (noLoader t) := by
  have hfind : (tableOf (cachedLayout keyLibs) 1 (cachedWorld keyLibs keyLibs .undefined)).lookup H
      (fun _ => none) outcome pkg (typeName (.string t)) = none :=
    find_cachedWorld H outcome .undefined (.inr ⟨t, rfl, hneType⟩)
  have hrow : Assoc.find? (tableOf (cachedLayout keyLibs) 1
      (cachedWorld keyLibs keyLibs .undefined)) t = none := Assoc.find?_cons_ne hneType.symm
  rw [Table.answer, hfind, Option.elim_none]
  show Except.error ((Assoc.find? _ t).elim (noLoader t) _) = _
  rw [hrow]
  rfl

/-- A type with a zero byte that has no entry: the error names what is in front of
it. -/
theorem not_meets_truncatedType (ht : t ∈ held.strings) (hzero : cString t ≠ t)
    (hhas : H.prototype.has (cString t) = false) (hne : cString t ≠ keyLibs)
    (hneType : t ≠ keyLibs) (w' : World) :
    ¬ Meets H outcome (cachedLayout keyLibs) 1 (cachedWorld keyLibs keyLibs .undefined) held pkg
      (.string t) w' := by
  intro hmeets
  have hshaped := shaped_cachedWorld keyLibs keyLibs .undefined
  have hown : (cachedWorld keyLibs keyLibs .undefined).own 1 (cString t) = none :=
    Assoc.find?_cons_ne hne.symm
  obtain ⟨w'', hcode⟩ : ∃ w'', kgImport H (imports outcome) held (.string pkg) (.string t)
      (cachedWorld keyLibs keyLibs .undefined) = .error (.thrown (noLoader (cString t))) w'' :=
    kgImport_of_error fun _ => seek_noLoader (hshaped.of_heap rfl) ht hhas hown
  have hspec := hmeets.ends
  have henv : (cachedWorld keyLibs keyLibs .undefined).env = fun _ => none := rfl
  rw [hcode, henv, answer_cachedWorld hneType] at hspec
  have hname : noLoader (cString t) = noLoader t :=
    Fault.thrown.inj (EStateM.Result.error.inj hspec).1
  exact hzero (noLoader_injective hname)

/-- A call is only as it should be when its names are held. -/
theorem names_of_meets (hhas : H.prototype.has pkg = false)
    (h : ∀ κ M w, Shaped κ M w → held.In w (.string pkg) type →
      ∃ w', Meets H outcome κ M w held pkg type w') : Names held.strings (.string pkg) type := by
  have hlibs : keyLibs ∈ held.strings := held.own _ (by decide)
  have hin : held.In (cachedWorld keyLibs keyLibs .undefined) (.string pkg) type :=
    in_cachedWorld (fun _ => hlibs) fun _ => hlibs
  have hshaped := shaped_cachedWorld keyLibs keyLibs .undefined
  have htype : ∀ t, type = .string t → t ∈ held.strings := by
    rintro t rfl
    by_contra ht
    obtain ⟨w', hmeets⟩ := h _ 1 _ hshaped hin
    exact not_meets_of_freed (kgImport_of_error fun _ =>
      seek_freedType (hshaped.of_heap rfl) ht) w' hmeets
  refine ⟨?_, htype⟩
  rintro p ⟨⟩
  by_contra hpkg
  cases type with
  | string t =>
    have ht := htype t rfl
    by_cases hname : pkg = cString t
    · -- an entry for the type would hold the name
      have hzero : cString t ≠ t := fun heq => hpkg (hname ▸ heq.symm ▸ ht)
      have hne : cString t ≠ keyLibs := fun heq => hpkg (hname ▸ heq.symm ▸ hlibs)
      have hneType : t ≠ keyLibs := fun heq => hne (by rw [heq]; decide)
      obtain ⟨w', hmeets⟩ := h _ 1 _ hshaped hin
      exact not_meets_truncatedType ht hzero (hname ▸ hhas) hne hneType w' hmeets
    · have hshapedType := shaped_cachedWorld (cString t) keyLibs .undefined
      obtain ⟨w', hmeets⟩ := h _ 1 _ hshapedType <| in_cachedWorld
        (fun heq => absurd (Value.string.inj heq) hname) fun heq => Value.string.inj heq ▸ ht
      exact not_meets_of_freed (kgImport_of_error fun _ =>
        seek_freedPkg (hshapedType.of_heap rfl) ht hpkg (List.mem_singleton_self _)) w' hmeets
  | _ =>
    obtain ⟨w', hmeets⟩ := h _ 1 _ hshaped hin
    exact not_meets_of_freed (kgImport_of_error fun _ =>
      seek_freedPkg_untyped (hshaped.of_heap rfl) rfl hpkg rfl
        (enumOrder_singleton (by decide) (by decide))) w' hmeets

end Freed

/-- **When importing is the search in the table**: for every loader table,
environment, outcome and cache, if and only if neither the name of the module nor
the type has a zero byte, and both are held while the call runs. -/
theorem import_refines_iff (H : Host) (held : Held) (pkg : Str) (type : Value)
    (hpkg : H.prototype.has pkg = false)
    (htype : ∀ t, type = .string t → H.prototype.has t = false) :
    (∀ outcome κ M w, Shaped κ M w → held.In w (.string pkg) type →
      ∃ w', Meets H outcome κ M w held pkg type w') ↔
      (0 ∉ pkg ∧ pkg ∈ held.strings) ∧ ∀ t, type = .string t → 0 ∉ t ∧ t ∈ held.strings := by
  refine ⟨fun h => ?_, fun ⟨hname, hnameType⟩ outcome κ M w hshaped _ => ?_⟩
  swap
  · have hnames : Names held.strings (.string pkg) type :=
      ⟨fun p hp => Value.string.inj hp ▸ hname.2, fun t ht => (hnameType t ht).2⟩
    exact meets_of_not_mem hshaped hnames hname.1 (fun t ht => (hnameType t ht).1) hpkg htype
  have hnames := names_of_meets hpkg (h fun _ _ => .nothing)
  -- with a zero byte, a module is found in a heap where it is not
  have hkey : ∃ key, type.asCString = some key ∨ type.asCString = none ∧ key = text "js" := by
    cases htype : type.asCString with
    | some key => exact ⟨key, .inl rfl⟩
    | none => exact ⟨text "js", .inr ⟨rfl, rfl⟩⟩
  obtain ⟨key, hkey⟩ := hkey
  obtain ⟨w', hmeets⟩ := h (fun _ _ => .nothing) _ 1 _
    (shaped_cachedWorld key (cString pkg) .undefined) fun s hs _ => hs.elim (hnames.pkg s)
      (hnames.type s)
  have hsame : ¬ (pkg ≠ cString pkg ∨ ∃ t, type = .string t ∧ t ≠ key) := fun hne =>
    not_meets_cachedWorld H _ hnames hkey hne w' hmeets
  have hzero : 0 ∉ pkg :=
    cString_eq_self_iff.mp (by by_contra hne; exact hsame (.inl (Ne.symm hne)))
  refine ⟨⟨hzero, hnames.pkg pkg rfl⟩, ?_⟩
  rintro t rfl
  refine ⟨?_, hnames.type t rfl⟩
  rcases hkey with hkey | ⟨hkey, -⟩
  · rw [← cString_eq_self_iff]
    by_contra hne
    exact hsame (.inr ⟨t, rfl, fun heq => hne ((Option.some_injective _ hkey).trans heq.symm)⟩)
  · cases hkey

/-- `kg_import("my", "js")`, with literals. -/
theorem import_refines_iff_my :
    (∀ outcome κ M w, Shaped κ M w →
      (Held.of [text "my", text "js"]).In w (.string (text "my")) (.string (text "js")) →
      ∃ w', Meets (.initial fun _ => JsLoader.loader) outcome κ M w
        (.of [text "my", text "js"]) (text "my") (.string (text "js")) w') ↔
      (0 ∉ text "my" ∧ text "my" ∈ (Held.of [text "my", text "js"]).strings) ∧
        ∀ t, Value.string (text "js") = .string t →
          0 ∉ t ∧ t ∈ (Held.of [text "my", text "js"]).strings :=
  import_refines_iff (.initial fun _ => JsLoader.loader) (.of [text "my", text "js"]) (text "my")
    (.string (text "js")) (by decide) fun t ht => by cases ht; decide

/-- `kg_import("my\0x", "js")` is `kg_import("my", "js")`; and
`kg_import(["m", "y"].join(""), "js")` reads a string that was freed, also where
nothing was imported before. -/
theorem import_truncates :
    (¬ ∀ outcome κ M w, Shaped κ M w →
      ∃ w', Meets (.initial fun _ => JsLoader.loader) outcome κ M w
        (.of [text "my\x00x", text "js"]) (text "my\x00x") (.string (text "js")) w') ∧
    ∃ w', kgImport (.initial fun _ => JsLoader.loader) (imports fun _ _ => .nothing)
      (.of [text "js"]) (.string (text "my")) (.string (text "js"))
      (cachedWorld (text "js") (text "a") .undefined) = .error .freedString w' := by
  constructor
  · intro h
    obtain ⟨w', hmeets⟩ := h (fun _ _ => .nothing) _ 1 _
      (shaped_cachedWorld (text "js") (cString (text "my\x00x")) .undefined)
    have hnames : Names (Held.of [text "my\x00x", text "js"]).strings
        (.string (text "my\x00x")) (.string (text "js")) :=
      ⟨fun _ hs => Value.string.inj hs ▸ by decide, fun _ hs => Value.string.inj hs ▸ by decide⟩
    exact not_meets_cachedWorld _ _ hnames (.inl (by decide)) (.inl (by decide)) w' hmeets
  · refine kgImport_of_error fun trace => seek_freedPkg
      ((shaped_cachedWorld (text "js") (text "a") .undefined).of_heap rfl) ?_ ?_ ?_
    · decide
    · decide
    · exact List.mem_singleton_self _

end KgCpp.Scripts.Module
