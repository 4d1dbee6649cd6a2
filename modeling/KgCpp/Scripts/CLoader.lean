import KgCpp.Lib.Ledger
import KgCpp.Scripts.Loader

/-!
# The loader of C modules (`scripts/duktape-extras/modules/c.hpp`)

`module_import` opens a library with `dlopen`, calls the function `kg_duk_package` it looks
up there, and closes the library on every way out but the one with a module.

The function may import other C modules while it runs, which load libraries of their own, so
loading is a tree: a `Package`. With each answer the handle is noted that `dlopen` gave for
it. `run_balanced` says of any such tree that no library is closed twice or while its code
runs, and that in the end the handles that were opened and not closed are those noted with
a module.
-/

namespace KgCpp.Scripts.CLoader

open Lib Owned

/-- `module_path`. -/
def modulePath (lib pkg : Str) : Str :=
  if lib.getLast? = some 47 ∨ lib.getLast? = some 92 then lib ++ pkg ++ text ".so"
  else lib ++ text "/" ++ pkg ++ text ".so"

/-- `c_loader_t`. -/
def loader : Loader where
  moduleType := ⟨text "c", by decide⟩
  moduleEnv := ⟨text "KG_DUK_C_PATH", by decide⟩
  modulePath := modulePath

/-- `path + " not a module"`, as a C string. -/
def notModule (path : Str) : Value := .string (cString (path ++ text " not a module"))

/-- A heap, and the imports that were answered: what `dlopen` gave for each, and whether it
gave a module. Nothing reads these notes. -/
structure Process where
  world : World
  answered : List (Handle Nat × Bool)

/-- Programs on a heap, with a ledger of the libraries that are open. Opened twice, a library
has two handles: each is to be closed. -/
abbrev Libs (α : Type) := Action Fault (Owned Nat Process) α

/-- A library: whether `kg_duk_package` is found in it, and what a protected call of that does
where the library is open as the handle. -/
structure Library where
  symbol : Bool
  package : Nat → Libs (Value × Bool)

/-- `duk_pcall(ctx, 0)`, and whether it succeeds. -/
def pcall (call : Libs (Value × Bool)) : Action Fault (Frame (Owned Nat Process) Value) Bool := do
  let _ ← Stack.peek .invalidIndex (-1)
  Stack.pop .invalidIndex 1
  let r ← Stack.lift call
  Stack.push r.1
  pure r.2

/-- `module_import`, by what is at the path. -/
def moduleImport (library : Option Library) (path : Str) :
    Action Fault (Frame (Owned Nat Process) Value) Bool := do
  let handle ← Stack.lift (acquire id library.isNone)
  match library, handle with
  | some library, some handle =>
    -- `dlsym`
    Stack.lift (use (some handle))
    if !library.symbol then
      Stack.lift (release (some handle))
      Stack.push (notModule path)
      pure false
    else
      Stack.push (.function true handle)
      if !(← pcall (library.package handle)) then
        Stack.lift (release (some handle))
        pure false
      else if !(← Stack.look (fun v => v.any Value.isObject) (-1)) then
        Stack.lift (release (some handle))
        pure false
      else pure true
  | _, _ =>
    Stack.push .undefined
    pure false

/-- What `module_import` answers. -/
def answer (library : Option Library) (path : Str) : Libs (Value × Bool) := do
  let handle ← acquire id library.isNone
  match library, handle with
  | some library, some handle =>
    use (some handle)
    if !library.symbol then
      release (some handle)
      pure (notModule path, false)
    else
      let r ← library.package handle
      if r.2 && r.1.isObject then pure (r.1, true)
      else
        release (some handle)
        pure (r.1, false)
  | _, _ => pure (.undefined, false)

open Stack in
/-- Whatever happens, `module_import` leaves one value: what it answers. -/
theorem moduleImport_tracks (library : Option Library) (path : Str) (st : List Value) :
    Tracks (moduleImport library path) st (answer library path) fun b r st' =>
      b = r.2 ∧ st' = r.1 :: st := by
  rw [moduleImport, answer]
  refine tracks_lift_bind fun handle => ?_
  cases library with
  | none => exact tracks_shift (shifts_push _) (tracks_pure ⟨rfl, rfl⟩)
  | some library =>
    cases handle with
    | none => exact tracks_shift (shifts_push _) (tracks_pure ⟨rfl, rfl⟩)
    | some handle =>
      refine tracks_lift_bind fun _ => ?_
      split
      · exact tracks_lift_bind fun _ => tracks_shift (shifts_push _) (tracks_pure ⟨rfl, rfl⟩)
      · refine tracks_shift (shifts_push _) ?_
        rw [pcall, bind_assoc]
        refine tracks_shift (shifts_peek rfl) ?_
        rw [bind_assoc]
        refine tracks_shift (shifts_pop rfl) ?_
        rw [bind_assoc]
        refine tracks_lift_bind fun r => ?_
        rw [bind_assoc]
        refine tracks_shift (shifts_push _) ?_
        rw [pure_bind]
        obtain ⟨v, ok⟩ := r
        cases ok with
        | false => exact tracks_lift_bind fun _ => tracks_pure ⟨rfl, rfl⟩
        | true =>
          refine tracks_shift (shifts_look _ rfl) ?_
          show Tracks (if !v.isObject then _ else _) _ (if true && v.isObject then _ else _) _
          cases v.isObject with
          | false => exact tracks_lift_bind fun _ => tracks_pure ⟨rfl, rfl⟩
          | true => exact tracks_pure ⟨rfl, rfl⟩

/-! ## Loading in a tree -/

/-- What a function does, that of a library or the program: it returns or throws; it works on
the heap; or it has the loader import what is at a path, and goes on by what that answers.
`opens` and `symbol` say what `dlopen` and `dlsym` give, and `package` is the function of the
library. -/
inductive Package where
  | returns (v : Value)
  | throws (v : Value)
  | works (f : Store Obj → Store Obj) (next : Store Obj → Package)
  | imports (path : Str) (opens symbol : Bool) (package : Package)
      (next : Value × Bool → Package)

/-- A function runs, and its library, when it is in one, has to be open. -/
def code : Option Nat → Libs Unit
  | none => pure ()
  | some handle => use (some handle)

/-- A loader is asked, and what it leaves on the stack is taken. -/
def ask (library : Option Library) (path : Str) : Libs (Value × Bool) :=
  Stack.call [] do
    let ok ← moduleImport library path
    let v ← Stack.peek .invalidIndex (-1)
    pure (v, ok)

/-- The handle that `dlopen` gives next. -/
def nextHandle (opens : Bool) : Libs (Handle Nat) := fun s =>
  .ok (if opens then some s.next else none) s

/-- Run a function. -/
def Package.run : Package → Option Nat → Libs (Value × Bool)
  | .returns v, self => do
    code self
    pure (v, true)
  | .throws v, self => do
    code self
    pure (v, false)
  | .works f next, self => do
    code self
    change fun p => { p with world := { p.world with heap := f p.world.heap } }
    let p ← look
    run (next p.world.heap) self
  | .imports path opens symbol package next, self => do
    code self
    let handle ← nextHandle opens
    let r ← ask (if opens then some ⟨symbol, fun handle => run package (some handle)⟩ else none)
      path
    change fun p => { p with answered := p.answered ++ [(handle, r.2)] }
    run (next r) self

open Stack in
theorem ask_eq (library : Option Library) (path : Str) :
    ask library path = answer library path := by
  refine Stack.call_eq ?_
  rw [← bind_pure (answer library path)]
  refine tracks_bind (moduleImport_tracks library path []) ?_
  rintro b r _ ⟨rfl, rfl⟩
  exact tracks_shift (shifts_peek rfl) (tracks_pure rfl)

/-! ## The libraries that are open -/

/-- The library that stays open for an answer: that of a module. -/
def kept (a : Handle Nat × Bool) : Option Nat := if a.2 then a.1 else none

/-- The libraries whose import gave a module. -/
def loaded (s : Owned Nat Process) : Multiset Nat := s.state.answered.filterMap kept

/-- From `s` to `s'` no library was misused; `held` are open for the function that runs, and
of what others opened those are left whose import gave a module. -/
structure Opens (held : Multiset Nat) (s s' : Owned Nat Process) : Prop where
  fair : s'.misused = false
  answers : s.state.answered <+: s'.state.answered
  live : ∃ opened : Multiset Nat, s'.live = held + (opened + s.live) ∧
    loaded s' = loaded s + opened

section Rules

variable {held held' : Multiset Nat} {s s' s'' : Owned Nat Process} {handle : Nat}

theorem Opens.refl (h : s.misused = false) : Opens 0 s s :=
  ⟨h, List.prefix_refl _, 0, by simp, by simp⟩

theorem Opens.trans (h : Opens held s s') (h' : Opens held' s' s'') :
    Opens (held + held') s s'' := by
  obtain ⟨opened, hlive, hloaded⟩ := h.live
  obtain ⟨opened', hlive', hloaded'⟩ := h'.live
  refine ⟨h'.fair, h.answers.trans h'.answers, opened + opened', ?_, ?_⟩
  · rw [hlive', hlive]
    simp only [add_left_comm, add_comm]
  · rw [hloaded', hloaded, add_assoc]

/-- What is open stays open. -/
theorem Opens.mem (h : Opens held s s') (hmem : handle ∈ s.live) : handle ∈ s'.live := by
  obtain ⟨opened, hlive, -⟩ := h.live
  rw [hlive]
  exact Multiset.mem_add.mpr (.inr (Multiset.mem_add.mpr (.inr hmem)))

/-- What is held is open. -/
theorem Opens.mem_held (h : Opens {handle} s s') : handle ∈ s'.live := by
  obtain ⟨opened, hlive, -⟩ := h.live
  rw [hlive]
  exact Multiset.mem_add.mpr (.inl (Multiset.mem_singleton_self handle))

theorem use_of_mem (h : handle ∈ s.live) : (use (some handle) : Libs Unit) s = .ok ⟨⟩ s := by
  show EStateM.Result.ok () (if handle ∈ s.live then s else { s with misused := true }) = _
  rw [if_pos h]

/-- `dlclose` of a library that is held. -/
theorem opens_release (h : Opens {handle} s s') :
    ∃ t, (release (some handle) : Libs Unit) s' = .ok ⟨⟩ t ∧ Opens 0 s t := by
  refine ⟨{ s' with live := s'.live.erase handle }, ?_, h.fair, h.answers, ?_⟩
  · show EStateM.Result.ok () (if handle ∈ s'.live then _ else _) = _
    rw [if_pos h.mem_held]
  · obtain ⟨opened, hlive, hloaded⟩ := h.live
    refine ⟨opened, ?_, hloaded⟩
    show s'.live.erase handle = _
    rw [hlive, Multiset.singleton_add, Multiset.erase_cons_head, zero_add]

/-- `dlopen` of a library that is there gives the next handle. -/
theorem opens_acquire (h : s.misused = false) :
    ∃ t, (acquire id false : Libs (Handle Nat)) s = .ok (some s.next) t ∧ Opens {s.next} s t :=
  ⟨_, rfl, h, List.prefix_refl _, 0, by rw [zero_add, Multiset.singleton_add]; rfl,
    (add_zero _).symm⟩

/-- Note an answer. -/
def noted (s : Owned Nat Process) (a : Handle Nat × Bool) : Owned Nat Process :=
  { s with state := { s.state with answered := s.state.answered ++ [a] } }

theorem change_answered (s : Owned Nat Process) (a : Handle Nat × Bool) :
    (change fun p => { p with answered := p.answered ++ [a] } : Libs Unit) s =
      .ok ⟨⟩ (noted s a) := rfl

theorem loaded_noted (s : Owned Nat Process) (a : Handle Nat × Bool) :
    loaded (noted s a) = loaded s + ((kept a).toList : Multiset Nat) := by
  have hlast : [a].filterMap kept = (kept a).toList := by
    rw [List.filterMap_cons]
    cases kept a <;> rfl
  show ((s.state.answered ++ [a]).filterMap kept : Multiset Nat) = _
  rw [List.filterMap_append, ← Multiset.coe_add, hlast]
  rfl

/-- A library that is held for good is noted. -/
theorem Opens.noted {a : Handle Nat × Bool} (h : Opens ((kept a).toList : Multiset Nat) s s') :
    Opens 0 s (noted s' a) := by
  obtain ⟨opened, hlive, hloaded⟩ := h.live
  refine ⟨h.fair, h.answers.trans (List.prefix_append ..),
    ((kept a).toList : Multiset Nat) + opened, ?_, ?_⟩
  · show s'.live = _
    rw [hlive, zero_add, add_assoc]
  · rw [loaded_noted, hloaded, add_assoc, add_comm opened]

end Rules

/-- What runs while a library is open as `handle` keeps it open. -/
def Keeps (x : Libs (Value × Bool)) (s : Owned Nat Process) : Prop :=
  Ends x s (fun _ s' => Opens 0 s s') fun _ _ => False

/-- The library of a module stays open, and any other is closed. -/
theorem ends_answer (library : Option Library) (path : Str)
    (hpackage : ∀ l, library = some l → ∀ handle t, t.misused = false → handle ∈ t.live →
      Keeps (l.package handle) t) {s : Owned Nat Process} (hs : s.misused = false) :
    Ends (answer library path) s
      (fun r s' =>
        Opens ((kept (library.map fun _ => s.next, r.2)).toList : Multiset Nat) s s')
      fun _ _ => False := by
  rw [answer]
  cases library with
  | none => exact Opens.refl hs
  | some library =>
    obtain ⟨t, hacquire, hopen⟩ := opens_acquire hs
    refine ends_bind_of_ok hacquire (ends_bind_of_ok (use_of_mem hopen.mem_held) ?_)
    refine ends_ite (fun _ => ?_) fun _ => ?_
    · obtain ⟨u, hrelease, hclosed⟩ := opens_release hopen
      exact ends_bind_of_ok hrelease hclosed
    · refine ends_bind (hpackage library rfl s.next t hopen.fair hopen.mem_held) fun r u hu => ?_
      have hstill := hopen.trans hu
      rw [add_zero] at hstill
      refine ends_ite (fun _ => hstill) fun _ => ?_
      obtain ⟨v, hrelease, hclosed⟩ := opens_release hstill
      exact ends_bind_of_ok hrelease hclosed

/-- The library of a function that runs is open. -/
def Runs (self : Option Nat) (s : Owned Nat Process) : Prop :=
  s.misused = false ∧ ∀ handle, self = some handle → handle ∈ s.live

theorem code_of_runs {self : Option Nat} {s : Owned Nat Process} (h : Runs self s) :
    code self s = .ok ⟨⟩ s := by
  cases self with
  | none => rfl
  | some handle => exact use_of_mem (h.2 handle rfl)

theorem Runs.opens {self : Option Nat} {s s' : Owned Nat Process} (h : Runs self s)
    (hopens : Opens 0 s s') : Runs self s' :=
  ⟨hopens.fair, fun handle hself => hopens.mem (h.2 handle hself)⟩

/-- A function keeps what is open, whatever it imports. -/
theorem keeps_run (p : Package) :
    ∀ (self : Option Nat) (s : Owned Nat Process), Runs self s → Keeps (p.run self) s := by
  induction p with
  | returns v =>
    intro self s hs
    exact ends_bind_of_ok (code_of_runs hs) (Opens.refl hs.1)
  | throws v =>
    intro self s hs
    exact ends_bind_of_ok (code_of_runs hs) (Opens.refl hs.1)
  | works f next ih =>
    intro self s hs
    rw [Package.run]
    refine ends_bind_of_ok (code_of_runs hs) (ends_bind_of_ok rfl (ends_bind_of_ok rfl ?_))
    have hchange : ∀ world, Opens 0 s { s with state := { s.state with world := world } } :=
      fun world => ⟨hs.1, List.prefix_refl _, 0, by simp, (add_zero _).symm⟩
    refine (ih _ self _ (hs.opens (hchange _))).mono (fun _ s' hs' => ?_) fun _ _ h => h
    exact (hchange _).trans hs'
  | imports path opens symbol package next ihpackage ihnext =>
    intro self s hs
    rw [Package.run]
    rw [ask_eq]
    refine ends_bind_of_ok (code_of_runs hs) (ends_bind_of_ok rfl ?_)
    refine ends_bind (ends_answer _ path ?_ hs.1) fun r t ht => ?_
    · intro library hlibrary handle t hfair hmem
      split at hlibrary
      · cases hlibrary
        refine ihpackage (some handle) t ⟨hfair, fun handle' hself => ?_⟩
        cases hself
        exact hmem
      · cases hlibrary
    · have hhandle : (if opens = true then some (⟨symbol, fun handle =>
          package.run (some handle)⟩ : Library) else none).map (fun _ => s.next) =
            if opens = true then some s.next else none := by
        cases opens <;> rfl
      rw [hhandle] at ht
      have hanswers := ht.noted
      refine ends_bind_of_ok (change_answered ..) ?_
      exact (ihnext r self _ (hs.opens hanswers)).mono (fun _ u hu => hanswers.trans hu)
        fun _ _ h => h

/-- What a run of the program leaves of the libraries. -/
structure Balanced (s s' : Owned Nat Process) : Prop where
  /-- None was used, or closed, that was not open: no function runs whose library is closed. -/
  fair : s'.misused = false
  /-- What was open is open. -/
  kept : s.live ≤ s'.live
  /-- The notes that were there are there. -/
  answers : s.state.answered <+: s'.state.answered
  /-- The libraries that are open besides are those whose import gave a module since. -/
  opened : s'.live + loaded s = s.live + loaded s'

/-- **Libraries**: whatever a program and the functions of the libraries import, in each
other, however that ends. -/
theorem run_balanced (p : Package) (s : Owned Nat Process) (hfair : s.misused = false) :
    ∃ r s', p.run none s = .ok r s' ∧ Balanced s s' := by
  have h := keeps_run p none s ⟨hfair, fun _ h => by cases h⟩
  unfold Keeps Ends at h
  split at h
  · rename_i r s' hrun
    obtain ⟨opened, hlive, hloaded⟩ := h.live
    rw [zero_add] at hlive
    refine ⟨r, s', hrun, h.fair, hlive ▸ Multiset.le_add_left _ _, h.answers, ?_⟩
    rw [hlive, hloaded, add_assoc, add_comm opened, add_assoc]
  · exact h.elim

/-- A library whose function imports another one, and then throws; and a file that is no
module. -/
def outerThrows : Package :=
  .imports (text "/lib/a.so") true true
    (.imports (text "/lib/b.so") true true (.returns (.object 0)) fun r => .throws r.1)
    fun _ => .imports (text "/lib/c.so") true false (.returns .null) fun r => .returns r.1

/-- A process without libraries. -/
def start : Owned Nat Process := ⟨⟨World.create fun _ => none, []⟩, 0, 0, false⟩

/-- The libraries that are open in the end. -/
def stillOpen : EStateM.Result Fault (Owned Nat Process) (Value × Bool) → Multiset Nat
  | .ok _ s => s.live
  | .error _ s => s.live

/-- The library `b.so`, opened second, stays open. -/
theorem run_balanced_outerThrows : stillOpen (outerThrows.run none start) = {1} ∧
    ∃ r s', outerThrows.run none start = .ok r s' ∧ Balanced start s' :=
  ⟨by decide +kernel, run_balanced outerThrows start rfl⟩

end KgCpp.Scripts.CLoader
