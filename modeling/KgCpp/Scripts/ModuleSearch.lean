import KgCpp.Scripts.Module

/-!
# The module system without its stack

`seek` is what `native_import` computes, said of the objects alone: which
property is read of which object, what is written where, and when the characters
of a name are read. `kgImport_eq` says that the program on the value stack is just
that, for all worlds, arguments and loaders: on every path through its two loops
each index names the value that is meant, no pop takes more than there is, and one
value is returned. With names that are held it is `search` (`seek_of_held`), where
no characters are read any more.

`register`, `destory` and `setUp` are the same for the other functions.
-/

namespace KgCpp.Scripts.Module

open Lib Stack

variable (H : Host)

/-! ## Importing -/

/-- A loader is asked for the module at a path. -/
def ask (imp : ModuleImport) (loader : Ptr) (pkg path : Str) : Protected := do
  note (.calls loader pkg path)
  let r ← imp loader path
  note (.answers loader pkg path r.1 r.2)
  pure r

/-- Ask a loader for a module in one directory after another. A module goes to
`libs`, and an error ends the search, too. -/
def searchEntries (imp : ModuleImport) (loader : Ptr) (libs : Value) (pkg : Str) :
    List Str → Action Fault World (Option Value)
  | [] => pure none
  | entry :: entries =>
    if trim entry = [] then searchEntries imp loader libs pkg entries
    else do
      let r ← ask imp loader pkg ((H.loader loader).modulePath (trim entry) pkg)
      if r.2 then
        setProp H.prototype libs pkg r.1
        note (.stores loader pkg r.1)
        pure (some r.1)
      else if r.1 ≠ .undefined then pure (some r.1)
      else searchEntries imp loader libs pkg entries

/-- Search the path of a loader. -/
def searchLoader (imp : ModuleImport) (loader : Ptr) (libs : Value) (pkg : Str) :
    Action Fault World (Option Value) := do
  match ← getenv (H.loader loader).moduleEnv with
  | none => pure none
  | some env => searchEntries H imp loader libs pkg (splitPath env)

/-- Look a module up in the table `M`, with a type. -/
def searchTyped (imp : ModuleImport) (M : Value) (key pkg : Str) :
    Action Fault World Value := do
  match ← getProp H.prototype M key with
  | none => throw (.thrown (noLoader key))
  | some entry =>
    match ← getProp H.prototype entry keyLibs with
    | none => throw (.thrown (notLibs key))
    | some libs =>
      match ← getProp H.prototype libs pkg with
      | some v => pure v
      | none =>
        match ← getProp H.prototype entry keyLoader with
        | none => throw (.thrown (notLoader key))
        | some p =>
          if p.asPointer = 0 then throw (.thrown (notLoader key))
          else
            match ← searchLoader H imp p.asPointer libs pkg with
            | some v => pure v
            | none => throw (.thrown (noLoaderModule key pkg))

/-- Look a module up in an entry of the table. -/
def searchEntry (imp : ModuleImport) (entry : Value) (pkg : Str) :
    Action Fault World (Option Value) := do
  match ← getProp H.prototype entry keyLibs with
  | none => pure none
  | some libs =>
    match ← getProp H.prototype libs pkg with
    | some v => pure (some v)
    | none =>
      match ← getProp H.prototype entry keyLoader with
      | none => pure none
      | some p =>
        if p.asPointer = 0 then pure none
        else searchLoader H imp p.asPointer libs pkg

/-- Look a module up in one entry after another, of the table under `r`. -/
def searchKeys (imp : ModuleImport) (r : Ref) (pkg : Str) :
    List Str → Action Fault World (Option Value)
  | [] => pure none
  | key :: keys => do
    match ← getProp H.prototype (.object r) key with
    | none => searchKeys imp r pkg keys
    | some entry =>
      match ← searchEntry H imp entry pkg with
      | some v => pure (some v)
      | none => searchKeys imp r pkg keys

/-- Look a module up in the table `M`, without a type. -/
def searchUntyped (imp : ModuleImport) (M : Value) (pkg : Str) : Action Fault World Value := do
  match ← enumerate M with
  | .enumerator r keys =>
    match ← searchKeys H imp r pkg keys with
    | some v => pure v
    | none => throw (.thrown (noModule pkg))
  | _ => throw .exhausted

/-- What `native_import` computes, when its names can be read. -/
def search (imp : ModuleImport) (pkg type : Value) : Action Fault World Value :=
  match pkg.asCString with
  | none => throw (.thrown noModuleName)
  | some pkg => do
    match ← getProp H.prototype (.object World.global) keyModules with
    | none => throw (.thrown noModules)
    | some M =>
      match type.asCString with
      | some key => searchTyped H imp M key pkg
      | none => searchUntyped H imp M pkg

/-! ### Names that are read after they were popped -/

/-- `searchTyped`, by what is behind the pointers. -/
def seekTyped (imp : ModuleImport) (held : List Str) (M : Value) (key pkg : Str) :
    Action Fault World Value := do
  match ← getProp H.prototype M (← chars held key) with
  | none => throw (.thrown (noLoader (← chars held key)))
  | some entry =>
    match ← getProp H.prototype entry keyLibs with
    | none => throw (.thrown (notLibs (← chars held key)))
    | some libs =>
      match ← getProp H.prototype libs (← chars held pkg) with
      | some v => pure v
      | none =>
        match ← getProp H.prototype entry keyLoader with
        | none => throw (.thrown (notLoader (← chars held key)))
        | some p =>
          if p.asPointer = 0 then throw (.thrown (notLoader (← chars held key)))
          else
            match ← searchLoader H imp p.asPointer libs (← chars held pkg) with
            | some v => pure v
            | none => throw (.thrown (noLoaderModule (← chars held key) (← chars held pkg)))

/-- `searchEntry`, by what is behind the pointer. -/
def seekEntry (imp : ModuleImport) (held : List Str) (entry : Value) (pkg : Str) :
    Action Fault World (Option Value) := do
  match ← getProp H.prototype entry keyLibs with
  | none => pure none
  | some libs =>
    match ← getProp H.prototype libs (← chars held pkg) with
    | some v => pure (some v)
    | none =>
      match ← getProp H.prototype entry keyLoader with
      | none => pure none
      | some p =>
        if p.asPointer = 0 then pure none
        else searchLoader H imp p.asPointer libs (← chars held pkg)

/-- `searchKeys`, by what is behind the pointer. -/
def seekKeys (imp : ModuleImport) (held : List Str) (r : Ref) (pkg : Str) :
    List Str → Action Fault World (Option Value)
  | [] => pure none
  | key :: keys => do
    match ← getProp H.prototype (.object r) key with
    | none => seekKeys imp held r pkg keys
    | some entry =>
      match ← seekEntry H imp held entry pkg with
      | some v => pure (some v)
      | none => seekKeys imp held r pkg keys

/-- `searchUntyped`, by what is behind the pointer. -/
def seekUntyped (imp : ModuleImport) (held : List Str) (M : Value) (pkg : Str) :
    Action Fault World Value := do
  match ← enumerate M with
  | .enumerator r keys =>
    match ← seekKeys H imp held r pkg keys with
    | some v => pure v
    | none => throw (.thrown (noModule (← chars held pkg)))
  | _ => throw .exhausted

/-- What `native_import` computes. -/
def seek (imp : ModuleImport) (held : List Str) (pkg type : Value) : Action Fault World Value :=
  match pkg.asString with
  | none => throw (.thrown noModuleName)
  | some pkg => do
    match ← getProp H.prototype (.object World.global) keyModules with
    | none => throw (.thrown noModules)
    | some M =>
      match type.asString with
      | some key => seekTyped H imp held M key pkg
      | none => seekUntyped H imp held M pkg

section Held

variable {H} {held : List Str} {key pkg : Str}

theorem seekTyped_of_held (hkey : key ∈ held) (hpkg : pkg ∈ held) (imp : ModuleImport)
    (M : Value) :
    seekTyped H imp held M key pkg = searchTyped H imp M (cString key) (cString pkg) := by
  simp only [seekTyped, searchTyped, chars_of_mem hkey, chars_of_mem hpkg, pure_bind]

theorem seekEntry_of_held (hpkg : pkg ∈ held) (imp : ModuleImport) (entry : Value) :
    seekEntry H imp held entry pkg = searchEntry H imp entry (cString pkg) := by
  simp only [seekEntry, searchEntry, chars_of_mem hpkg, pure_bind]

theorem seekKeys_of_held (hpkg : pkg ∈ held) (imp : ModuleImport) (r : Ref) (keys : List Str) :
    seekKeys H imp held r pkg keys = searchKeys H imp r (cString pkg) keys := by
  induction keys with
  | nil => rfl
  | cons key keys ih => simp only [seekKeys, searchKeys, seekEntry_of_held hpkg, ih]

theorem seekUntyped_of_held (hpkg : pkg ∈ held) (imp : ModuleImport) (M : Value) :
    seekUntyped H imp held M pkg = searchUntyped H imp M (cString pkg) := by
  simp only [seekUntyped, searchUntyped, seekKeys_of_held hpkg, chars_of_mem hpkg, pure_bind]

/-- The names of a call that are strings are held. -/
structure Names (held : List Str) (pkg type : Value) : Prop where
  pkg : ∀ s, pkg = .string s → s ∈ held
  type : ∀ s, type = .string s → s ∈ held

/-- **Names that are held can be read.** -/
theorem seek_of_held {pkg type : Value} (h : Names held pkg type) (imp : ModuleImport) :
    seek H imp held pkg type = search H imp pkg type := by
  cases pkg with
  | string p =>
    cases type with
    | string t => simp only [seek, search, Value.asString, Value.asCString, Option.map_some,
        seekTyped_of_held (h.type t rfl) (h.pkg p rfl)]
    | _ => simp only [seek, search, Value.asString, Value.asCString, Option.map_some,
        Option.map_none, seekUntyped_of_held (h.pkg p rfl)]
  | _ => rfl

end Held

/-! ### The program on the stack -/

variable {H} {st : List Value}

theorem tracks_fail {α β : Type} {R : α → β → List Value → Prop} (message : Value) :
    Tracks (fail message) st (throw (.thrown message) : Action Fault World β) R :=
  Duk.tracks_push Duk.tracks_throwTop

theorem tracks_moduleImport (imp : ModuleImport) (loader : Ptr) (pkg path : Str) :
    Tracks (moduleImport imp loader pkg path) st (ask imp loader pkg path) fun b r st' =>
      b = r.2 ∧ st' = r.1 :: st :=
  tracks_lift_bind fun _ => tracks_lift_bind fun _ => tracks_lift_bind fun _ =>
    Duk.tracks_push (tracks_pure ⟨rfl, rfl⟩)

/-- The stack of `import_pkg` has `libs` on top, and in the end the module behind
it. -/
theorem tracks_importEntries (imp : ModuleImport) (loader : Ptr) (libs : Value) (pkg : Str)
    (entries : List Str) :
    Tracks (importEntries H imp loader pkg entries) (libs :: st)
      (searchEntries H imp loader libs pkg entries) fun b found st' =>
        b = found.isSome ∧ st' = found.toList ++ libs :: st := by
  induction entries with
  | nil => exact tracks_pure ⟨rfl, rfl⟩
  | cons entry entries ih =>
    rw [importEntries, searchEntries]
    split
    · exact ih
    refine tracks_bind (tracks_moduleImport imp loader pkg _) ?_
    rintro _ ⟨v, ok⟩ _ ⟨rfl, rfl⟩
    split
    · refine Duk.tracks_dupTop (tracks_shift (shifts_peek rfl) ?_)
      refine tracks_bind (Duk.tracks_putPropLstring rfl pkg) ?_
      rintro _ _ _ rfl
      exact tracks_lift_bind fun _ => tracks_pure ⟨rfl, rfl⟩
    · have htop : get? (v :: libs :: st) (-1) = some v := rfl
      refine tracks_shift (shifts_look _ htop) ?_
      by_cases hv : v = .undefined
      · rw [if_neg (by simp [hv]), if_neg (by simp [hv])]
        exact Duk.tracks_pop rfl ih
      · rw [if_pos (by simp [hv]), if_pos hv]
        exact tracks_pure ⟨rfl, rfl⟩

theorem tracks_importPkg (imp : ModuleImport) (loader : Ptr) (libs : Value) (pkg : Str) :
    Tracks (importPkg H imp loader pkg) (libs :: st) (searchLoader H imp loader libs pkg)
      fun b found st' => b = found.isSome ∧ st' = found.toList ++ libs :: st := by
  refine tracks_lift_bind fun env => ?_
  cases env with
  | none => exact tracks_pure ⟨rfl, rfl⟩
  | some env => exact tracks_importEntries imp loader libs pkg _

/-- Where the value a program returns is on top. -/
abbrev Returns (n : Nat) (v : Value) (st : List Value) : Prop := n = 1 ∧ st.head? = some v

/-- An error whose text has a name in it. -/
theorem tracks_fail_chars {α β : Type} {R : α → β → List Value → Prop} (held : List Str)
    (name : Str) (message : Str → Value) :
    Tracks (chars held name >>= fun c => fail (message c)) st
      (chars held name >>= fun c => (throw (.thrown (message c)) : Action Fault World β)) R :=
  Duk.tracks_chars fun _ => tracks_fail _

theorem tracks_importTyped (imp : ModuleImport) (held : List Str) (M : Value) (key pkg : Str) :
    Tracks (importTyped H imp held key pkg) (M :: st) (seekTyped H imp held M key pkg)
      Returns := by
  refine Duk.tracks_chars fun keyChars => tracks_bind (Duk.tracks_getPropString rfl keyChars) ?_
  rintro _ (_ | entry) _ ⟨rfl, rfl⟩
  · exact tracks_fail_chars held key noLoader
  refine tracks_bind (Duk.tracks_getPropString rfl keyLibs) ?_
  rintro _ (_ | libs) _ ⟨rfl, rfl⟩
  · exact tracks_fail_chars held key notLibs
  refine Duk.tracks_chars fun pkgChars => tracks_bind (Duk.tracks_getPropString rfl pkgChars) ?_
  rintro _ (_ | v) _ ⟨rfl, rfl⟩
  swap
  · exact tracks_pure ⟨rfl, rfl⟩
  refine Duk.tracks_pop rfl (tracks_bind (Duk.tracks_getPropString rfl keyLoader) ?_)
  rintro _ (_ | p) _ ⟨rfl, rfl⟩
  · exact tracks_fail_chars held key notLoader
  refine tracks_shift (shifts_look _ rfl) ?_
  show Tracks (if p.asPointer = 0 then _ else _) _ _ _
  dsimp only
  split
  · exact tracks_fail_chars held key notLoader
  refine Duk.tracks_pop rfl (Duk.tracks_chars fun pkgChars =>
    tracks_bind (tracks_importPkg imp p.asPointer libs pkgChars) ?_)
  rintro _ (_ | v) _ ⟨rfl, rfl⟩
  · exact Duk.tracks_chars fun keyChars => tracks_fail_chars held pkg (noLoaderModule keyChars)
  · exact tracks_pure ⟨rfl, rfl⟩

/-- What `duk_next` does, by the next key there is. -/
def nextFrame (w : World) (r : Ref) (st : List Value) :
    Option (Str × Value × List Str) → EStateM.Result Fault (Frame World Value) Bool
  | some (k, v, ks) => .ok true ⟨w, v :: .string k :: .enumerator r ks :: st⟩
  | none => .ok false ⟨w, .enumerator r [] :: st⟩

theorem next_eq (w : World) (r : Ref) (keys : List Str) (st : List Value) :
    Duk.next H.prototype ⟨w, .enumerator r keys :: st⟩ =
      nextFrame w r st (w.nextKey H.prototype r keys) := by
  have htop : Duk.require (-1) ⟨w, .enumerator r keys :: st⟩ =
      .ok (.enumerator r keys) ⟨w, .enumerator r keys :: st⟩ := shifts_peek rfl w
  rw [Duk.next, bind_of_ok htop]
  refine (bind_of_ok (lift_of_ok rfl _) _).trans ?_
  cases w.nextKey H.prototype r keys <;> rfl

section NextKey

variable {w : World} {r : Ref} {key : Str} {keys : List Str}

/-- No key is left. -/
theorem next_nil (w : World) (r : Ref) (st : List Value) :
    Duk.next H.prototype ⟨w, .enumerator r [] :: st⟩ = .ok false ⟨w, .enumerator r [] :: st⟩ :=
  next_eq w r [] st

/-- The next key is gone, and skipped, whatever the turns of the loop are. -/
theorem next_gone (hget : w.get H.prototype r key = none) {α : Type} (turn : Bool → Duk α) :
    (Duk.next H.prototype >>= turn) ⟨w, .enumerator r (key :: keys) :: st⟩ =
      (Duk.next H.prototype >>= turn) ⟨w, .enumerator r keys :: st⟩ := by
  have hskip : w.nextKey H.prototype r (key :: keys) = w.nextKey H.prototype r keys := by
    rw [World.nextKey, hget]
  have hsame : Duk.next H.prototype ⟨w, .enumerator r (key :: keys) :: st⟩ =
      Duk.next H.prototype ⟨w, .enumerator r keys :: st⟩ := by
    rw [next_eq, next_eq, hskip]
  show EStateM.bind _ _ _ = EStateM.bind _ _ _
  rw [EStateM.bind, EStateM.bind, hsame]

/-- The next key is still there. -/
theorem next_here {entry : Value} (hget : w.get H.prototype r key = some entry)
    (st : List Value) : Duk.next H.prototype ⟨w, .enumerator r (key :: keys) :: st⟩ =
      .ok true ⟨w, entry :: .string key :: .enumerator r keys :: st⟩ := by
  rw [next_eq, World.nextKey, hget]
  rfl

end NextKey

/-- How the loop ends: it leaves the module on top, or the enumerator at its
end. -/
structure LoopEnds (r : Ref) (st : List Value) (b : Bool) (found : Option Value)
    (st' : List Value) : Prop where
  answer : b = found.isSome
  value : ∀ v, found = some v → st'.head? = some v
  stack : found = none → st' = .enumerator r [] :: st

/-- The rest of a turn of the loop, with an entry on top. -/
def importTurn (H : Host) (imp : ModuleImport) (held : List Str) (pkg : Str) (n : Nat) :
    Duk Bool := do
  if !(← Duk.getPropString H.prototype (-1) keyLibs) then
    Duk.pop 3
    importLoop H imp held pkg n
  else if ← Duk.getPropString H.prototype (-1) (← chars held pkg) then pure true
  else
    Duk.pop 1
    if !(← Duk.getPropString H.prototype (-2) keyLoader) then
      Duk.pop 4
      importLoop H imp held pkg n
    else
      let loader ← Duk.getPointer (-1)
      if loader = 0 then
        Duk.pop 4
        importLoop H imp held pkg n
      else
        Duk.pop 1
        if ← importPkg H imp loader (← chars held pkg) then pure true
        else
          Duk.pop 3
          importLoop H imp held pkg n

theorem importLoop_succ (imp : ModuleImport) (held : List Str) (pkg : Str) (n : Nat) :
    importLoop H imp held pkg (n + 1) = (Duk.next H.prototype >>= fun b =>
      if (!b) = true then pure false else importTurn H imp held pkg n) := rfl

/-- A turn: every way on leads back to the stack of the loop. -/
theorem tracks_importTurn (imp : ModuleImport) (held : List Str) (entry e : Value) (k pkg : Str)
    (n : Nat) {y : Action Fault World (Option Value)}
    {R : Bool → Option Value → List Value → Prop}
    (hrest : Tracks (importLoop H imp held pkg n) (e :: st) y R)
    (hfound : ∀ v st', st'.head? = some v → R true (some v) st') :
    Tracks (importTurn H imp held pkg n) (entry :: .string k :: e :: st)
      (seekEntry H imp held entry pkg >>= fun found => found.elim y fun v => pure (some v)) R := by
  rw [importTurn, seekEntry, bind_assoc]
  refine tracks_bind (Duk.tracks_getPropString rfl keyLibs) ?_
  rintro _ (_ | libs) _ ⟨rfl, rfl⟩
  · exact Duk.tracks_pop rfl hrest
  dsimp only
  rw [bind_assoc]
  refine Duk.tracks_chars fun pkgChars => ?_
  rw [bind_assoc]
  refine tracks_bind (Duk.tracks_getPropString rfl pkgChars) ?_
  rintro _ (_ | v) _ ⟨rfl, rfl⟩
  swap
  · exact tracks_pure (hfound v _ rfl)
  dsimp only
  rw [bind_assoc]
  refine Duk.tracks_pop rfl (tracks_bind (Duk.tracks_getPropString rfl keyLoader) ?_)
  rintro _ (_ | p) _ ⟨rfl, rfl⟩
  · exact Duk.tracks_pop rfl hrest
  refine tracks_shift (shifts_look _ rfl) ?_
  show Tracks (if p.asPointer = 0 then _ else _) _
    ((if p.asPointer = 0 then _ else _) >>= _) _
  split
  · exact Duk.tracks_pop rfl hrest
  rw [bind_assoc]
  refine Duk.tracks_pop rfl (Duk.tracks_chars fun pkgChars =>
    tracks_bind (tracks_importPkg imp p.asPointer libs pkgChars) ?_)
  rintro _ (_ | v) _ ⟨rfl, rfl⟩
  · exact Duk.tracks_pop rfl hrest
  · exact tracks_pure (hfound v _ rfl)

/-- The loop has a turn for each key that is still there. -/
theorem tracks_importLoop (imp : ModuleImport) (held : List Str) (r : Ref) (pkg : Str)
    (keys : List Str) (n : Nat) (hn : keys.length ≤ n) :
    Tracks (importLoop H imp held pkg (n + 1)) (.enumerator r keys :: st)
      (seekKeys H imp held r pkg keys) (LoopEnds r st) := by
  induction keys generalizing n with
  | nil =>
    intro w
    rw [importLoop_succ, bind_of_ok (next_nil w r st)]
    exact .returns ⟨rfl, fun _ h => (by cases h), fun _ => rfl⟩
  | cons key keys ih =>
    intro w
    rw [List.length_cons] at hn
    obtain ⟨n, rfl⟩ := Nat.exists_eq_succ_of_ne_zero (by omega : n ≠ 0)
    cases hget : w.get H.prototype r key with
    | none =>
      -- the key is gone, and skipped on both sides
      have hleft : importLoop H imp held pkg (n + 1 + 1) ⟨w, .enumerator r (key :: keys) :: st⟩ =
          importLoop H imp held pkg (n + 1 + 1) ⟨w, .enumerator r keys :: st⟩ := next_gone hget _
      have hright : seekKeys H imp held r pkg (key :: keys) w =
          seekKeys H imp held r pkg keys w := by
        rw [seekKeys, bind_of_ok (getProp_of_get hget)]
      rw [hleft, hright]
      exact ih (n + 1) (by omega) w
    | some entry =>
      have hleft : importLoop H imp held pkg (n + 1 + 1) ⟨w, .enumerator r (key :: keys) :: st⟩ =
          importTurn H imp held pkg (n + 1)
            ⟨w, entry :: .string key :: .enumerator r keys :: st⟩ := by
        rw [importLoop_succ, bind_of_ok (next_here hget st), if_neg (by decide)]
      have hright : seekKeys H imp held r pkg (key :: keys) w =
          (seekEntry H imp held entry pkg >>= fun found =>
            found.elim (seekKeys H imp held r pkg keys) fun v => pure (some v)) w := by
        rw [seekKeys, bind_of_ok (getProp_of_get hget)]
        refine congrFun (congrArg (seekEntry H imp held entry pkg >>= ·) (funext fun found => ?_)) w
        cases found <;> rfl
      rw [hleft, hright]
      refine tracks_importTurn imp held entry _ key pkg (n + 1) (ih n (by omega)) ?_ w
      exact fun v st' h => ⟨rfl, fun v' hv => (by cases hv; exact h), fun hv => (by cases hv)⟩

theorem tracks_importUntyped (imp : ModuleImport) (held : List Str) (M : Value) (pkg : Str) :
    Tracks (importUntyped H imp held pkg) (M :: st) (seekUntyped H imp held M pkg) Returns := by
  refine tracks_bind (Duk.tracks_enum rfl) ?_
  rintro _ e _ rfl
  have hother : ∀ v : Value, Tracks (importLoop H imp held pkg 0 >>= fun b => do
      if b then pure 1
      else
        Duk.pop 1
        fail (noModule (← chars held pkg))) (v :: M :: st) (throw .exhausted) Returns := by
    intro v w
    have herr : importLoop H imp held pkg 0 ⟨w, v :: M :: st⟩ =
        .error .exhausted ⟨w, v :: M :: st⟩ := rfl
    rw [bind_of_error herr]
    exact .throws ..
  cases e with
  | enumerator r keys =>
    refine tracks_shift (shifts_look _ rfl) (tracks_bind
      (tracks_importLoop imp held r pkg keys keys.length (Nat.le_refl _)) ?_)
    rintro _ found st' ⟨rfl, hvalue, hstack⟩
    cases found with
    | some v => exact tracks_pure ⟨rfl, hvalue v rfl⟩
    | none =>
      rw [hstack rfl]
      exact Duk.tracks_pop rfl (tracks_fail_chars held pkg noModule)
  | _ => exact tracks_shift (shifts_look _ rfl) (hother _)

theorem tracks_nativeImport (imp : ModuleImport) (held : List Str) (pkg type : Value) :
    Tracks (nativeImport H imp held) [type, pkg] (seek H imp held pkg type) Returns := by
  refine tracks_shift (shifts_look _ rfl) ?_
  show Tracks (if (!pkg.asString.isSome) = true then _ else _) _ _ _
  rw [seek]
  cases hpkg : pkg.asString with
  | none => exact tracks_fail _
  | some name =>
    refine tracks_shift (shifts_look _ rfl) (tracks_shift (shifts_look _ rfl) ?_)
    refine Duk.tracks_pop rfl (tracks_bind (Duk.tracks_getGlobalString keyModules) ?_)
    show ∀ c d st', _ → Tracks (if (!c) = true then _ else _) _ _ _
    rintro _ (_ | M) _ ⟨rfl, rfl⟩
    · exact tracks_fail _
    show Tracks (match type.asString with
      | some key => importTyped H imp held key (pkg.asString.getD [])
      | none => importUntyped H imp held (pkg.asString.getD [])) _ _ _
    rw [hpkg]
    cases type.asString with
    | some key => exact tracks_importTyped imp held M key name
    | none => exact tracks_importUntyped imp held M name

/-- **The stack discipline of `kg_import`**: with any loaders, in any world, it
computes what `seek` does, and its stack never underflows. -/
theorem kgImport_eq (imp : ModuleImport) (held : Held) (pkg type : Value) :
    kgImport H imp held pkg type =
      noting pkg type held.strings (seek H imp held.strings pkg type) := by
  refine congrArg (noting pkg type held.strings) (call_eq ?_)
  rw [← bind_pure (seek H imp held.strings pkg type)]
  refine tracks_bind (tracks_nativeImport imp held.strings pkg type) ?_
  rintro _ v st' ⟨rfl, hv⟩
  cases st' with
  | nil => cases hv
  | cons v' st' =>
    cases hv
    rw [← bind_pure (result 1)]
    exact tracks_shift (shifts_peek rfl) (tracks_pure rfl)

/-- With names that are held it is the search. -/
theorem kgImport_of_held (imp : ModuleImport) {held : Held} {pkg type : Value}
    (h : Names held.strings pkg type) :
    kgImport H imp held pkg type =
      noting pkg type held.strings (search H imp pkg type) := by
  rw [kgImport_eq, seek_of_held h]

/-! ## Registering loaders -/

/-- Free the loader of an entry. -/
def freeEntry (H : Host) (entry : Value) : Action Fault World Unit := do
  let f ← getProp H.prototype entry keyDestory
  if (f.getD .undefined).asPointer = 0 then pure ()
  else do
    let loader ← getProp H.prototype entry keyLoader
    free (f.getD .undefined).asPointer (loader.getD .undefined).asPointer

/-- Free the loader of the entry there is already. -/
def freeOld (H : Host) : Option Value → Action Fault World Unit
  | some entry => freeEntry H entry
  | none => pure ()

/-- A new entry. -/
def newEntry (H : Host) (loader fft : Ptr) : Action Fault World Ref := do
  let r ← newObject
  setProp H.prototype (.object r) keyLoader (.pointer loader)
  setProp H.prototype (.object r) keyDestory (.pointer fft)
  let libs ← newObject
  setProp H.prototype (.object r) keyLibs (.object libs)
  pure r

/-- A loader gets its entry. -/
def enter (H : Host) (loader fft : Ptr) : Action Fault World Unit := do
  let M ← getProp H.prototype (.object World.global) keyModules
  let old ← getProp H.prototype (M.getD .undefined) (H.loader loader).moduleType.val
  freeOld H old
  let r ← newEntry H loader fft
  setProp H.prototype (M.getD .undefined) (H.loader loader).moduleType.val (.object r)

/-- What `register_loader` does. -/
def register (H : Host) (loader fft : Ptr) : Action Fault World Unit := do
  note (.registers loader)
  enter H loader fft

theorem tracks_freeLoader (entry : Value) :
    Tracks (freeLoader H) (entry :: st) (freeEntry H entry) fun _ _ st' => st' = entry :: st := by
  refine tracks_bind (Duk.tracks_getPropString rfl keyDestory) ?_
  rintro _ f _ ⟨rfl, rfl⟩
  refine tracks_shift (shifts_look _ rfl) (Duk.tracks_pop rfl ?_)
  show Tracks (if (f.getD .undefined).asPointer = 0 then _ else _) _ _ _
  split
  · exact tracks_pure rfl
  refine tracks_bind (Duk.tracks_getPropString rfl keyLoader) ?_
  rintro _ loader _ ⟨rfl, rfl⟩
  refine tracks_shift (shifts_look _ rfl) (Duk.tracks_pop rfl ?_)
  exact (tracks_lift _).mono fun _ _ _ h => h.2

theorem tracks_pushEntry (loader fft : Ptr) :
    Tracks (pushEntry H loader fft) st (newEntry H loader fft) fun _ r st' =>
      st' = .object r :: st := by
  refine tracks_bind Duk.tracks_pushObject ?_
  rintro _ r _ rfl
  refine Duk.tracks_push (Duk.tracks_push (tracks_bind (Duk.tracks_putProp rfl) ?_))
  rintro _ _ _ rfl
  refine Duk.tracks_push (Duk.tracks_push (tracks_bind (Duk.tracks_putProp rfl) ?_))
  rintro _ _ _ rfl
  refine Duk.tracks_push (tracks_bind Duk.tracks_pushObject ?_)
  rintro _ libs _ rfl
  rw [← bind_pure (Duk.putProp _ _)]
  refine tracks_bind (Duk.tracks_putProp rfl) ?_
  rintro _ _ _ rfl
  exact tracks_pure rfl

/-- `register_loader` leaves the stack as it was. -/
theorem tracks_registerLoader (loader fft : Ptr) :
    Tracks (registerLoader H loader fft) st (register H loader fft) fun b _ st' =>
      b = true ∧ st' = st := by
  refine tracks_lift_bind fun _ => Duk.tracks_push ?_
  refine tracks_bind (Duk.tracks_getPropString rfl keyModules) ?_
  rintro _ M _ ⟨rfl, rfl⟩
  refine tracks_bind (Duk.tracks_getPropString rfl _) ?_
  rintro _ old _ ⟨rfl, rfl⟩
  have hfree : Tracks (freeReplaced H old.isSome)
      (old.getD .undefined :: M.getD .undefined :: .object World.global :: st) (freeOld H old)
      fun _ _ st' =>
        st' = old.getD .undefined :: M.getD .undefined :: .object World.global :: st := by
    cases old with
    | none => exact tracks_pure rfl
    | some entry => exact tracks_freeLoader entry
  refine tracks_bind hfree ?_
  rintro _ _ _ rfl
  refine Duk.tracks_pop rfl (Duk.tracks_push (tracks_bind (tracks_pushEntry loader fft) ?_))
  rintro _ r _ rfl
  rw [← bind_pure (setProp H.prototype (M.getD .undefined) _ _)]
  refine tracks_bind (Duk.tracks_putProp rfl) ?_
  rintro _ _ _ rfl
  exact Duk.tracks_pop rfl (tracks_pure ⟨rfl, rfl⟩)

/-- A call of `register_loader`. -/
theorem registerLoader_eq (loader fft : Ptr) :
    call [] (registerLoader H loader fft) = register H loader fft >>= fun _ => pure true := by
  refine call_eq ?_
  rw [← bind_pure (registerLoader H loader fft)]
  refine tracks_bind (tracks_registerLoader loader fft) ?_
  rintro _ _ _ ⟨rfl, rfl⟩
  exact tracks_pure rfl

/-! ## The table and its end -/

/-- Free the loaders under some keys of the table `r`. -/
def freeEntries (H : Host) (r : Ref) : List Str → Action Fault World Unit
  | [] => pure ()
  | key :: keys => do
    match ← getProp H.prototype (.object r) key with
    | none => freeEntries H r keys
    | some entry =>
      freeEntry H entry
      freeEntries H r keys

/-- What `native_destory` does. -/
def destory (H : Host) : Action Fault World Unit := do
  let M ← getProp H.prototype (.object World.global) keyModules
  match ← enumerate (M.getD .undefined) with
  | .enumerator r keys =>
    freeEntries H r keys
    delProp (.object World.global) keyModules
  | _ => throw .exhausted

/-- What `init` does. -/
def setUp (H : Host) (js : Ptr) (c : Option Ptr) : Action Fault World Unit := do
  let M ← newObject
  modify fun w => w.update M fun o => { o with finalizer := some destoryFunction }
  setProp H.prototype (.object World.global) keyModules (.object M)
  collect H
  setProp H.prototype (.object World.global) (text "kg_import") importFunction
  register H js H.jsDestory
  match c with
  | none => pure ()
  | some c => register H c H.cDestory

/-- The loop frees the loader of each key that is still there. -/
theorem tracks_destoryLoop (r : Ref) (keys : List Str) (n : Nat) (hn : keys.length ≤ n) :
    Tracks (destoryLoop H (n + 1)) (.enumerator r keys :: st) (freeEntries H r keys)
      fun _ _ st' => st' = .enumerator r [] :: st := by
  induction keys generalizing n with
  | nil =>
    intro w
    rw [destoryLoop, bind_of_ok (next_nil w r st)]
    exact .returns rfl
  | cons key keys ih =>
    intro w
    rw [List.length_cons] at hn
    obtain ⟨n, rfl⟩ := Nat.exists_eq_succ_of_ne_zero (by omega : n ≠ 0)
    cases hget : w.get H.prototype r key with
    | none =>
      have hleft : destoryLoop H (n + 1 + 1) ⟨w, .enumerator r (key :: keys) :: st⟩ =
          destoryLoop H (n + 1 + 1) ⟨w, .enumerator r keys :: st⟩ := next_gone hget _
      have hright : freeEntries H r (key :: keys) w = freeEntries H r keys w := by
        rw [freeEntries, bind_of_ok (getProp_of_get hget)]
      rw [hleft, hright]
      exact ih (n + 1) (by omega) w
    | some entry =>
      rw [destoryLoop, bind_of_ok (next_here hget st), if_pos rfl, freeEntries,
        bind_of_ok (getProp_of_get hget)]
      refine tracks_bind (tracks_freeLoader entry) ?_ w
      rintro _ _ _ rfl
      exact Duk.tracks_pop rfl (ih n (by omega))

/-- `native_destory`, on its stack. -/
theorem tracks_nativeDestory :
    Tracks (nativeDestory H) [] (destory H) fun n _ st' => n = 0 ∧ st' = [] := by
  refine Duk.tracks_push (tracks_bind (Duk.tracks_getPropString rfl keyModules) ?_)
  rintro _ M _ ⟨rfl, rfl⟩
  refine tracks_bind (Duk.tracks_enum rfl) ?_
  rintro _ e _ rfl
  have hother : ∀ v : Value, Tracks (destoryLoop H 0 >>= fun _ => do
      Duk.pop 2
      Duk.delPropString (-1) keyModules
      Duk.pop 1
      pure 0) [v, M.getD .undefined, .object World.global]
      (throw .exhausted : Action Fault World Unit)
      fun n _ st' => n = 0 ∧ st' = [] := fun v w => .throws ..
  cases e with
  | enumerator r keys =>
    refine tracks_shift (shifts_look _ rfl) (tracks_bind
      (tracks_destoryLoop r keys keys.length (Nat.le_refl _)) ?_)
    rintro _ _ _ rfl
    rw [← bind_pure (delProp _ _)]
    refine Duk.tracks_pop rfl (tracks_bind (Duk.tracks_delPropString rfl keyModules) ?_)
    rintro _ _ _ rfl
    exact Duk.tracks_pop rfl (tracks_pure ⟨rfl, rfl⟩)
  | _ => exact tracks_shift (shifts_look _ rfl) (hother _)

/-- A call of `native_destory`. -/
theorem nativeDestory_eq : call [] (nativeDestory H) = destory H >>= fun _ => pure 0 := by
  refine call_eq ?_
  rw [← bind_pure (nativeDestory H)]
  refine tracks_bind tracks_nativeDestory ?_
  rintro _ _ _ ⟨rfl, rfl⟩
  exact tracks_pure rfl

/-- `init`, on its stack. -/
theorem init_eq (js : Ptr) (c : Option Ptr) :
    call [] (init H js c) = setUp H js c >>= fun _ => pure true := by
  refine call_eq ?_
  unfold setUp
  rw [bind_assoc]
  refine Duk.tracks_push (Duk.tracks_push (tracks_bind Duk.tracks_pushObject ?_))
  rintro _ M _ rfl
  rw [bind_assoc]
  refine Duk.tracks_push (tracks_bind (Duk.tracks_setFinalizer rfl) ?_)
  rintro _ _ _ rfl
  rw [bind_assoc]
  refine tracks_bind (Duk.tracks_putProp rfl) ?_
  rintro _ _ _ rfl
  rw [bind_assoc]
  refine tracks_lift_bind fun _ => ?_
  rw [bind_assoc]
  refine Duk.tracks_push (Duk.tracks_push (tracks_bind (Duk.tracks_putProp rfl) ?_))
  rintro _ _ _ rfl
  rw [bind_assoc]
  refine Duk.tracks_pop rfl (tracks_bind (tracks_registerLoader js H.jsDestory) ?_)
  rintro _ _ _ ⟨rfl, rfl⟩
  cases c with
  | none => exact tracks_pure rfl
  | some c =>
    dsimp only
    rw [← bind_pure (registerLoader H c H.cDestory)]
    refine tracks_bind (tracks_registerLoader c H.cDestory) ?_
    rintro _ _ _ ⟨rfl, rfl⟩
    exact tracks_pure rfl

end KgCpp.Scripts.Module
