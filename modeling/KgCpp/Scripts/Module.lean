import KgCpp.Scripts.Loader

/-!
# `module` (`scripts/duktape-extras/module.hpp`)

The module system as it is written: programs on the value stack. The global
object has a table `_g_kg_modules` with an entry for each type of modules, and an
entry has its loader, the function that frees it, and the modules already loaded:

    _g_kg_modules: { js: { loader, destory, libs: { pkg: module, .. } }, .. }

`kg_import(pkg, type)` looks a module up there, and has a loader import it when
it is not there yet. The virtual function `module_import` of the loaders is a
parameter; like every implementation of it, it leaves one value on the stack.
-/

namespace KgCpp.Scripts

open Lib

/-- What a loader's `module_import` answers for a path. -/
abbrev ModuleImport := Ptr → Str → Protected

namespace Module

/-- The global variable with the table. -/
def keyModules : Str := text "_g_kg_modules"

/-- The loader of an entry. -/
def keyLoader : Str := text "loader"

/-- The function that frees the loader of an entry. -/
def keyDestory : Str := text "destory"

/-- The modules of an entry. -/
def keyLibs : Str := text "libs"

/-- The names that the module system gives to properties. -/
def ownNames : List Str := [keyModules, keyLoader, keyDestory, keyLibs]

/-- What surrounds the module system: `Object.prototype`, which has none of these
names, the loaders behind their pointers, and the functions that free the
two that `init` makes. -/
structure Host where
  prototype : ObjectPrototype
  unused : ∀ name ∈ ownNames, prototype.has name = false
  loader : Ptr → Loader
  jsDestory : Ptr
  cDestory : Ptr

/-- A host with `Object.prototype` as Duktape makes it. -/
def Host.initial (loader : Ptr → Loader) : Host where
  prototype := .initial
  unused := by decide
  loader := loader
  jsDestory := 1
  cDestory := 2

/-- A pointer to a loader. -/
abbrev LoaderPtr := { l : Ptr // l ≠ 0 }

/-- The strings that something refers to as long as a call of `kg_import` runs,
besides the values it is called with: a constant or a variable of a function, another
value stack, the name or the value of a property. Names of the module system's own
properties are among them. -/
structure Held where
  strings : List Str
  own : ∀ name ∈ ownNames, name ∈ strings

/-- These strings are held, and those that always are. -/
def Held.of (strings : List Str) : Held :=
  ⟨strings ++ ownNames, fun _ h => List.mem_append_right _ h⟩

/-! ## Errors -/

/-- `NO_MODULE_NAME`. -/
def noModuleName : Value := .string (text "module name can't be empty")

/-- `NO_MODULES`. -/
def noModules : Value := .string (text "_g_kg_modules not define")

/-- `NOT_LOADER`. -/
def notLoader (key : Str) : Value :=
  .string (text "_g_kg_modules." ++ key ++ text ".loader not define")

/-- `NOT_LIBS`. -/
def notLibs (key : Str) : Value :=
  .string (text "_g_kg_modules." ++ key ++ text ".libs not define")

/-- `NO_LOADER`. -/
def noLoader (key : Str) : Value :=
  .string (text "module loader not define -- [" ++ key ++ text "]")

/-- `NO_LOADER_MODULE`. -/
def noLoaderModule (key pkg : Str) : Value :=
  .string (text "[" ++ key ++ text "] module can't found -- [" ++ pkg ++ text "]")

/-- `NO_MODULE`. -/
def noModule (pkg : Str) : Value :=
  .string (text "module can't found -- [" ++ pkg ++ text "]")

variable (H : Host)

/-! ## Registering loaders -/

/-- `f(loader)`, which ends the loader. -/
def free (f loader : Ptr) : Action Fault World Unit :=
  modify fun w => { w with freed := w.freed ++ [(f, loader)] }

/-- Free the loader of the entry on top, if it has a function for that. -/
def freeLoader : Duk Unit := do
  let _ ← Duk.getPropString H.prototype (-1) keyDestory
  let f ← Duk.getPointer (-1)
  Duk.pop 1
  if f = 0 then pure ()
  else do
    let _ ← Duk.getPropString H.prototype (-1) keyLoader
    let loader ← Duk.getPointer (-1)
    Duk.pop 1
    Stack.lift (free f loader)

/-- Free the loader of the entry that is on top when there is one already. -/
def freeReplaced (found : Bool) : Duk Unit := if found then freeLoader H else pure ()

/-- Push a new entry. -/
def pushEntry (loader fft : Ptr) : Duk Unit := do
  Duk.pushObject
  Duk.push (.string keyLoader)
  Duk.push (.pointer loader)
  Duk.putProp H.prototype (-3)
  Duk.push (.string keyDestory)
  Duk.push (.pointer fft)
  Duk.putProp H.prototype (-3)
  Duk.push (.string keyLibs)
  Duk.pushObject
  Duk.putProp H.prototype (-3)

/-- `register_loader`. -/
def registerLoader (loader fft : Ptr) : Duk Bool := do
  Stack.lift (note (.registers loader))
  Duk.pushGlobalObject
  let _ ← Duk.getPropString H.prototype (-1) keyModules
  let key := (H.loader loader).moduleType.val
  let found ← Duk.getPropString H.prototype (-1) key
  freeReplaced H found
  Duk.pop 1
  Duk.push (.string key)
  pushEntry H loader fft
  Duk.putProp H.prototype (-3)
  Duk.pop 2
  pure true

/-! ## Importing -/

/-- `loader->module_import(ctx, path)`. -/
def moduleImport (imp : ModuleImport) (loader : Ptr) (pkg path : Str) : Duk Bool := do
  Stack.lift (note (.calls loader pkg path))
  let r ← Stack.lift (imp loader path)
  Stack.lift (note (.answers loader pkg path r.1 r.2))
  Duk.push r.1
  pure r.2

/-- The loop of `import_pkg` over the entries of the search path. -/
def importEntries (imp : ModuleImport) (loader : Ptr) (pkg : Str) : List Str → Duk Bool
  | [] => pure false
  | entry :: entries =>
    let lib := trim entry
    if lib = [] then importEntries imp loader pkg entries
    else do
      let ok ← moduleImport imp loader pkg ((H.loader loader).modulePath lib pkg)
      if ok then
        Duk.dupTop
        let v ← Duk.require (-1)
        Duk.putPropLstring H.prototype (-3) pkg
        Stack.lift (note (.stores loader pkg v))
        pure true
      else if !(← Duk.isUndefined (-1)) then pure true
      else
        Duk.pop 1
        importEntries imp loader pkg entries

/-- `getenv`. -/
def getenv (name : CString) : Action Fault World (Option Str) := fun w => .ok (w.env name.val) w

/-- The entries of a search path. -/
def splitPath (env : Str) : List Str := (trim env).splitOn 58

/-- `import_pkg`: `... loader libs -> ... loader libs`, or with the module behind
it, and whether there is one. -/
def importPkg (imp : ModuleImport) (loader : Ptr) (pkg : Str) : Duk Bool := do
  match ← Stack.lift (getenv (H.loader loader).moduleEnv) with
  | none => pure false
  | some env => importEntries H imp loader pkg (splitPath env)

/-- An error is pushed and thrown. -/
def fail {α : Type} (message : Value) : Duk α := do
  Duk.push message
  Duk.throwTop

/-- `native_import` with a type, the table being on top: the number of values it
returns. `key` and `pkg` point to characters of values that are popped. -/
def importTyped (imp : ModuleImport) (held : List Str) (key pkg : Str) : Duk Nat := do
  if !(← Duk.getPropString H.prototype (-1) (← chars held key)) then
    fail (noLoader (← chars held key))
  else if !(← Duk.getPropString H.prototype (-1) keyLibs) then
    fail (notLibs (← chars held key))
  else if ← Duk.getPropString H.prototype (-1) (← chars held pkg) then pure 1
  else
    Duk.pop 1
    if !(← Duk.getPropString H.prototype (-2) keyLoader) then
      fail (notLoader (← chars held key))
    else
      let loader ← Duk.getPointer (-1)
      if loader = 0 then fail (notLoader (← chars held key))
      else
        Duk.pop 1
        if ← importPkg H imp loader (← chars held pkg) then pure 1
        else fail (noLoaderModule (← chars held key) (← chars held pkg))

/-- The loop of `native_import` over the loaders: whether it returns. The
enumerator is on top. The source reads the key of each, too, and has no use for
it. -/
def importLoop (imp : ModuleImport) (held : List Str) (pkg : Str) : Nat → Duk Bool
  | 0 => throw .exhausted
  | n + 1 => do
    if !(← Duk.next H.prototype) then pure false
    else if !(← Duk.getPropString H.prototype (-1) keyLibs) then
      Duk.pop 3
      importLoop imp held pkg n
    else if ← Duk.getPropString H.prototype (-1) (← chars held pkg) then pure true
    else
      Duk.pop 1
      if !(← Duk.getPropString H.prototype (-2) keyLoader) then
        Duk.pop 4
        importLoop imp held pkg n
      else
        let loader ← Duk.getPointer (-1)
        if loader = 0 then
          Duk.pop 4
          importLoop imp held pkg n
        else
          Duk.pop 1
          if ← importPkg H imp loader (← chars held pkg) then pure true
          else
            Duk.pop 3
            importLoop imp held pkg n

/-- The turns of a loop over the enumerator on top: one for each key, and the
last. -/
def turns : Duk Nat :=
  Stack.look (fun v => match v with
    | some (.enumerator _ keys) => keys.length + 1
    | _ => 0) (-1)

/-- `native_import` without a type, the table being on top. -/
def importUntyped (imp : ModuleImport) (held : List Str) (pkg : Str) : Duk Nat := do
  Duk.enum (-1)
  let n ← turns
  if ← importLoop H imp held pkg n then pure 1
  else
    Duk.pop 1
    fail (noModule (← chars held pkg))

/-- `native_import`: the number of values it returns. The two values are popped, and
their characters read afterwards. -/
def nativeImport (imp : ModuleImport) (held : List Str) : Duk Nat := do
  if !(← Duk.isString 0) then fail noModuleName
  else
    let key ← Duk.getString 1
    let pkg ← Duk.getString 0
    Duk.pop 2
    if !(← Duk.getGlobalString H.prototype keyModules) then fail noModules
    else match key with
      | some key => importTyped H imp held key (pkg.getD [])
      | none => importUntyped H imp held (pkg.getD [])

/-- What a native function returns: the value on top, or `undefined`. -/
def result (n : Nat) : Duk Value :=
  if n = 0 then pure .undefined else Duk.require (-1)

/-- Note how a call of `kg_import` begins and ends. -/
def noting (pkg type : Value) (held : List Str) (x : Action Fault World Value) :
    Action Fault World Value := fun w =>
  match x { w with trace := w.trace ++ [.begins pkg type held] } with
  | .ok v w => .ok v { w with trace := w.trace ++ [.returns v] }
  | .error (.thrown v) w => .error (.thrown v) { w with trace := w.trace ++ [.throws v] }
  | .error e w => .error e w

/-- A call `kg_import(pkg, type)`, with the strings that are held besides. -/
def kgImport (imp : ModuleImport) (held : Held) (pkg type : Value) : Action Fault World Value :=
  noting pkg type held.strings
    (Stack.call [type, pkg] (nativeImport H imp held.strings >>= result))

/-! ## The table and its end -/

/-- The loop of `native_destory`. -/
def destoryLoop : Nat → Duk Unit
  | 0 => throw .exhausted
  | n + 1 => do
    if ← Duk.next H.prototype then
      freeLoader H
      Duk.pop 2
      destoryLoop n
    else pure ()

/-- `native_destory`, the finalizer of the table. -/
def nativeDestory : Duk Nat := do
  Duk.pushGlobalObject
  let _ ← Duk.getPropString H.prototype (-1) keyModules
  Duk.enum (-1)
  let n ← turns
  destoryLoop H n
  Duk.pop 2
  Duk.delPropString (-1) keyModules
  Duk.pop 1
  pure 0

/-- `native_destory`, as a value. -/
def destoryFunction : Value := .function true 0

/-- `native_import`, as a value. -/
def importFunction : Value := .function true 1

/-- Run the finalizers that are to run; a finalizer's error is nothing to anyone.
Each object is finalized once. -/
def finalize : Nat → World → World
  | 0, w => w
  | n + 1, w =>
    match w.pending with
    | [] => w
    | r :: pending =>
      match Stack.call [] (nativeDestory H)
          { w with pending := pending, finalized := w.finalized ++ [r] } with
      | .ok _ w' => finalize n w'
      | .error _ w' => finalize n w'

/-- The finalizers of what has become unreachable run. -/
def collect : Action Fault World Unit := modify fun w => finalize H w.heap.size w

/-- `init`, with the loaders it makes: that of C modules only when it is compiled
in. -/
def init (js : Ptr) (c : Option Ptr) : Duk Bool := do
  Duk.pushGlobalObject
  Duk.push (.string keyModules)
  Duk.pushObject
  Duk.push destoryFunction
  Duk.setFinalizer (-2)
  Duk.putProp H.prototype (-3)
  Stack.lift (collect H)
  Duk.push (.string (text "kg_import"))
  Duk.push importFunction
  Duk.putProp H.prototype (-3)
  Duk.pop 1
  let _ ← registerLoader H js H.jsDestory
  match c with
  | none => pure true
  | some c => registerLoader H c H.cDestory

/-- `duk_destroy_heap`: every finalizer that has not run runs. -/
def destroyHeap (w : World) : World :=
  finalize H w.heap.size
    { w with pending := (List.range w.heap.size).filter fun r =>
        (w.heap.get r).finalizer.isSome ∧ r ∉ w.finalized }

end Module

end KgCpp.Scripts
