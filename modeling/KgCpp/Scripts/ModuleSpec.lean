import KgCpp.Scripts.ModuleTable

/-!
# What importing a module means

The search of `kg_import`, in its own terms: a table has a row for each type of
modules, with a loader and the modules it has loaded, and a loader's search path
is a list of places where there is a module, or nothing, or an error. No stack, no
objects, and no loop: the first loader that has the module decides, and for a
loader the first place where there is something.
-/

namespace KgCpp.Scripts.Module

open Lib

/-- What a loader finds at a path: a module, nothing, or an error, described by a
value other than `undefined`. -/
inductive Outcome where
  | module (v : Value)
  | nothing
  | error (v : { v : Value // v ≠ .undefined })
deriving DecidableEq

/-- An outcome decides, unless there is nothing. -/
def Outcome.decides : Outcome → Bool
  | .nothing => false
  | _ => true

/-- A loader and the modules it has loaded. -/
structure Row where
  loader : Ptr
  libs : List (Str × Value)
deriving DecidableEq

/-- A table of rows, by type. -/
abbrev Table := List (Str × Row)

/-- The first elements, up to one with `p`. -/
def upTo {α : Type} (p : α → Bool) (xs : List α) : List α :=
  xs.takeWhile (fun x => !p x) ++ (xs.find? p).toList

/-- Where a loader looks for a module, in this order: in the directories of its
environment variable. -/
def paths (loader : Loader) (env : Str → Option Str) (pkg : Str) : List Str :=
  ((((env loader.moduleEnv.val).elim [] splitPath).map trim).filter (· ≠ [])).map
    fun dir => loader.modulePath dir pkg

section Import

variable (H : Host) (env : Str → Option Str) (outcome : Ptr → Str → Outcome)

namespace Row

/-- Where the loader of a row looks. -/
def paths (row : Row) (pkg : Str) : List Str := Module.paths (H.loader row.loader) env pkg

/-- What the first place where there is something decides. -/
def decision (row : Row) (pkg : Str) : Outcome :=
  (((row.paths H env pkg).map (outcome row.loader)).find? Outcome.decides).getD .nothing

/-- What a row has under a name, and the row afterwards: a module that was loaded
before, or what the search path decides. -/
def lookup (row : Row) (pkg : Str) : Option (Value × Row) :=
  match Assoc.find? row.libs pkg with
  | some v => some (v, row)
  | none =>
    match row.decision H env outcome pkg with
    | .module v => some (v, { row with libs := Assoc.insert row.libs pkg v })
    | .error v => some (v, row)
    | .nothing => none

/-- The paths that the loader is asked for. -/
def asked (row : Row) (pkg : Str) : List (Ptr × Str) :=
  match Assoc.find? row.libs pkg with
  | some _ => []
  | none => (upTo (fun path => (outcome row.loader path).decides) (row.paths H env pkg)).map
    (row.loader, ·)

end Row

namespace Table

/-- The rows of some types. -/
def rows (T : Table) (types : List Str) : Table :=
  types.filterMap fun type => (Assoc.find? T type).map (type, ·)

/-- The rows in the order of `duk_enum`. -/
def inOrder (T : Table) : Table := T.rows (enumOrder (T.map Prod.fst))

/-- The rows that a call looks at: that of its type, or one after another. -/
def candidates (T : Table) : Option Str → Table
  | some type => T.rows [type]
  | none => T.inOrder

/-- The first of the rows that has the module, with its type. -/
def find (C : Table) (pkg : Str) : Option (Str × Value × Row) :=
  C.findSome? fun p => (p.2.lookup H env outcome pkg).map (p.1, ·)

/-- The paths that the loaders of the rows are asked for, up to the first row that
has the module. -/
def asks (C : Table) (pkg : Str) : List (Ptr × Str) :=
  (upTo (fun p => (p.2.lookup H env outcome pkg).isSome) C).flatMap
    fun p => p.2.asked H env outcome pkg

/-- What a call finds. -/
def lookup (T : Table) (pkg : Str) (type : Option Str) : Option (Str × Value × Row) :=
  (T.candidates type).find H env outcome pkg

/-- The table after a call. -/
def after (T : Table) (pkg : Str) (type : Option Str) : Table :=
  (T.lookup H env outcome pkg type).elim T fun found => Assoc.insert T found.1 found.2.2

/-- What is thrown when no row has the module. -/
def complaint (T : Table) (pkg : Str) : Option Str → Value
  | some type => (Assoc.find? T type).elim (noLoader type) fun _ => noLoaderModule type pkg
  | none => noModule pkg

/-- How a call ends. -/
def answer (T : Table) (pkg : Str) (type : Option Str) : Except Value Value :=
  (T.lookup H env outcome pkg type).elim (.error (T.complaint pkg type)) fun found =>
    .ok found.2.1

/-- The paths that loaders are asked for in a call. -/
def asked (T : Table) (pkg : Str) (type : Option Str) : List (Ptr × Str) :=
  (T.candidates type).asks H env outcome pkg

end Table

end Import

/-! ## The table of a heap -/

/-- The loader and the modules of an entry. -/
def rowOf (κ : Layout) (w : World) (v : Value) : Row :=
  match v with
  | .object E =>
    match κ E with
    | .entry _ loader _ libs => ⟨loader, (w.heap.get libs).props⟩
    | _ => ⟨0, []⟩
  | _ => ⟨0, []⟩

/-- The table under `M`. -/
def tableOf (κ : Layout) (M : Ref) (w : World) : Table :=
  (w.heap.get M).props.map fun p => (p.1, rowOf κ w p.2)

/-- The type that a call names: none, when it is no string. -/
def typeName : Value → Option Str
  | .string s => some s
  | _ => none

/-- How a call ends, in a world. -/
def reply (w : World) : Except Value Value → EStateM.Result Fault World Value
  | .ok v => .ok v w
  | .error e => .error (.thrown e) w

/-- A loader's `module_import` that finds an outcome. -/
def Outcome.answer : Outcome → Value × Bool
  | .module v => (v, true)
  | .nothing => (.undefined, false)
  | .error v => (v.val, false)

/-- Loaders that find an outcome for each path. -/
def imports (outcome : Ptr → Str → Outcome) : ModuleImport := fun l path =>
  pure (outcome l path).answer

/-- The paths that loaders were asked for. -/
def callsOf (trace : List Event) : List (Ptr × Str) :=
  trace.filterMap fun e => match e with
    | .calls l _ path => some (l, path)
    | _ => none

/-- A property has a string, as its name or as its value. -/
def Refers (w : World) (s : Str) : Prop :=
  ∃ r, ∃ p ∈ (w.heap.get r).props, p.1 = s ∨ p.2 = .string s

/-- What is held in a world: a name of the call too, where a property has it. -/
def Held.In (held : Held) (w : World) (pkg type : Value) : Prop :=
  ∀ s, pkg = .string s ∨ type = .string s → Refers w s → s ∈ held.strings

/-- A call of `kg_import` in the world `w` that ends in `w'` is as the search in
the table wants it; no object changes but those that hold modules. -/
structure Meets (H : Host) (outcome : Ptr → Str → Outcome) (κ : Layout) (M : Ref) (w : World)
    (held : Held) (pkg : Str) (type : Value) (w' : World) : Prop where
  ends : kgImport H (imports outcome) held (.string pkg) type w =
    reply w' ((tableOf κ M w).answer H w.env outcome pkg (typeName type))
  shaped : Shaped κ M w'
  table : tableOf κ M w' = (tableOf κ M w).after H w.env outcome pkg (typeName type)
  others : ∀ r, (∀ type, κ r ≠ .libs type) → w'.heap.get r = w.heap.get r
  asked : callsOf w'.trace =
    callsOf w.trace ++ (tableOf κ M w).asked H w.env outcome pkg (typeName type)

end KgCpp.Scripts.Module
