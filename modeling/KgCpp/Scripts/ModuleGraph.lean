import KgCpp.Lib.Rank
import KgCpp.Scripts.ModuleHistory

/-!
# Modules that import each other

The body of a module imports other modules while it is evaluated, and returns an
object. Which module a request is for is told by the loaders and their files alone
(`Modules.resolve`), and with it which modules a module may import.
-/

namespace KgCpp.Scripts.Module

open Lib

/-- The body of a module: it returns an object, after it has made objects and
imported modules as it likes. It may catch what an import throws. -/
inductive Body where
  | returns (v : { v : Value // v.isObject = true })
  | newObject (k : Ref → Body)
  | imports (pkg type : Value) (held : Held) (k : Except Value Value → Body)

/-- Evaluate a body, with the scripts of the loaders that it asks. -/
def Body.script (loaders : Ptr → Str → Script) : Body → Script
  | .returns v => .answers v.val true
  | .newObject k => .newObject fun r => script loaders (k r)
  | .imports pkg type held k => .imports pkg type held loaders fun res => script loaders (k res)

/-- A body may ask for a module, depending on the answers it gets. -/
inductive Body.Asks (pkg type : Value) : Body → Prop
  | here {held : Held} {k : Except Value Value → Body} : Asks pkg type (.imports pkg type held k)
  | later {pkg' type' : Value} {held : Held} {k : Except Value Value → Body}
      (res : Except Value Value) (h : Asks pkg type (k res)) :
      Asks pkg type (.imports pkg' type' held k)
  | inside {k : Ref → Body} (r : Ref) (h : Asks pkg type (k r)) : Asks pkg type (.newObject k)

/-- Whatever a body asks for, the names it gives are held while the call runs. -/
def Body.HoldsNames : Body → Prop
  | .returns _ => True
  | .newObject k => ∀ r, HoldsNames (k r)
  | .imports pkg type held k => Names held.strings pkg type ∧ ∀ res, HoldsNames (k res)

/-- The files that a loader finds, with the bodies of their modules. -/
abbrev Files := Ptr → Str → Option Body

/-- What a loader does for a path, when imports are nested no deeper than `n`. -/
def loading (files : Files) : Nat → Ptr → Str → Script
  | 0, l, path => (files l path).elim (.answers .undefined false) fun _ => .exhausted
  | n + 1, l, path => (files l path).elim (.answers .undefined false) fun body =>
    body.script (loading files n)

/-! ### Files of `js_loader_t` -/

/-- A file whose text gives a function, which is the body of a module. -/
def bodyFile (H : Host) (loaders : Ptr → Str → Script) (body : Body) : File where
  size := 0
  allocated := true
  eval := pure (.function false 0, true)
  call _ := (body.script loaders).run H

/-- A body returns an object. -/
theorem Body.run_script (H : Host) (loaders : Ptr → Str → Script) (body : Body) :
    ((body.script loaders).run H >>= fun r => pure (r.1, r.2 && r.1.isObject)) =
      (body.script loaders).run H := by
  induction body with
  | returns v =>
    rw [Body.script, Script.run, pure_bind, v.property]
    rfl
  | newObject k ih =>
    rw [Body.script, Script.run, bind_assoc]
    exact congrArg (Scripts.newObject >>= ·) (funext ih)
  | imports pkg type held k ih =>
    rw [Body.script, Script.run, bind_assoc]
    exact congrArg (attempt _ >>= ·) (funext ih)

/-- `module_import` of `js_loader_t` finds no file, or evaluates the body in it. -/
theorem answer_bodyFile (H : Host) (files : Files) (n : Nat) (l : Ptr) (path : Str) :
    JsLoader.answer ((files l path).map (bodyFile H (loading files n))) path =
      (loading files (n + 1) l path).run H := by
  rw [loading]
  cases files l path with
  | none => rfl
  | some body => exact body.run_script H (loading files n)

/-! ## The graph -/

/-- A module: its type and its name. -/
abbrev Node := Str × Str

/-- A program's surroundings: the environment, the files, the loaders that `init`
registers, and those registered after it, none of them for `__proto__`. -/
structure Modules (H : Host) where
  env : Str → Option Str
  files : Files
  js : LoaderPtr
  c : Option LoaderPtr
  others : List (LoaderPtr × Ptr)
  plain : ∀ l ∈ js :: c.toList ++ others.map Prod.fst,
    (H.loader l.val).moduleType.val ≠ text "__proto__"

namespace Modules

variable {H : Host} (m : Modules H)

/-- The loaders, by type. -/
def table : List (Str × Ptr) :=
  (m.js :: m.c.toList ++ m.others.map Prod.fst).foldl
    (fun T l => Assoc.insert T (H.loader l.val).moduleType.val l.val) []

/-- The body of the module that a loader finds first under a name. -/
def bodyOf (l : Ptr) (pkg : Str) : Option Body :=
  (paths (H.loader l) m.env pkg).findSome? (m.files l)

/-- The body of a module. -/
def body (node : Node) : Option Body :=
  (Assoc.find? m.table node.1).bind fun l => m.bodyOf l node.2

/-- The first of some modules that there is. -/
def firstOf (nodes : List Node) : Option Node := nodes.find? fun node => (m.body node).isSome

/-- The types that are looked at for a request. -/
def types : Option Str → List Str
  | some type => [type]
  | none => enumOrder (m.table.map Prod.fst)

/-- The module that a request is for, if there is one. -/
def resolve (pkg : Str) (type : Option Str) : Option Node :=
  m.firstOf ((m.types type).map (·, pkg))

/-- A request for a module, by its values. -/
def For (pkg type : Value) (node : Node) : Prop :=
  ∃ name, pkg.asCString = some name ∧ m.resolve name type.asCString = some node

/-- A module may import another. -/
def Imports (node node' : Node) : Prop :=
  ∃ body, m.body node = some body ∧ ∃ pkg type, body.Asks pkg type ∧ m.For pkg type node'

/-- Register loaders, and go on. -/
def registerAll (loaders : List (LoaderPtr × Ptr)) (s : Script) : Script :=
  loaders.foldr (fun l s => .registers l.1 l.2 s) s

/-- Run a program in a new context, with imports nested no deeper than `n`. -/
def run (program : Body) (n : Nat) : EStateM.Result Fault World (Value × Bool) :=
  history H m.js m.c (registerAll m.others (program.script (loading m.files n)))
    (World.create m.env)

end Modules

/-! ## What is told by a trace -/

/-- The calls that have begun, and those that have returned, with what they were
for: the innermost call that has begun ends first. -/
structure Reading where
  begun : List (Value × Value)
  results : List (Value × Value × Value)

/-- Read an event. -/
def Reading.step (s : Reading) : Event → Reading
  | .begins pkg type _ => ⟨(pkg, type) :: s.begun, s.results⟩
  | .returns v => ⟨s.begun.tail, s.begun.head?.elim s.results fun c => (c.1, c.2, v) :: s.results⟩
  | .throws _ => ⟨s.begun.tail, s.results⟩
  | _ => s

/-- Read a trace. -/
def reading (trace : List Event) : Reading := trace.foldl Reading.step ⟨[], []⟩

/-- The module whose body an event evaluates: a loader is called for a path that has
a file. -/
def evaluation (H : Host) (files : Files) : Event → Option Node
  | .calls l pkg path =>
    if (files l path).isSome then some ((H.loader l).moduleType.val, pkg) else none
  | _ => none

/-- The modules whose body is evaluated. -/
def evaluations (H : Host) (files : Files) (trace : List Event) : List Node :=
  trace.filterMap (evaluation H files)

/-- An import of a name that is not inherited returns the object that a loader has
stored, of its type if it has one: this loader's type has decided. -/
def Decided (H : Host) (trace : List Event) (pkg type v : Value) : Prop :=
  ∀ name, pkg.asCString = some name → H.prototype.has name = false →
    ∃ l, .stores l name v ∈ trace ∧ ∀ t, type.asCString = some t → (H.loader l).moduleType.val = t

/-- Each body is evaluated at most once, what is stored for a module is one object,
and this is what the imports return that are decided by its type. -/
structure Once (H : Host) (files : Files) (trace : List Event) : Prop where
  evaluated : (evaluations H files trace).Nodup
  identical : ∀ l l' pkg v v', .stores l pkg v ∈ trace → .stores l' pkg v' ∈ trace →
    (H.loader l).moduleType.val = (H.loader l').moduleType.val → v = v'
  decided : ∀ pkg type v, (pkg, type, v) ∈ (reading trace).results → Decided H trace pkg type v

end KgCpp.Scripts.Module
