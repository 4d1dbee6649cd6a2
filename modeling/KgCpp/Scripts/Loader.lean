import KgCpp.Scripts.Duk

/-!
# Module loaders (`scripts/duktape-extras/modules/`)

A loader says for which type of modules it is, where to look for them, and how
to import one: `module_import` leaves one value on the stack, the module, or
`undefined` when there is none, or a description of what went wrong.

`js_loader_t` is modelled whole. What the text of a file does when Duktape
evaluates it, and what the function does that it gives, are actions of the
`File`; `moduleImport_tracks` says what `module_import` makes of them.
-/

namespace KgCpp.Scripts

open Lib

/-- The virtual functions of `loader_i` but `module_import`. -/
structure Loader where
  moduleType : CString
  moduleEnv : CString
  modulePath : Str → Str → Str

/-- What a protected call leaves: a value, and whether it is the result rather than
an error. -/
abbrev Protected := Action Fault World (Value × Bool)

/-- A file that is open: the end of it, whether `malloc` gives that much memory,
what its text does when it is evaluated, and what a function does when it is
called. -/
structure File where
  size : Int
  allocated : Bool
  eval : Protected
  call : Value → Protected

namespace JsLoader

/-- `KG_SCRIPTS_DUKTAPE_MAX_SIZE`. -/
def maxSize : Int := 1024 * 1024 * 64

/-- `module_path`. -/
def modulePath (lib pkg : Str) : Str :=
  if lib.getLast? = some 47 ∨ lib.getLast? = some 92 then lib ++ pkg ++ text ".js"
  else lib ++ text "/" ++ pkg ++ text ".js"

/-- `js_loader_t`. -/
def loader : Loader where
  moduleType := ⟨text "js", by decide⟩
  moduleEnv := ⟨text "KG_DUK_JS_PATH", by decide⟩
  modulePath := modulePath

/-- `"module size must small than KG_SCRIPTS_DUKTAPE_MAX_SIZE"`. -/
def tooLarge : Value := .string (text "module size must small than KG_SCRIPTS_DUKTAPE_MAX_SIZE")

/-- `"malloc error"`. -/
def mallocError : Value := .string (text "malloc error")

/-- `path + " not a module"`, as a C string. -/
def notModule (path : Str) : Value := .string (cString (path ++ text " not a module"))

/-- `duk_peval_lstring`, and whether it succeeds. -/
def peval (eval : Protected) : Duk Bool := do
  let r ← Stack.lift eval
  Duk.push r.1
  pure r.2

/-- `duk_pcall(ctx, 0)`, and whether it succeeds. -/
def pcall (call : Value → Protected) : Duk Bool := do
  let f ← Duk.require (-1)
  Duk.pop 1
  let r ← Stack.lift (call f)
  Duk.push r.1
  pure r.2

/-- `module_import`, by what opening the file gives. -/
def moduleImport (file : Option File) (path : Str) : Duk Bool :=
  match file with
  | none => do
    Duk.push .undefined
    pure false
  | some file =>
    if file.size > maxSize then do
      Duk.push tooLarge
      pure false
    else if !file.allocated then do
      Duk.push mallocError
      pure false
    else do
      if !(← peval file.eval) then pure false
      else if ← Duk.isCFunction (-1) then
        Duk.pop 1
        Duk.push (notModule path)
        pure false
      else if !(← pcall file.call) then pure false
      else Duk.isObject (-1)

/-- What `module_import` answers. -/
def answer (file : Option File) (path : Str) : Protected :=
  match file with
  | none => pure (.undefined, false)
  | some file =>
    if file.size > maxSize then pure (tooLarge, false)
    else if !file.allocated then pure (mallocError, false)
    else do
      let r ← file.eval
      if !r.2 then pure (r.1, false)
      else if r.1.isCFunction then pure (notModule path, false)
      else do
        let r ← file.call r.1
        pure (r.1, r.2 && r.1.isObject)

open Stack

/-- Whatever happens, `module_import` leaves one value: what it answers. -/
theorem moduleImport_tracks (file : Option File) (path : Str) (st : List Value) :
    Tracks (moduleImport file path) st (answer file path) fun b r st' =>
      b = r.2 ∧ st' = r.1 :: st := by
  cases file with
  | none => exact Duk.tracks_push (tracks_pure ⟨rfl, rfl⟩)
  | some file =>
    rw [moduleImport, answer]
    split
    · exact Duk.tracks_push (tracks_pure ⟨rfl, rfl⟩)
    split
    · exact Duk.tracks_push (tracks_pure ⟨rfl, rfl⟩)
    rw [peval, bind_assoc]
    refine tracks_lift_bind fun r => ?_
    rw [bind_assoc]
    refine Duk.tracks_push ?_
    rw [pure_bind]
    split
    · rename_i hok
      exact tracks_pure ⟨by simp, rfl⟩
    refine tracks_shift (shifts_look _ rfl) ?_
    show Tracks (if r.1.isCFunction = true then _ else _) _ _ _
    split
    · refine Duk.tracks_pop rfl (Duk.tracks_push (tracks_pure ⟨rfl, rfl⟩))
    rw [pcall, bind_assoc]
    refine tracks_shift (shifts_peek rfl) ?_
    rw [bind_assoc]
    refine Duk.tracks_pop rfl ?_
    rw [bind_assoc]
    refine tracks_lift_bind fun r => ?_
    rw [bind_assoc]
    refine Duk.tracks_push ?_
    rw [pure_bind]
    split
    · rename_i hok
      have hfalse : r.2 = false := by simpa using hok
      exact tracks_pure ⟨by rw [hfalse]; rfl, rfl⟩
    · rename_i hok
      have htrue : r.2 = true := by simpa using hok
      rw [← bind_pure (Duk.isObject (-1))]
      refine tracks_shift (shifts_look _ rfl) (tracks_pure ⟨?_, rfl⟩)
      rw [htrue]
      rfl

end JsLoader

end KgCpp.Scripts
