import Mathlib.Data.List.Sort
import KgCpp.Lib.Assoc
import KgCpp.Lib.Stack
import KgCpp.Lib.Store
import KgCpp.Scripts.Text

/-!
# Duktape (`scripts/duktape/duktape.h`)

The part of Duktape's API that the module system is written in: plain objects
with their prototypes, the value stack of a native function, enumeration,
errors, finalizers. A `World` is what a heap holds, and what the module system
leaves behind outside it; an action on it is an Ecmascript operation, a `Duk`
program on a `Frame` calls the API.

A string is freed with the last reference to it, also when a popped value was
that: a pointer to its characters, which C code still has, dangles then (`chars`).
-/

namespace KgCpp.Scripts

open Lib

/-- A pointer of C++; 0 is `NULL`. -/
abbrev Ptr := Nat

/-- A value on the value stack.

- `primitive` is a boolean, a number or a buffer: nothing here looks inside.
- `function` tells whether it is one of C.
- `builtin` is `Object.prototype`, or a function it holds.
- `typeError` is an error that Duktape throws itself.
- `enumerator` has the keys still to come; only its place on the stack refers to
  it. -/
inductive Value where
  | undefined
  | null
  | primitive (id : Nat)
  | string (s : Str)
  | pointer (p : Ptr)
  | object (r : Ref)
  | function (native : Bool) (id : Nat)
  | builtin (name : Str)
  | typeError
  | enumerator (target : Ref) (keys : List Str)
deriving DecidableEq, Repr

/-- A value is an object: a function or an error is one, too. -/
def Value.isObject : Value → Bool
  | .object _ | .function _ _ | .builtin _ | .typeError | .enumerator _ _ => true
  | _ => false

/-- A value is a function of C. -/
def Value.isCFunction : Value → Bool
  | .function native _ => native
  | _ => false

/-- The pointer that a value is, or `NULL`. -/
def Value.asPointer : Value → Ptr
  | .pointer p => p
  | _ => 0

/-- The string that a value is. -/
def Value.asString : Value → Option Str
  | .string s => some s
  | _ => none

/-- The C string that a value is, or `NULL`. -/
def Value.asCString (v : Value) : Option Str := v.asString.map cString

/-- A plain object: its own properties in order, its prototype, its finalizer. -/
structure Obj where
  props : List (Str × Value)
  proto : Value
  finalizer : Option Value
deriving DecidableEq, Repr

/-- `Object.prototype`. -/
def objectPrototype : Value := .builtin (text "Object.prototype")

/-- What `duk_push_object` makes. -/
def Obj.empty : Obj := ⟨[], objectPrototype, none⟩

instance : Inhabited Obj := ⟨.empty⟩

/-- How an action fails: by a value that is thrown, by an index that names no
value, by reading a string that was freed, or, in a model that runs with fuel, for
lack of it. -/
inductive Fault where
  | thrown (v : Value)
  | invalidIndex
  | freedString
  | exhausted
deriving DecidableEq, Repr

/-- What an onlooker notes of the module system: the calls of `kg_import`, with the
strings that are held besides, and how they end; the loaders registered; the calls
of `module_import` with what they answer; and what is stored. Nothing reads the
notes. -/
inductive Event where
  | registers (loader : Ptr)
  | begins (pkg type : Value) (held : List Str)
  | calls (loader : Ptr) (pkg path : Str)
  | answers (loader : Ptr) (pkg path : Str) (v : Value) (ok : Bool)
  | stores (loader : Ptr) (pkg : Str) (v : Value)
  | returns (v : Value)
  | throws (v : Value)
deriving DecidableEq, Repr

/-- A heap with its objects, the global one first; the environment of the
process; the calls of functions that free a loader, with the loader; the objects
whose finalizer is to run, and those whose finalizer has. -/
structure World where
  heap : Store Obj
  env : Str → Option Str
  freed : List (Ptr × Ptr)
  pending : List Ref
  finalized : List Ref
  trace : List Event

/-- What all plain objects inherit: the names of the properties of
`Object.prototype`, `__proto__` among them. -/
structure ObjectPrototype where
  has : Str → Bool
  proto : has (text "__proto__") = true

theorem ObjectPrototype.ne_proto (P : ObjectPrototype) {name : Str} (h : P.has name = false) :
    name ≠ text "__proto__" := by
  rintro rfl
  rw [P.proto] at h
  cases h

/-- `Object.prototype` as Duktape makes it. -/
def ObjectPrototype.initial : ObjectPrototype where
  has name := name ∈ [text "__proto__", text "constructor", text "toString",
    text "toLocaleString", text "valueOf", text "hasOwnProperty", text "isPrototypeOf",
    text "propertyIsEnumerable"]
  proto := decide_eq_true (List.mem_cons_self ..)

namespace World

/-- The global object. -/
def global : Ref := 0

/-- A new heap. -/
def create (env : Str → Option Str) : World :=
  ⟨⟨[.empty]⟩, env, [], [], [], []⟩

/-- An own property of an object. -/
def own (w : World) (r : Ref) (name : Str) : Option Value :=
  Assoc.find? (w.heap.get r).props name

/-- Where a property is found. -/
inductive Holder where
  | property (v : Value)
  | objectPrototype
  | nowhere

/-- Go up the chain of prototypes; it is not longer than the heap. -/
def holder (P : ObjectPrototype) (w : World) (name : Str) : Nat → Ref → Holder
  | 0, _ => .nowhere
  | n + 1, r =>
    match w.own r name, (w.heap.get r).proto with
    | some v, _ => .property v
    | none, .object r' => holder P w name n r'
    | none, .null => .nowhere
    | none, _ => if P.has name then .objectPrototype else .nowhere

/-- A property of an object, own or inherited. The accessor `__proto__` gives the
prototype. -/
def get (P : ObjectPrototype) (w : World) (r : Ref) (name : Str) : Option Value :=
  match w.holder P name (w.heap.size + 1) r with
  | .property v => some v
  | .objectPrototype =>
    if name = text "__proto__" then some (w.heap.get r).proto else some (.builtin name)
  | .nowhere => none

/-- A property of `r` loses a value. An object with a finalizer is held by one
property, of the global object: it is unreachable now, and its finalizer is to
run. -/
def drop (w : World) (r : Ref) (v : Value) : World :=
  match v with
  | .object q =>
    if r = global ∧ (w.heap.get q).finalizer.isSome ∧ q ∉ w.pending ++ w.finalized then
      { w with pending := w.pending ++ [q] }
    else w
  | _ => w

/-- Change an object. -/
def update (w : World) (r : Ref) (f : Obj → Obj) : World :=
  { w with heap := w.heap.set r (f (w.heap.get r)) }

/-- Give an object an own property. -/
def define (w : World) (r : Ref) (name : Str) (v : Value) : World :=
  w.update r fun o => { o with props := Assoc.insert o.props name v }

/-- `r` is on the chain of prototypes of `q`. -/
def inherits (w : World) (r : Ref) : Nat → Ref → Bool
  | 0, _ => false
  | n + 1, q => q = r ||
    match (w.heap.get q).proto with
    | .object q' => inherits w r n q'
    | _ => false

/-- The setter of `__proto__`: anything but an object or `null` is ignored. -/
def setPrototype (w : World) (r : Ref) (v : Value) : Except Fault World :=
  match v with
  | .object q =>
    if w.inherits r (w.heap.size + 1) q then .error (.thrown .typeError)
    else .ok (w.update r fun o => { o with proto := v })
  | .undefined | .primitive _ | .string _ | .pointer _ => .ok w
  | _ => .ok (w.update r fun o => { o with proto := v })

end World

/-! ## Operations on the world -/

section Operations

variable (P : ObjectPrototype)

/-- Note an event. -/
def note (e : Event) : Action Fault World Unit :=
  modify fun w => { w with trace := w.trace ++ [e] }

/-- A new object. -/
def newObject : Action Fault World Ref :=
  fun w => .ok w.heap.size { w with heap := w.heap.alloc .empty }

/-- Read a property. Of values that are no plain objects it sees what they inherit
from `Object.prototype`. -/
def getProp (v : Value) (name : Str) : Action Fault World (Option Value) :=
  match v with
  | .undefined | .null => throw (.thrown .typeError)
  | .object r => fun w => .ok (w.get P r name) w
  | _ => pure (if P.has name then some (.builtin name) else none)

theorem getProp_object (w : World) (r : Ref) (name : Str) :
    getProp P (.object r) name w = .ok (w.get P r name) w := rfl

theorem getProp_of_get {P : ObjectPrototype} {w : World} {r : Ref} {name : Str}
    {found : Option Value} (h : w.get P r name = found) :
    getProp P (.object r) name w = .ok found w := by
  rw [getProp_object, h]

/-- Write a property, by the setter where it inherits one. -/
def setProp (v : Value) (name : Str) (x : Value) : Action Fault World Unit :=
  match v with
  | .object r => fun w =>
    match w.own r name, w.holder P name (w.heap.size + 1) r with
    | some old, _ => .ok () ((w.define r name x).drop r old)
    | none, .objectPrototype =>
      if name = text "__proto__" then
        match w.setPrototype r x with
        | .ok w' => .ok () w'
        | .error e => .error e w
      else .ok () (w.define r name x)
    | none, _ => .ok () (w.define r name x)
  | _ => throw (.thrown .typeError)

/-- Delete an own property. -/
def delProp (v : Value) (name : Str) : Action Fault World Unit :=
  match v with
  | .object r => fun w =>
    match w.own r name with
    | some old =>
      .ok () ((w.update r fun o => { o with props := Assoc.erase o.props name }).drop r old)
    | none => .ok () w
  | _ => throw (.thrown .typeError)

variable {P}

/-- An own property comes first. -/
theorem World.get_of_own {w : World} {r : Ref} {name : Str} {v : Value}
    (h : w.own r name = some v) : w.get P r name = some v := by
  rw [get, holder, h]

/-- Above a plain object there is `Object.prototype`. -/
theorem World.holder_of_plain {w : World} {r : Ref} {name : Str}
    (hproto : (w.heap.get r).proto = objectPrototype) (hown : w.own r name = none) :
    w.holder P name (w.heap.size + 1) r =
      if P.has name then .objectPrototype else .nowhere := by
  rw [holder, hproto, hown]
  rfl

/-- A plain object has its own properties only, but for the names of
`Object.prototype`. -/
theorem World.get_of_plain {w : World} {r : Ref} {name : Str}
    (hproto : (w.heap.get r).proto = objectPrototype) (hname : P.has name = false) :
    w.get P r name = w.own r name := by
  cases hown : w.own r name with
  | some v => exact get_of_own hown
  | none => rw [get, holder_of_plain hproto hown, hname]; rfl

/-- What a plain object inherits. -/
theorem World.get_inherited {w : World} {r : Ref} {name : Str}
    (hproto : (w.heap.get r).proto = objectPrototype) (hown : w.own r name = none)
    (hname : P.has name = true) (hne : name ≠ text "__proto__") :
    w.get P r name = some (.builtin name) := by
  rw [get, holder_of_plain hproto hown, hname]
  exact if_neg hne

/-- A name of `Object.prototype` that is no own property is found there. -/
theorem World.get_of_has {w : World} {r : Ref} {name : Str}
    (hproto : (w.heap.get r).proto = objectPrototype) (hown : w.own r name = none)
    (hname : P.has name = true) : ∃ s, w.get P r name = some (.builtin s) := by
  by_cases hne : name = text "__proto__"
  · refine ⟨text "Object.prototype", ?_⟩
    rw [get, holder_of_plain hproto hown, hname]
    exact (if_pos hne).trans (congrArg some hproto)
  · exact ⟨name, get_inherited hproto hown hname hne⟩

theorem World.drop_of_ne {w : World} {r : Ref} (h : r ≠ global) (v : Value) :
    w.drop r v = w := by
  cases v with
  | object q => exact if_neg fun hc => h hc.1
  | _ => rfl

/-- A property of a plain object is written where it is. -/
theorem setProp_of_plain {w : World} {r : Ref} {name : Str}
    (hr : r ≠ World.global) (hproto : (w.heap.get r).proto = objectPrototype)
    (hne : name ≠ text "__proto__") (x : Value) :
    setProp P (.object r) name x w = .ok () (w.define r name x) := by
  unfold setProp
  dsimp only
  cases hown : w.own r name with
  | some old => exact congrArg (EStateM.Result.ok ()) (World.drop_of_ne hr old)
  | none =>
    rw [World.holder_of_plain hproto hown]
    by_cases hname : P.has name = true
    · rw [if_pos hname]
      exact if_neg hne
    · rw [if_neg hname]

/-! ### Enumeration -/

/-- `DUK_HSTRING_HAS_SYMBOL`. -/
def isSymbol (s : Str) : Bool :=
  match s with
  | b :: _ => (0x80 ≤ b ∧ b ≤ 0xbf) ∨ b = 0xff
  | [] => false

/-- The number a string of digits stands for. -/
def decimal (s : Str) : Nat := s.foldl (fun n b => 10 * n + (b.toNat - 48)) 0

/-- `DUK_HSTRING_HAS_ARRIDX`: a decimal number below `2 ^ 32 - 1`, without leading
zeros. -/
def isArrayIndex (s : Str) : Bool :=
  s ≠ [] ∧ s.all (fun b => 48 ≤ b ∧ b ≤ 57) ∧ (s.head? = some 48 → s.length = 1) ∧
    decimal s < 2 ^ 32 - 1

/-- The order of `duk_enum`: array indices come first, in their own order, and
symbols not at all. -/
def enumOrder (keys : List Str) : List Str :=
  let strings := keys.filter fun k => !isSymbol k
  (strings.filter isArrayIndex).insertionSort (fun a b => decimal a ≤ decimal b) ++
    strings.filter fun k => !isArrayIndex k

/-- The keys that are enumerated: all but the symbols, each as often as it is there. -/
theorem perm_enumOrder (keys : List Str) :
    (enumOrder keys).Perm (keys.filter fun k => !isSymbol k) := by
  rw [enumOrder]
  exact ((List.perm_insertionSort _ _).append_right _).trans (List.filter_append_perm _ _)

theorem mem_of_mem_enumOrder {keys : List Str} {k : Str} (h : k ∈ enumOrder keys) : k ∈ keys :=
  (List.mem_filter.mp ((perm_enumOrder keys).mem_iff.mp h)).1

/-- One key that is neither a symbol nor an array index. -/
theorem enumOrder_singleton {k : Str} (hsymbol : isSymbol k = false)
    (hindex : isArrayIndex k = false) : enumOrder [k] = [k] := by
  rw [enumOrder, List.filter_cons_of_pos (by simp [hsymbol]), List.filter_nil,
    List.filter_cons_of_neg (by simp [hindex]), List.filter_cons_of_pos (by simp [hindex])]
  rfl

/-- `duk_enum` with `DUK_ENUM_OWN_PROPERTIES_ONLY`. Nothing but plain objects is
enumerated here. -/
def enumerate (v : Value) : Action Fault World Value :=
  match v with
  | .object r => fun w =>
    .ok (.enumerator r (enumOrder ((w.heap.get r).props.map Prod.fst))) w
  | _ => throw (.thrown .typeError)

/-- The next key that is still there, its value, and the keys behind it. -/
def World.nextKey (P : ObjectPrototype) (w : World) (r : Ref) :
    List Str → Option (Str × Value × List Str)
  | [] => none
  | k :: ks =>
    match w.get P r k with
    | some v => some (k, v, ks)
    | none => nextKey P w r ks

end Operations

/-! ## Characters -/

/-- Read the C string behind a pointer that `duk_get_string` gave for `s`, when the
value is not on the stack any more: it is there if something holds the string
besides. -/
def chars {σ : Type} (held : List Str) (s : Str) : Action Fault σ Str :=
  if s ∈ held then pure (cString s) else throw .freedString

theorem chars_of_mem {σ : Type} {held : List Str} {s : Str} (h : s ∈ held) :
    (chars held s : Action Fault σ Str) = pure (cString s) := if_pos h

theorem chars_of_not_mem {σ : Type} {held : List Str} {s : Str} (h : s ∉ held) :
    (chars held s : Action Fault σ Str) = throw .freedString := if_neg h

/-! ## The API -/

/-- A program that calls the API. -/
abbrev Duk (α : Type) := Action Fault (Frame World Value) α

namespace Duk

variable (P : ObjectPrototype)

/-- The value at an index. -/
def require (i : Int) : Duk Value := Stack.peek .invalidIndex i

/-- `duk_push_undefined`, `duk_push_string`, `duk_push_sprintf` of a text,
`duk_push_pointer`, `duk_push_c_function`. -/
def push (v : Value) : Duk Unit := Stack.push v

/-- `duk_push_global_object`. -/
def pushGlobalObject : Duk Unit := push (.object World.global)

/-- `duk_push_object`. -/
def pushObject : Duk Unit := do
  let r ← Stack.lift newObject
  push (.object r)

/-- `duk_pop_n`. -/
def pop (n : Nat) : Duk Unit := Stack.pop .invalidIndex n

/-- `duk_dup_top`. -/
def dupTop : Duk Unit := do
  let v ← require (-1)
  push v

/-- `duk_throw`. -/
def throwTop {α : Type} : Duk α := do
  let v ← require (-1)
  throw (.thrown v)

/-- A value that `duk_get_prop` leaves, `undefined` when there is no property, and
whether there is one. -/
def pushFound (found : Option Value) : Duk Bool := do
  push (found.getD .undefined)
  pure found.isSome

/-- `duk_get_prop_string`. -/
def getPropString (i : Int) (key : Str) : Duk Bool := do
  let v ← require i
  let found ← Stack.lift (getProp P v key)
  pushFound found

/-- `duk_get_global_string`. -/
def getGlobalString (key : Str) : Duk Bool := do
  let found ← Stack.lift (getProp P (.object World.global) key)
  pushFound found

/-- `duk_put_prop`: the key and the value are on top. The keys here are strings. -/
def putProp (i : Int) : Duk Unit := do
  let target ← require i
  let key ← require (-2)
  let v ← require (-1)
  match key with
  | .string name =>
    Stack.lift (setProp P target name v)
    pop 2
  | _ => throw (.thrown .typeError)

/-- `duk_put_prop_lstring`: the value is on top. -/
def putPropLstring (i : Int) (key : Str) : Duk Unit := do
  let target ← require i
  let v ← require (-1)
  Stack.lift (setProp P target key v)
  pop 1

/-- `duk_del_prop_string`. -/
def delPropString (i : Int) (key : Str) : Duk Unit := do
  let target ← require i
  Stack.lift (delProp target key)

/-- `duk_set_finalizer`: the function is on top. -/
def setFinalizer (i : Int) : Duk Unit := do
  let target ← require i
  let f ← require (-1)
  match target with
  | .object r =>
    Stack.lift (modify fun w => w.update r fun o => { o with finalizer := some f })
    pop 1
  | _ => throw (.thrown .typeError)

/-- `duk_enum(ctx, i, DUK_ENUM_OWN_PROPERTIES_ONLY)`. -/
def enum (i : Int) : Duk Unit := do
  let v ← require i
  let e ← Stack.lift (enumerate v)
  push e

/-- `duk_next(ctx, -1, 1)`: the enumerator moves on, and the key and its value are
pushed, as long as there is one. -/
def next : Duk Bool := do
  match ← require (-1) with
  | .enumerator r keys =>
    match ← Stack.lift (fun w => .ok (w.nextKey P r keys) w) with
    | some (k, v, ks) =>
      Stack.replace .invalidIndex (.enumerator r ks)
      push (.string k)
      push v
      pure true
    | none =>
      Stack.replace .invalidIndex (.enumerator r [])
      pure false
  | _ => throw (.thrown .typeError)

/-- `duk_is_string`. -/
def isString (i : Int) : Duk Bool := Stack.look (fun v => (v.bind Value.asString).isSome) i

/-- `duk_get_string`: a pointer to the characters of the string, or `NULL`. -/
def getString (i : Int) : Duk (Option Str) := Stack.look (fun v => v.bind Value.asString) i

/-- `duk_get_pointer`. -/
def getPointer (i : Int) : Duk Ptr := Stack.look (fun v => v.elim 0 Value.asPointer) i

/-- `duk_is_undefined`. -/
def isUndefined (i : Int) : Duk Bool := Stack.look (fun v => v = some .undefined) i

/-- `duk_is_c_function`. -/
def isCFunction (i : Int) : Duk Bool := Stack.look (fun v => v.any Value.isCFunction) i

/-- `duk_is_object`. -/
def isObject (i : Int) : Duk Bool := Stack.look (fun v => v.any Value.isObject) i

/-! ### What the calls do, on a given stack -/

section Tracking

open Stack

variable {P : ObjectPrototype} {α β : Type} {st st' : List Value} {i : Int} {v x : Value}
  {f : Unit → Duk α} {y : Action Fault World β} {R : α → β → List Value → Prop}

theorem tracks_push (hf : Tracks (f ()) (v :: st) y R) : Tracks (push v >>= f) st y R :=
  tracks_shift (shifts_push v) hf

theorem tracks_pop {n : Nat} (h : drop? n st = some st') (hf : Tracks (f ()) st' y R) :
    Tracks (pop n >>= f) st y R :=
  tracks_shift (shifts_pop h) hf

theorem shifts_dupTop : Shifts dupTop (v :: st) () (v :: v :: st) :=
  (shifts_peek rfl).bind (shifts_push v)

theorem tracks_dupTop (hf : Tracks (f ()) (v :: v :: st) y R) :
    Tracks (dupTop >>= f) (v :: st) y R :=
  tracks_shift shifts_dupTop hf

theorem tracks_throwTop : Tracks (throwTop : Duk α) (v :: st)
    (throw (.thrown v) : Action Fault World β) R :=
  tracks_shift (shifts_peek rfl) (tracks_throw _)

theorem tracks_pushObject :
    Tracks pushObject st newObject fun _ r st' => st' = .object r :: st := by
  rw [← bind_pure newObject]
  exact tracks_lift_bind fun r w => .returns rfl

theorem tracks_pushFound (found : Option Value) :
    Tracks (pushFound found) st (pure found) fun b found st' =>
      b = found.isSome ∧ st' = found.getD .undefined :: st :=
  tracks_shift (shifts_push _) (tracks_pure ⟨rfl, rfl⟩)

/-- Characters are read, or it is too late for both sides. -/
theorem tracks_chars {held : List Str} {s : Str} {f : Str → Duk α}
    {g : Str → Action Fault World β} (hf : ∀ c, Tracks (f c) st (g c) R) :
    Tracks (chars held s >>= f) st (chars held s >>= g) R := by
  by_cases h : s ∈ held
  · rw [chars_of_mem h, chars_of_mem h, pure_bind, pure_bind]
    exact hf _
  · rw [chars_of_not_mem h, chars_of_not_mem h]
    exact fun w => .throws Fault.freedString w st

/-- A property is read, and left on the stack. -/
theorem tracks_getPropString (h : get? st i = some v) (key : Str) :
    Tracks (getPropString P i key) st (getProp P v key) fun b found st' =>
      b = found.isSome ∧ st' = found.getD .undefined :: st := by
  rw [← bind_pure (getProp P v key)]
  exact tracks_shift (shifts_peek h) (tracks_lift_bind tracks_pushFound)

theorem tracks_getGlobalString (key : Str) :
    Tracks (getGlobalString P key) st (getProp P (.object World.global) key) fun b found st' =>
      b = found.isSome ∧ st' = found.getD .undefined :: st := by
  rw [← bind_pure (getProp P _ key)]
  exact tracks_lift_bind tracks_pushFound

/-- A property is written; its key and value leave the stack. -/
theorem tracks_putProp {name : Str} (h : get? (x :: .string name :: st) i = some v) :
    Tracks (putProp P i) (x :: .string name :: st) (setProp P v name x) fun _ _ st' =>
      st' = st := by
  rw [← bind_pure (setProp P v name x)]
  refine tracks_shift (shifts_peek h) (tracks_shift (shifts_peek rfl)
    (tracks_shift (shifts_peek rfl) ?_))
  exact tracks_lift_bind fun _ w => by
    rw [pop, shifts_pop rfl w]
    exact .returns rfl

theorem tracks_putPropLstring (h : get? (x :: st) i = some v) (key : Str) :
    Tracks (putPropLstring P i key) (x :: st) (setProp P v key x) fun _ _ st' => st' = st := by
  rw [← bind_pure (setProp P v key x)]
  refine tracks_shift (shifts_peek h) (tracks_shift (shifts_peek rfl) ?_)
  exact tracks_lift_bind fun _ w => by
    rw [pop, shifts_pop rfl w]
    exact .returns rfl

theorem tracks_delPropString (h : get? st i = some v) (key : Str) :
    Tracks (delPropString i key) st (delProp v key) fun _ _ st' => st' = st :=
  tracks_shift (shifts_peek h) ((tracks_lift _).mono fun _ _ _ h => h.2)

/-- A finalizer is set; it leaves the stack. -/
theorem tracks_setFinalizer {r : Ref} (h : get? (x :: st) i = some (.object r)) :
    Tracks (setFinalizer i) (x :: st)
      (modify fun w => w.update r fun o => { o with finalizer := some x } : Action Fault World Unit)
      fun _ _ st' => st' = st := by
  rw [← bind_pure (modify _)]
  refine tracks_shift (shifts_peek h) (tracks_shift (shifts_peek rfl) ?_)
  exact tracks_lift_bind fun _ w => by
    rw [pop, shifts_pop rfl w]
    exact .returns rfl

theorem tracks_enum (h : get? st i = some v) :
    Tracks (enum i) st (enumerate v) fun _ e st' => st' = e :: st := by
  rw [← bind_pure (enumerate v)]
  exact tracks_shift (shifts_peek h) (tracks_lift_bind fun e w => .returns rfl)

end Tracking

end Duk

end KgCpp.Scripts
