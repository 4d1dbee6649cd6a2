import KgCpp.Scripts.ModuleRules

/-!
# Histories of the module system

What goes on in a context after `init` is a `Script`: loaders are registered,
modules imported, objects made, as the answers so far suggest. A loader that
imports a module runs a script of its own, so imports may be nested in any way.

`OnlyLoaded` says of the trace of a history what `kg_import` is meant to keep:
that it returns modules which were loaded, and knows which types there are.
-/

namespace KgCpp.Scripts.Module

open Lib

/-- What a loader does for a module, or the program that uses the context: it
answers, with a value and whether this is a module; it throws; it runs out of its
time; or it does something, and goes on by what it gets.

`imports` has the scripts of the loaders that this call asks, and what is held while
it runs. -/
inductive Script where
  | answers (v : Value) (ok : Bool)
  | throws (v : Value)
  | exhausted
  | newObject (k : Ref → Script)
  | setenv (env : Str → Option Str) (k : Script)
  | registers (loader : LoaderPtr) (fft : Ptr) (k : Script)
  | imports (pkg type : Value) (held : Held) (loaders : Ptr → Str → Script)
    (k : Except Value Value → Script)

/-- A call whose error is caught. -/
def attempt (x : Action Fault World Value) : Action Fault World (Except Value Value) := fun w =>
  match x w with
  | .ok v w => .ok (.ok v) w
  | .error (.thrown v) w => .ok (.error v) w
  | .error e w => .error e w

/-- Run a script. -/
def Script.run (H : Host) : Script → Protected
  | .answers v ok => pure (v, ok)
  | .throws v => throw (.thrown v)
  | .exhausted => throw .exhausted
  | .newObject k => do
    let r ← Scripts.newObject
    run H (k r)
  | .setenv env k => do
    modify fun w => { w with env := env }
    run H k
  | .registers loader fft k => do
    let _ ← Stack.call [] (registerLoader H loader.val fft)
    run H k
  | .imports pkg type held loaders k => do
    let r ← attempt (kgImport H (fun l path => run H (loaders l path)) held pkg type)
    run H (k r)

/-- A history: a new context, `init`, and a script. -/
def history (H : Host) (js : LoaderPtr) (c : Option LoaderPtr) (s : Script) : Protected := do
  let _ ← Stack.call [] (init H js.val (c.map Subtype.val))
  s.run H

/-- A history begins with the loaders of `init`, in a new table. -/
theorem history_create (H : Host) (env : Str → Option Str) (js : LoaderPtr)
    (c : Option LoaderPtr) (s : Script) :
    history H js c s (World.create env) =
      (registerFirst H js.val (c.map Subtype.val) >>= fun _ => s.run H) (newTable env) := by
  rw [history, init_eq, bind_assoc]
  show EStateM.bind _ _ _ = EStateM.bind _ _ _
  rw [EStateM.bind, EStateM.bind, setUp_create]
  rfl

/-- Whether a string was read that had been freed. -/
def readsFreed {α : Type} : EStateM.Result Fault World α → Bool
  | .error .freedString _ => true
  | _ => false

/-! ## What a trace tells -/

section Traces

variable (H : Host)

/-- A loader for a type was registered. -/
def Registered (trace : List Event) (type : Str) : Prop :=
  ∃ l, .registers l ∈ trace ∧ (H.loader l).moduleType.val = type

/-- A loader for the type answered with the module, which was stored. -/
def Loaded (trace : List Event) (type pkg : Str) (v : Value) : Prop :=
  ∃ l path, (H.loader l).moduleType.val = type ∧
    [.answers l pkg path v true, .stores l pkg v] <:+: trace

/-- The event `e` directly after the beginning of a call: it returns only what was
loaded under the name it was given, by a loader of its type if it has one; and it
throws when its type was never registered. -/
structure Justified (pre : List Event) (pkg type : Value) (e : Event) : Prop where
  returns : ∀ v, e = .returns v → ∀ p, pkg = .string p →
    ∃ t, (∀ t', type = .string t' → t' = t) ∧ Loaded H pre t p v
  unregistered : ∀ p t, pkg = .string p → type = .string t → ¬ Registered H pre t →
    e = .throws (noLoader t)

/-- `kg_import` returns what was loaded. Where a call begins, and does not ask a
loader next, it returns or throws next. -/
def OnlyLoaded (trace : List Event) : Prop :=
  ∀ pre pkg type held e post, trace = pre ++ .begins pkg type held :: e :: post →
    Justified H pre pkg type e

/-- An event that does not come upon `Object.prototype`, a zero byte or a string that
was freed: a call looks for a module under a name, and for a type that is not
registered, only when these are not inherited and have no zero byte; what it looks up
is held while it runs; and a loader is not registered as `__proto__`. -/
def OrdinaryEvent (pre : List Event) : Event → Prop
  | .begins pkg type held => ∀ p, pkg = .string p →
    ((∀ t, type = .string t → Registered H pre t) →
      0 ∉ p ∧ H.prototype.has p = false ∧ p ∈ held) ∧
    ∀ t, type = .string t → t ∈ held ∧ (Registered H pre t ∨ 0 ∉ t ∧ H.prototype.has t = false)
  | .registers l => (H.loader l).moduleType.val ≠ text "__proto__"
  | _ => True

/-- All events are ordinary. -/
def Ordinary (trace : List Event) : Prop :=
  ∀ pre e post, trace = pre ++ e :: post → OrdinaryEvent H pre e

variable {H} {trace trace' pre : List Event} {e : Event} {type pkg : Str} {v : Value}

theorem Ordinary.of_prefix (h : Ordinary H trace') (hpre : trace <+: trace') :
    Ordinary H trace := by
  obtain ⟨rest, rfl⟩ := hpre
  intro pre e post heq
  exact h pre e (post ++ rest) (by rw [heq, List.append_assoc]; rfl)

theorem Ordinary.append (h : Ordinary H trace) (he : OrdinaryEvent H trace e) :
    Ordinary H (trace ++ [e]) := by
  intro pre e' post heq
  rcases List.eq_nil_or_concat post with rfl | ⟨post, e'', rfl⟩
  · obtain ⟨rfl, hlast⟩ := List.append_inj' heq rfl
    cases hlast
    exact he
  · have hsplit : trace ++ [e] = (pre ++ e' :: post) ++ [e''] := by simpa using heq
    exact h pre e' post (List.append_inj' hsplit rfl).1

theorem Ordinary.last (h : Ordinary H (trace ++ [e])) : OrdinaryEvent H trace e :=
  h trace e [] rfl

theorem Registered.mono (h : Registered H trace type) (hpre : trace <+: trace') :
    Registered H trace' type := by
  obtain ⟨l, hl, htype⟩ := h
  exact ⟨l, hpre.subset hl, htype⟩

theorem registered_concat {l : Ptr} :
    Registered H (trace ++ [.registers l]) type ↔
      type = (H.loader l).moduleType.val ∨ Registered H trace type := by
  constructor
  · rintro ⟨l', hl', htype⟩
    rcases List.mem_append.mp hl' with hl' | hl'
    · exact .inr ⟨l', hl', htype⟩
    · cases List.mem_singleton.mp hl'
      exact .inl htype.symm
  · rintro (htype | hreg)
    · exact ⟨l, List.mem_append_right _ (List.mem_singleton_self _), htype.symm⟩
    · exact hreg.mono (List.prefix_append ..)

theorem Loaded.mono (h : Loaded H trace type pkg v) (hpre : trace <+: trace') :
    Loaded H trace' type pkg v := by
  obtain ⟨l, path, htype, hin⟩ := h
  exact ⟨l, path, htype, hin.trans hpre.isInfix⟩

/-- The call that a trace may end with allows the event next. -/
def Allows (H : Host) (trace : List Event) (e : Event) : Prop :=
  ∀ pre pkg type held, trace = pre ++ [.begins pkg type held] → Justified H pre pkg type e

theorem OnlyLoaded.append (h : OnlyLoaded H trace) (hallows : Allows H trace e) :
    OnlyLoaded H (trace ++ [e]) := by
  intro pre pkg type held e' post heq
  rcases List.eq_nil_or_concat post with rfl | ⟨post, e'', rfl⟩
  · have hsplit : trace ++ [e] = (pre ++ [.begins pkg type held]) ++ [e'] := by simpa using heq
    obtain ⟨hpre, he⟩ := List.append_inj' hsplit rfl
    cases he
    exact hallows pre pkg type held hpre
  · have hsplit : trace ++ [e] = (pre ++ .begins pkg type held :: e' :: post) ++ [e''] := by
      simpa using heq
    exact h pre pkg type held e' post (List.append_inj' hsplit rfl).1

/-- A trace does not end with the beginning of a call. -/
def Settled (trace : List Event) : Prop :=
  ∀ pre pkg type held, trace ≠ pre ++ [.begins pkg type held]

theorem settled_append (trace : List Event) (he : ∀ pkg type held, e ≠ .begins pkg type held) :
    Settled (trace ++ [e]) := by
  intro pre pkg type held heq
  have hlast := (List.append_inj' heq rfl).2
  exact he pkg type held (List.singleton_injective hlast)

theorem Settled.allows (h : Settled trace) (e : Event) : Allows H trace e :=
  fun pre pkg type held heq => absurd heq (h pre pkg type held)

end Traces

/-! ## Traces only grow -/

/-- However it ends, an action only adds to the trace. -/
structure Appends {α : Type} (x : Action Fault World α) : Prop where
  leaves : ∀ w, Leaves x w fun w' => w.trace <+: w'.trace

section Appends

variable {α β : Type} {H : Host} {imp : ModuleImport} {l : Ptr} {pkg : Str}

/-- An action that leaves the trace alone. -/
theorem appends_of_same {x : Action Fault World α}
    (h : ∀ w, Leaves x w fun w' => w'.trace = w.trace) : Appends x :=
  ⟨fun w => (h w).mono (fun _ _ heq => heq ▸ List.prefix_refl _)
    fun _ _ heq => heq ▸ List.prefix_refl _⟩

theorem appends_pure (a : α) : Appends (pure a) := appends_of_same fun _ => ends_pure rfl

theorem appends_throw (e : Fault) : Appends (throw e : Action Fault World α) :=
  appends_of_same fun _ => ends_throw rfl

theorem appends_note (e : Event) : Appends (note e) :=
  ⟨fun w => ends_modify (List.prefix_append w.trace [e])⟩

theorem Appends.bind {x : Action Fault World α} {f : α → Action Fault World β} (hx : Appends x)
    (hf : ∀ a, Appends (f a)) : Appends (x >>= f) :=
  ⟨fun w => ends_bind (hx.leaves w) fun a w' hpre =>
    ((hf a).leaves w').mono (fun _ _ h => hpre.trans h) fun _ _ h => hpre.trans h⟩

theorem appends_chars (held : List Str) (s : Str) :
    Appends (chars held s : Action Fault World Str) := by
  by_cases h : s ∈ held
  · rw [chars_of_mem h]
    exact appends_pure _
  · rw [chars_of_not_mem h]
    exact appends_throw _

theorem appends_getProp (P : ObjectPrototype) (v : Value) (name : Str) :
    Appends (getProp P v name) := by
  cases v with
  | undefined => exact appends_throw _
  | null => exact appends_throw _
  | object r => exact appends_of_same fun w => ends_of_ok rfl rfl
  | _ => exact appends_pure _

theorem World.trace_drop (w : World) (r : Ref) (v : Value) : (w.drop r v).trace = w.trace := by
  cases v with
  | object q =>
    rw [World.drop]
    split <;> rfl
  | _ => rfl

theorem World.trace_setPrototype {w w' : World} {r : Ref} {v : Value}
    (h : w.setPrototype r v = .ok w') : w'.trace = w.trace := by
  cases v with
  | object q =>
    rw [World.setPrototype] at h
    split at h <;> cases h
    rfl
  | _ =>
    cases h
    rfl

theorem appends_setProp (P : ObjectPrototype) (v : Value) (name : Str) (x : Value) :
    Appends (setProp P v name x) := by
  cases v with
  | object r =>
    refine appends_of_same fun w => ?_
    unfold Leaves Ends setProp
    dsimp only
    split
    · rename_i hres
      split at hres
      · cases hres
        exact World.trace_drop ..
      · split at hres
        · split at hres
          · rename_i hset
            cases hres
            exact World.trace_setPrototype hset
          · cases hres
        · cases hres
          rfl
      · cases hres
        rfl
    · rename_i hres
      split at hres
      · cases hres
      · split at hres
        · split at hres
          · cases hres
          · cases hres
            rfl
        · cases hres
      · cases hres
  | _ => exact appends_throw _

theorem appends_enumerate (v : Value) : Appends (enumerate v) := by
  cases v with
  | object r => exact appends_of_same fun w => ends_of_ok rfl rfl
  | _ => exact appends_throw _

/-- Loaders whose answers only add to the trace. -/
abbrev AppendsAll (imp : ModuleImport) : Prop := ∀ l path, Appends (imp l path)

theorem appends_ask (himp : AppendsAll imp) (l : Ptr) (pkg path : Str) :
    Appends (ask imp l pkg path) :=
  (appends_note _).bind fun _ => (himp l path).bind fun _ => (appends_note _).bind fun _ =>
    appends_pure _

theorem appends_searchPaths (himp : AppendsAll imp) (libs : Value) (paths : List Str) :
    Appends (searchPaths H imp l libs pkg paths) := by
  induction paths with
  | nil => exact appends_pure _
  | cons path paths ih =>
    refine (appends_ask himp l pkg path).bind fun r => ?_
    split
    · exact (appends_setProp ..).bind fun _ => (appends_note _).bind fun _ => appends_pure _
    split
    · exact appends_pure _
    · exact ih

theorem appends_searchLoader (himp : AppendsAll imp) (libs : Value) :
    Appends (searchLoader H imp l libs pkg) := by
  refine ⟨fun w => ?_⟩
  rw [Leaves, Ends, searchLoader_eq]
  exact (appends_searchPaths himp libs _).leaves w

/-- An error whose text has a name in it. -/
theorem appends_throw_chars (held : List Str) (name : Str) (message : Str → Value) :
    Appends (chars held name >>= fun c => (throw (.thrown (message c)) : Action Fault World α)) :=
  (appends_chars held name).bind fun _ => appends_throw _

theorem appends_seekTyped (himp : AppendsAll imp) (held : List Str) (M : Value) (key : Str) :
    Appends (seekTyped H imp held M key pkg) := by
  refine (appends_chars held key).bind fun keyChars => (appends_getProp ..).bind fun entry => ?_
  cases entry with
  | none => exact appends_throw_chars held key noLoader
  | some entry =>
    refine (appends_getProp ..).bind fun libs => ?_
    cases libs with
    | none => exact appends_throw_chars held key notLibs
    | some libs =>
      refine (appends_chars held pkg).bind fun pkgChars => (appends_getProp ..).bind fun v => ?_
      cases v with
      | some v => exact appends_pure _
      | none =>
        refine (appends_getProp ..).bind fun p => ?_
        cases p with
        | none => exact appends_throw_chars held key notLoader
        | some p =>
          dsimp only
          split
          · exact appends_throw_chars held key notLoader
          · refine (appends_chars held pkg).bind fun pkgChars =>
              (appends_searchLoader himp libs).bind fun v => ?_
            cases v with
            | some v => exact appends_pure _
            | none =>
              exact (appends_chars held key).bind fun keyChars =>
                appends_throw_chars held pkg (noLoaderModule keyChars)

theorem appends_seekEntry (himp : AppendsAll imp) (held : List Str) (entry : Value) :
    Appends (seekEntry H imp held entry pkg) := by
  refine (appends_getProp ..).bind fun libs => ?_
  cases libs with
  | none => exact appends_pure _
  | some libs =>
    refine (appends_chars held pkg).bind fun pkgChars => (appends_getProp ..).bind fun v => ?_
    cases v with
    | some v => exact appends_pure _
    | none =>
      refine (appends_getProp ..).bind fun p => ?_
      cases p with
      | none => exact appends_pure _
      | some p =>
        dsimp only
        split
        · exact appends_pure _
        · exact (appends_chars held pkg).bind fun pkgChars => appends_searchLoader himp libs

theorem appends_seekKeys (himp : AppendsAll imp) (held : List Str) (r : Ref) (keys : List Str) :
    Appends (seekKeys H imp held r pkg keys) := by
  induction keys with
  | nil => exact appends_pure _
  | cons key keys ih =>
    refine (appends_getProp ..).bind fun entry => ?_
    cases entry with
    | none => exact ih
    | some entry =>
      refine (appends_seekEntry himp held entry).bind fun v => ?_
      cases v with
      | some v => exact appends_pure _
      | none => exact ih

theorem appends_seekUntyped (himp : AppendsAll imp) (held : List Str) (M : Value) :
    Appends (seekUntyped H imp held M pkg) := by
  refine (appends_enumerate M).bind fun e => ?_
  cases e with
  | enumerator r keys =>
    refine (appends_seekKeys himp held r keys).bind fun v => ?_
    cases v with
    | some v => exact appends_pure _
    | none => exact appends_throw_chars held pkg noModule
  | _ => exact appends_throw _

theorem appends_seek (himp : AppendsAll imp) (held : List Str) (pkg type : Value) :
    Appends (seek H imp held pkg type) := by
  rw [seek]
  cases pkg.asString with
  | none => exact appends_throw _
  | some pkg =>
    refine (appends_getProp ..).bind fun M => ?_
    cases M with
    | none => exact appends_throw _
    | some M =>
      dsimp only
      cases type.asString with
      | some key => exact appends_seekTyped himp held M key
      | none => exact appends_seekUntyped himp held M

theorem appends_noting (pkg type : Value) (held : List Str) {x : Action Fault World Value}
    (hx : Appends x) : Appends (noting pkg type held x) := by
  refine ⟨fun w => ?_⟩
  have hw := hx.leaves { w with trace := w.trace ++ [.begins pkg type held] }
  have hbegins : w.trace <+: w.trace ++ [.begins pkg type held] := List.prefix_append ..
  unfold Leaves Ends at hw ⊢
  rw [noting]
  generalize x { w with trace := w.trace ++ [.begins pkg type held] } = res at hw
  cases res with
  | ok v w' => exact (hbegins.trans hw).trans (List.prefix_append ..)
  | error e w' =>
    cases e with
    | thrown v => exact (hbegins.trans hw).trans (List.prefix_append ..)
    | _ => exact hbegins.trans hw

theorem appends_attempt {x : Action Fault World Value} (hx : Appends x) : Appends (attempt x) := by
  refine ⟨fun w => ?_⟩
  have hw := hx.leaves w
  unfold Leaves Ends at hw ⊢
  rw [attempt]
  generalize x w = res at hw
  cases res with
  | ok v w' => exact hw
  | error e w' => cases e <;> exact hw

theorem appends_enter (l f : Ptr) : Appends (enter H l f) := by
  refine (appends_getProp ..).bind fun M => (appends_getProp ..).bind fun old =>
    Appends.bind ?_ fun _ => Appends.bind ?_ fun r => appends_setProp ..
  · cases old with
    | none => exact appends_pure _
    | some entry =>
      refine (appends_getProp ..).bind fun f => ?_
      split
      · exact appends_pure _
      · exact (appends_getProp ..).bind fun loader => appends_of_same fun _ => ends_modify rfl
  · exact Appends.bind (appends_of_same fun _ => ends_of_ok rfl rfl) fun r =>
      (appends_setProp ..).bind fun _ => (appends_setProp ..).bind fun _ =>
        Appends.bind (appends_of_same fun _ => ends_of_ok rfl rfl) fun libs =>
          (appends_setProp ..).bind fun _ => appends_pure _

theorem appends_register (l f : Ptr) : Appends (register H l f) :=
  (appends_note _).bind fun _ => appends_enter l f

/-- **A script only adds to the trace.** -/
theorem appends_run (H : Host) (s : Script) : Appends (s.run H) := by
  induction s with
  | answers v ok => exact appends_pure _
  | throws v => exact appends_throw _
  | exhausted => exact appends_throw _
  | newObject k ih => exact Appends.bind (appends_of_same fun _ => ends_of_ok rfl rfl) ih
  | setenv env k ih =>
    exact Appends.bind (appends_of_same fun _ => ends_modify rfl) fun _ => ih
  | registers loader fft k ih =>
    rw [Script.run, registerLoader_eq]
    exact ((appends_register ..).bind fun _ => appends_pure _).bind fun _ => ih
  | imports pkg type held loaders k ihLoaders ih =>
    rw [Script.run]
    refine Appends.bind (appends_attempt ?_) ih
    rw [kgImport_eq]
    exact appends_noting pkg type held.strings (appends_seek ihLoaders held.strings pkg type)

end Appends

end KgCpp.Scripts.Module
