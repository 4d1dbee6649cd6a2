import KgCpp.Lib.Run
import KgCpp.Lib.Shared

/-!
# `duktape_t` (`scripts/duktape.hpp`)

A `duktape_t` is a shared pointer to a Duktape context. Handles of one context
may belong to several groups that do not know of each other: the one of
`duktape_t()`, which made the context, and one for each time the context was
wrapped by `duktape_t(ctx, func)`.

`destroys_owned_iff` says when the handles destroy what they own and nothing
else. The wrapping constructor passes `destroy_ctx` on, and not `func`: this is
right only where the handle owns the context and was meant to destroy it.
-/

namespace KgCpp.Scripts.Duktape

open Lib

/-- A `duk_context*`. -/
abbrev Ctx := Nat

/-- `destroy_ft`, by the functions there are to choose from. -/
inductive DestroyFunc where
  | destroyCtx
  | destroyNone
  | other (id : Nat)
deriving DecidableEq, Repr

/-- The contexts made so far, and the `duktape_t` objects with the groups of
their shared pointers. -/
structure Handles where
  ctxs : Nat
  pointers : Shared Ctx DestroyFunc

/-- A call of the destroy function of a group of handles. -/
structure Call where
  group : Ref
  ctx : Ctx
  func : DestroyFunc
deriving DecidableEq, Repr

/-- What a program does with contexts and handles. `heap` is a context made by
other code, and `create` tells whether `duk_create_heap_default` succeeds. -/
inductive Label where
  | heap
  | create (allocated : Bool)
  | wrap (ctx : Ctx) (func : DestroyFunc)
  | copy (h : Nat)
  | assign (h h' : Nat)
  | destroy (h : Nat)
deriving DecidableEq, Repr

namespace Handles

/-- Neither contexts nor handles. -/
def initial : Handles := ⟨0, .empty⟩

/-- The calls of destroy functions, in order. -/
def calls (s : Handles) : List Call :=
  s.pointers.ended.filterMap fun g =>
    s.pointers.groups[g]?.map fun x => ⟨g, x.pointee, x.deleter⟩

/-- `duk_destroy_heap` has been called for `ctx`. -/
def Destroyed (s : Handles) (ctx : Ctx) : Prop :=
  ∃ call ∈ s.calls, call.ctx = ctx ∧ call.func = .destroyCtx

instance (s : Handles) (ctx : Ctx) : Decidable (s.Destroyed ctx) :=
  inferInstanceAs (Decidable (∃ call ∈ s.calls, call.ctx = ctx ∧ call.func = .destroyCtx))

/-- `duktape_t()`, which throws when there is no context. -/
def create (s : Handles) (allocated : Bool) : Handles :=
  if allocated then ⟨s.ctxs + 1, s.pointers.make s.ctxs .destroyCtx⟩ else s

/-- `duktape_t(ctx, func)`. The shared pointer is given `destroy_ctx`. -/
def wrap (s : Handles) (ctx : Ctx) (_func : DestroyFunc) : Handles :=
  { s with pointers := s.pointers.make ctx .destroyCtx }

/-- The copy constructor. -/
def copy (s : Handles) (h : Nat) : Handles := { s with pointers := s.pointers.copy h }

/-- `operator=`. -/
def assign (s : Handles) (h h' : Nat) : Handles :=
  { s with pointers := s.pointers.assign h h' }

/-- The destructor. -/
def destroy (s : Handles) (h : Nat) : Handles := { s with pointers := s.pointers.destroy h }

/-- Only contexts that exist are wrapped, and only handles that are alive are
used. -/
def Enabled (s : Handles) : Label → Prop
  | .heap => True
  | .create _ => True
  | .wrap ctx _ => ctx < s.ctxs ∧ ¬ s.Destroyed ctx
  | .copy h => (s.pointers.holds h).isSome
  | .assign h h' => (s.pointers.holds h).isSome ∧ (s.pointers.holds h').isSome
  | .destroy h => (s.pointers.holds h).isSome

instance (s : Handles) (l : Label) : Decidable (s.Enabled l) := by
  cases l <;> unfold Enabled <;> infer_instance

/-- What a step does. -/
def effect (s : Handles) : Label → Handles
  | .heap => { s with ctxs := s.ctxs + 1 }
  | .create allocated => s.create allocated
  | .wrap ctx func => s.wrap ctx func
  | .copy h => s.copy h
  | .assign h h' => s.assign h h'
  | .destroy h => s.destroy h

/-- One step. -/
def step (s : Handles) (l : Label) : Option Handles :=
  if s.Enabled l then some (s.effect l) else none

theorem step_eq_some {s t : Handles} {l : Label} :
    s.step l = some t ↔ s.Enabled l ∧ s.effect l = t := by
  rw [step, Option.ite_none_right_eq_some, Option.some.injEq]

end Handles

/-! ## What the program asked for -/

/-- How a group of handles began. -/
inductive Construction where
  | create
  | wrap (ctx : Ctx) (func : DestroyFunc)
deriving DecidableEq, Repr

/-- The group that a step begins. -/
def Label.construction : Label → Option Construction
  | .create true => some .create
  | .wrap ctx func => some (.wrap ctx func)
  | _ => none

/-- How the groups of a run began, in order. -/
def constructions (ls : List Label) : List Construction := ls.filterMap Label.construction

namespace Handles

/-- The group `g` has lost its last handle. -/
def Ended (s : Handles) (g : Ref) : Prop :=
  g < s.pointers.groups.length ∧ ∀ h, s.pointers.holds h ≠ some g

/-- The context of the handles of `g`. -/
def ctxOf (s : Handles) (g : Ref) : Option Ctx := s.pointers.groups[g]?.map Group.pointee

/-- The handles destroy what they own.

- `counted`: a group calls one function, once, when it has lost its last handle.
- `given`, `kept`: a wrapping group calls the function it was given, with the
  context it was given; with `destroy_none` it destroys nothing.
- `once`, `alive`: no context is destroyed twice, and none while a handle of the
  group of `duktape_t()` that made it is alive. -/
structure DestroysOwned (ls : List Label) (s : Handles) : Prop where
  counted : (s.calls.map Call.group).Nodup ∧ ∀ g, g ∈ s.calls.map Call.group ↔ s.Ended g
  given : ∀ call ∈ s.calls, ∀ ctx func,
    (constructions ls)[call.group]? = some (.wrap ctx func) → call.ctx = ctx ∧ call.func = func
  kept : ∀ call ∈ s.calls, ∀ ctx,
    (constructions ls)[call.group]? = some (.wrap ctx .destroyNone) → call.func ≠ .destroyCtx
  once : ((s.calls.filter fun call => call.func = .destroyCtx).map Call.ctx).Nodup
  alive : ∀ ctx, s.Destroyed ctx → ∀ h g, s.pointers.holds h = some g →
    (constructions ls)[g]? = some .create → s.ctxOf g ≠ some ctx

/-- Only owners lose their last handle: groups of `duktape_t()`, and groups that
wrap, with `destroy_ctx` and each the only one to do so, a context that no
`duktape_t()` made. -/
structure OnlyOwnersEnd (ls : List Label) (s : Handles) : Prop where
  owns : ∀ g, s.Ended g → (constructions ls)[g]? = some .create ∨
    ∃ ctx, (constructions ls)[g]? = some (.wrap ctx .destroyCtx) ∧
      ∀ o, (constructions ls)[o]? = some .create → s.ctxOf o ≠ some ctx
  single : ∀ g g' ctx, s.Ended g → s.Ended g' →
    (constructions ls)[g]? = some (.wrap ctx .destroyCtx) →
    (constructions ls)[g']? = some (.wrap ctx .destroyCtx) → g = g'

/-! ## What a run keeps -/

/-- What is known of a group from how it began: its deleter is `destroy_ctx`, and
its context exists. -/
structure Inv (ls : List Label) (s : Handles) : Prop where
  ok : s.pointers.Ok
  length : s.pointers.kinds.length = (constructions ls).length
  func : ∀ kind ∈ s.pointers.kinds, kind.2 = .destroyCtx
  known : ∀ kind ∈ s.pointers.kinds, kind.1 < s.ctxs
  wrapped : ∀ (g : Ref) ctx func, (constructions ls)[g]? = some (.wrap ctx func) →
    s.pointers.kinds[g]? = some (ctx, .destroyCtx)
  created : ∀ (g g' : Ref) kind, (constructions ls)[g]? = some .create →
    (constructions ls)[g']? = some .create → s.pointers.kinds[g]? = some kind →
    s.pointers.kinds[g']? = some kind → g = g'

theorem inv_initial : Inv [] initial := by
  refine ⟨Shared.ok_empty, rfl, ?_, ?_, ?_, ?_⟩ <;> simp [initial, Shared.empty, Shared.kinds,
    constructions]

theorem constructions_concat (ls : List Label) (l : Label) :
    constructions (ls ++ [l]) = constructions ls ++ l.construction.toList := by
  rw [constructions, List.filterMap_append]
  cases h : l.construction <;> simp [constructions, h]

/-- A step that begins no group. -/
theorem Inv.frame {ls : List Label} {s t : Handles} (h : Inv ls s) {l : Label}
    (hl : l.construction = none) (hok : t.pointers.Ok)
    (hkinds : t.pointers.kinds = s.pointers.kinds) (hctxs : s.ctxs ≤ t.ctxs) :
    Inv (ls ++ [l]) t := by
  have hconstr : constructions (ls ++ [l]) = constructions ls := by
    rw [constructions_concat, hl]
    exact List.append_nil _
  obtain ⟨-, hlen, hfunc, hknown, hwrapped, hcreated⟩ := h
  rw [← hkinds] at hlen hfunc hknown hwrapped hcreated
  rw [← hconstr] at hlen hwrapped hcreated
  exact ⟨hok, hlen, hfunc, fun kind hkind => Nat.lt_of_lt_of_le (hknown kind hkind) hctxs,
    hwrapped, hcreated⟩

/-- A step that begins a group: it is not that of an earlier context, unless it
wraps one. -/
theorem Inv.begin {ls : List Label} {s t : Handles} (h : Inv ls s) {l : Label}
    {construction : Construction} (hl : l.construction = some construction) {ctx : Ctx}
    (ht : t.pointers = s.pointers.make ctx .destroyCtx) (hctxs : s.ctxs ≤ t.ctxs)
    (hctx : ctx < t.ctxs) (hcreate : construction = .create → ctx = s.ctxs)
    (hwrap : ∀ ctx' func, construction = .wrap ctx' func → ctx = ctx') :
    Inv (ls ++ [l]) t := by
  have hconstr : constructions (ls ++ [l]) = constructions ls ++ [construction] := by
    rw [constructions_concat, hl]
    rfl
  have hkinds : t.pointers.kinds = s.pointers.kinds ++ [(ctx, .destroyCtx)] := by
    rw [ht, Shared.kinds_make]
  -- a group of the new list is one of the old list, or the new one
  have hget : ∀ {g c}, (constructions ls ++ [construction])[g]? = some c →
      (g < s.pointers.kinds.length ∧ (constructions ls)[g]? = some c) ∨
        (g = s.pointers.kinds.length ∧ c = construction) := by
    intro g c hg
    rw [h.length]
    exact Shared.getElem?_concat_cases hg
  have hold : ∀ {g}, g < s.pointers.kinds.length →
      (s.pointers.kinds ++ [(ctx, DestroyFunc.destroyCtx)])[g]? = s.pointers.kinds[g]? :=
    fun hlt => List.getElem?_append_left hlt
  have hnew : (s.pointers.kinds ++ [(ctx, DestroyFunc.destroyCtx)])[s.pointers.kinds.length]? =
      some (ctx, .destroyCtx) := List.getElem?_concat_length
  have hfresh : construction = .create → (ctx, DestroyFunc.destroyCtx) ∉ s.pointers.kinds :=
    fun hc hmem => Nat.lt_irrefl s.ctxs (hcreate hc ▸ h.known _ hmem)
  refine ⟨ht ▸ h.ok.make ctx .destroyCtx, ?_, ?_, ?_, ?_, ?_⟩
  · rw [hconstr, hkinds, List.length_append, List.length_append, h.length]
    rfl
  · rw [hkinds]
    intro kind hkind
    rcases List.mem_append.mp hkind with hkind | hkind
    · exact h.func kind hkind
    · rw [List.mem_singleton.mp hkind]
  · rw [hkinds]
    intro kind hkind
    rcases List.mem_append.mp hkind with hkind | hkind
    · exact Nat.lt_of_lt_of_le (h.known kind hkind) hctxs
    · rw [List.mem_singleton.mp hkind]
      exact hctx
  · rw [hconstr, hkinds]
    intro g ctx' func hg
    rcases hget hg with ⟨hlt, hg⟩ | ⟨rfl, hc⟩
    · rw [hold hlt]
      exact h.wrapped g ctx' func hg
    · rw [hnew, hwrap ctx' func hc.symm]
  · rw [hconstr, hkinds]
    intro g g' kind hg hg' hkind hkind'
    rcases hget hg with ⟨hlt, hg⟩ | ⟨rfl, hc⟩
    · rw [hold hlt] at hkind
      rcases hget hg' with ⟨hlt', hg'⟩ | ⟨rfl, hc'⟩
      · rw [hold hlt'] at hkind'
        exact h.created g g' kind hg hg' hkind hkind'
      · rw [hnew] at hkind'
        cases hkind'
        exact absurd (List.mem_of_getElem? hkind) (hfresh hc'.symm)
    · rw [hnew] at hkind
      cases hkind
      rcases hget hg' with ⟨hlt', hg'⟩ | ⟨rfl, -⟩
      · rw [hold hlt'] at hkind'
        exact absurd (List.mem_of_getElem? hkind') (hfresh hc.symm)
      · rfl

theorem Inv.step {ls : List Label} {s t : Handles} {l : Label} (h : Inv ls s)
    (hst : s.step l = some t) : Inv (ls ++ [l]) t := by
  obtain ⟨henabled, rfl⟩ := step_eq_some.mp hst
  cases l with
  | heap => exact h.frame rfl h.ok rfl (Nat.le_succ _)
  | create allocated =>
    cases allocated with
    | false => exact h.frame rfl h.ok rfl (Nat.le_refl _)
    | true =>
      exact h.begin rfl rfl (Nat.le_succ _) (Nat.lt_succ_self _) (fun _ => rfl)
        fun _ _ hc => by cases hc
  | wrap ctx func =>
    refine h.begin rfl rfl (Nat.le_refl _) henabled.1 (fun hc => by cases hc) fun _ _ hc => ?_
    cases hc
    rfl
  | copy i => exact h.frame rfl (h.ok.copy i) (Shared.kinds_copy ..) (Nat.le_refl _)
  | assign i j => exact h.frame rfl (h.ok.assign i j) (Shared.kinds_assign ..) (Nat.le_refl _)
  | destroy i => exact h.frame rfl (h.ok.destroy i) (Shared.kinds_destroy ..) (Nat.le_refl _)

theorem inv_exec {ls : List Label} {s : Handles} (h : exec step initial ls = some s) :
    Inv ls s :=
  exec_history (P := Inv) (fun _ _ _ _ _ hinv hst => hinv.step hst) inv_initial ls s h

/-! ## What is destroyed -/

theorem length_groups {ls : List Label} {s : Handles} (h : Inv ls s) :
    s.pointers.groups.length = (constructions ls).length := by
  rw [← h.length, Shared.kinds, List.length_map]

theorem getElem?_kinds (s : Handles) (g : Ref) :
    s.pointers.kinds[g]? = s.pointers.groups[g]?.map fun x => (x.pointee, x.deleter) :=
  List.getElem?_map ..

theorem ctxOf_of_wrap {ls : List Label} {s : Handles} (h : Inv ls s) {g : Ref} {ctx : Ctx}
    {func : DestroyFunc} (hg : (constructions ls)[g]? = some (.wrap ctx func)) :
    s.ctxOf g = some ctx := by
  have hkind := h.wrapped g ctx func hg
  rw [getElem?_kinds] at hkind
  obtain ⟨x, hx, heq⟩ := Option.map_eq_some_iff.mp hkind
  rw [ctxOf, hx, Option.map_some, (Prod.mk.inj heq).1]

/-- Contexts made by different groups are different. -/
theorem eq_of_create {ls : List Label} {s : Handles} (h : Inv ls s) {g g' : Ref} {ctx : Ctx}
    (hg : (constructions ls)[g]? = some .create) (hg' : (constructions ls)[g']? = some .create)
    (hctx : s.ctxOf g = some ctx) (hctx' : s.ctxOf g' = some ctx) : g = g' := by
  have hkind : ∀ {k}, s.ctxOf k = some ctx →
      s.pointers.kinds[k]? = some (ctx, .destroyCtx) := by
    intro k hk
    obtain ⟨x, hx, rfl⟩ := Option.map_eq_some_iff.mp hk
    have hget : s.pointers.kinds[k]? = some (x.pointee, x.deleter) := by
      rw [getElem?_kinds, hx, Option.map_some]
    have hfunc : x.deleter = .destroyCtx := h.func _ (List.mem_of_getElem? hget)
    rw [hget, hfunc]
  exact h.created g g' _ hg hg' (hkind hctx) (hkind hctx')

/-- The groups that have ended are those that call their function, and that is
always `destroy_ctx`. -/
theorem mem_calls {ls : List Label} {s : Handles} (h : Inv ls s) {call : Call} :
    call ∈ s.calls ↔ s.Ended call.group ∧ s.ctxOf call.group = some call.ctx ∧
      call.func = .destroyCtx := by
  have hended : ∀ g, g ∈ s.pointers.ended ↔ s.Ended g := h.ok.ended_iff
  rw [calls, List.mem_filterMap]
  constructor
  · rintro ⟨g, hg, hcall⟩
    obtain ⟨x, hx, rfl⟩ := Option.map_eq_some_iff.mp hcall
    refine ⟨(hended g).mp hg, by rw [ctxOf, hx, Option.map_some], ?_⟩
    have hkind : s.pointers.kinds[g]? = some (x.pointee, x.deleter) := by
      rw [getElem?_kinds, hx, Option.map_some]
    exact h.func _ (List.mem_of_getElem? hkind)
  · rintro ⟨hg, hctx, hfunc⟩
    obtain ⟨x, hx, hpointee⟩ := Option.map_eq_some_iff.mp hctx
    have hkind : s.pointers.kinds[call.group]? = some (x.pointee, x.deleter) := by
      rw [getElem?_kinds, hx, Option.map_some]
    have hdel : x.deleter = .destroyCtx := h.func _ (List.mem_of_getElem? hkind)
    refine ⟨call.group, (hended _).mpr hg, ?_⟩
    rw [hx, Option.map_some, hpointee, hdel, ← hfunc]

/-- The call of a group that has ended. -/
theorem exists_call {ls : List Label} {s : Handles} (h : Inv ls s) {g : Ref} (hg : s.Ended g) :
    ∃ ctx, s.ctxOf g = some ctx ∧ ⟨g, ctx, .destroyCtx⟩ ∈ s.calls := by
  have hlt := hg.1
  have hctx : s.ctxOf g = some s.pointers.groups[g].pointee := by
    rw [ctxOf, List.getElem?_eq_getElem hlt, Option.map_some]
  exact ⟨_, hctx, (mem_calls h).mpr ⟨hg, hctx, rfl⟩⟩

theorem map_group_calls {ls : List Label} {s : Handles} (h : Inv ls s) :
    s.calls.map Call.group = s.pointers.ended := by
  have hvalid : ∀ g ∈ s.pointers.ended, g < s.pointers.groups.length := fun g hg =>
    ((h.ok.ended_iff g).mp hg).1
  rw [calls]
  generalize s.pointers.ended = gs at hvalid
  induction gs with
  | nil => rfl
  | cons g gs ih =>
    rw [List.filterMap_cons_some (by
      rw [List.getElem?_eq_getElem (hvalid g (List.mem_cons_self ..))]; rfl), List.map_cons,
      ih fun g' hg' => hvalid g' (List.mem_cons_of_mem _ hg')]

theorem counted_calls {ls : List Label} {s : Handles} (h : Inv ls s) :
    (s.calls.map Call.group).Nodup ∧ ∀ g, g ∈ s.calls.map Call.group ↔ s.Ended g := by
  rw [map_group_calls h]
  exact ⟨Shared.Counted.nodup h.ok, h.ok.ended_iff⟩

/-- No context is destroyed twice when the groups that have ended are of different
contexts. -/
theorem nodup_ctx_iff {ls : List Label} {s : Handles} (h : Inv ls s) :
    ((s.calls.filter fun call => call.func = .destroyCtx).map Call.ctx).Nodup ↔
      ∀ g g' ctx, s.Ended g → s.Ended g' → s.ctxOf g = some ctx → s.ctxOf g' = some ctx →
        g = g' := by
  have hall : (s.calls.filter fun call => call.func = .destroyCtx) = s.calls :=
    List.filter_eq_self.mpr fun call hcall => decide_eq_true ((mem_calls h).mp hcall).2.2
  rw [hall, List.nodup_map_iff_inj_on ((counted_calls h).1.of_map _)]
  constructor
  · intro hinj g g' ctx hg hg' hctx hctx'
    have heq := hinj ⟨g, ctx, .destroyCtx⟩ ((mem_calls h).mpr ⟨hg, hctx, rfl⟩)
      ⟨g', ctx, .destroyCtx⟩ ((mem_calls h).mpr ⟨hg', hctx', rfl⟩) rfl
    exact congrArg Call.group heq
  · rintro hinj ⟨g, ctx, func⟩ hcall ⟨g', ctx', func'⟩ hcall' hctx
    obtain ⟨hg, hof, hfunc⟩ := (mem_calls h).mp hcall
    obtain ⟨hg', hof', hfunc'⟩ := (mem_calls h).mp hcall'
    cases (show ctx = ctx' from hctx)
    cases (show func = _ from hfunc)
    cases (show func' = _ from hfunc')
    rw [hinj g g' ctx hg hg' hof hof']

/-! ## When the handles destroy what they own -/

theorem DestroysOwned.onlyOwnersEnd {ls : List Label} {s : Handles} (h : Inv ls s)
    (hd : s.DestroysOwned ls) : s.OnlyOwnersEnd ls := by
  have honce := (nodup_ctx_iff h).mp hd.once
  refine ⟨fun g hg => ?_, fun g g' ctx hg hg' hwrap hwrap' =>
    honce g g' ctx hg hg' (ctxOf_of_wrap h hwrap) (ctxOf_of_wrap h hwrap')⟩
  obtain ⟨ctx, hctx, hcall⟩ := exists_call h hg
  have hlt : g < (constructions ls).length := length_groups h ▸ hg.1
  have hget := List.getElem?_eq_getElem hlt
  cases hconstr : (constructions ls)[g] with
  | create => exact .inl (hget.trans (congrArg some hconstr))
  | wrap ctx' func =>
    rw [hconstr] at hget
    obtain ⟨hsame, hfunc⟩ := hd.given _ hcall ctx' func hget
    cases (show ctx = ctx' from hsame)
    cases (show .destroyCtx = func from hfunc)
    refine .inr ⟨ctx, hget, fun o ho hoctx => ?_⟩
    by_cases halive : ∃ i, s.pointers.holds i = some o
    · -- the owner is alive
      obtain ⟨i, hi⟩ := halive
      exact hd.alive ctx ⟨_, hcall, rfl, rfl⟩ i o hi ho hoctx
    · -- the owner has destroyed the context, too
      have holt : o < s.pointers.groups.length := by
        rw [length_groups h]
        exact (List.getElem?_eq_some_iff.mp ho).1
      have heq := honce g o ctx hg ⟨holt, fun i hi => halive ⟨i, hi⟩⟩ hctx hoctx
      rw [heq, ho] at hget
      cases hget

theorem OnlyOwnersEnd.destroysOwned {ls : List Label} {s : Handles} (h : Inv ls s)
    (ho : s.OnlyOwnersEnd ls) : s.DestroysOwned ls := by
  have hwraps : ∀ g ctx func, s.Ended g →
      (constructions ls)[g]? = some (.wrap ctx func) → func = .destroyCtx := by
    intro g ctx func hg hwrap
    rcases ho.owns g hg with hcreate | ⟨ctx', hwrap', -⟩
    · rw [hwrap] at hcreate
      cases hcreate
    · rw [hwrap] at hwrap'
      cases hwrap'
      rfl
  refine ⟨counted_calls h, fun call hcall ctx func hwrap => ?_, fun call hcall ctx hwrap => ?_,
    (nodup_ctx_iff h).mpr ?_, ?_⟩
  · obtain ⟨hended, hctx, hfunc⟩ := (mem_calls h).mp hcall
    rw [ctxOf_of_wrap h hwrap] at hctx
    exact ⟨(Option.some.inj hctx).symm, hfunc.trans (hwraps _ _ _ hended hwrap).symm⟩
  · cases hwraps _ _ _ ((mem_calls h).mp hcall).1 hwrap
  · intro g g' ctx hg hg' hctx hctx'
    rcases ho.owns g hg with hcreate | ⟨c, hwrap, hforeign⟩
    · rcases ho.owns g' hg' with hcreate' | ⟨c', hwrap', hforeign'⟩
      · exact eq_of_create h hcreate hcreate' hctx hctx'
      · rw [ctxOf_of_wrap h hwrap'] at hctx'
        cases hctx'
        exact absurd hctx (hforeign' g hcreate)
    · rw [ctxOf_of_wrap h hwrap] at hctx
      cases hctx
      rcases ho.owns g' hg' with hcreate' | ⟨c', hwrap', -⟩
      · exact absurd hctx' (hforeign g' hcreate')
      · rw [ctxOf_of_wrap h hwrap'] at hctx'
        cases hctx'
        exact ho.single g g' _ hg hg' hwrap hwrap'
  · rintro ctx ⟨call, hcall, rfl, -⟩ i g hi hcreate hctx
    obtain ⟨hended, hof, -⟩ := (mem_calls h).mp hcall
    rcases ho.owns _ hended with hcreate' | ⟨c, hwrap, hforeign⟩
    · exact hended.2 i (eq_of_create h hcreate hcreate' hctx hof ▸ hi)
    · rw [ctxOf_of_wrap h hwrap] at hof
      cases hof
      exact hforeign g hcreate hctx

/-- **When the handles destroy what they own**: in every state of every run of
constructions, copies, assignments and destructions, if and only if only owners
have lost their last handle. -/
theorem destroys_owned_iff (ls : List Label) (s : Handles)
    (h : exec step initial ls = some s) : s.DestroysOwned ls ↔ s.OnlyOwnersEnd ls :=
  ⟨fun hd => hd.onlyOwnersEnd (inv_exec h), fun ho => ho.destroysOwned (inv_exec h)⟩

/-- A context of other code, wrapped to be destroyed, through a copy. -/
theorem destroys_owned_iff_copied :
    ∃ s, exec step initial [.create true, .heap, .wrap 1 .destroyCtx, .copy 1, .destroy 1,
        .destroy 2] = some s ∧
      (s.DestroysOwned [.create true, .heap, .wrap 1 .destroyCtx, .copy 1, .destroy 1,
          .destroy 2] ↔
        s.OnlyOwnersEnd [.create true, .heap, .wrap 1 .destroyCtx, .copy 1, .destroy 1,
          .destroy 2]) ∧ s.calls = [⟨1, 1, .destroyCtx⟩] :=
  ⟨_, rfl, destroys_owned_iff _ _ rfl, rfl⟩

/-- A handle wraps the context of another one with `destroy_none`, and destroys
it under its owner. -/
theorem wrap_destroys :
    ∃ s, exec step initial [.create true, .wrap 0 .destroyNone, .destroy 1] = some s ∧
      ¬ s.DestroysOwned [.create true, .wrap 0 .destroyNone, .destroy 1] :=
  ⟨_, rfl, fun hd => hd.kept ⟨1, 0, .destroyCtx⟩ (by decide) 0 rfl rfl⟩

end Handles

end KgCpp.Scripts.Duktape
