import KgCpp.Scripts.ModuleHistory

/-!
# Every history imports only what was loaded

`Fine` is kept by every script of ordinary events, nested as its imports may be:
the objects are as their roles want them, each module in an entry was loaded by a
loader of its type, and the trace is as it should be. The layout of the heap grows
on the way, so what a loader does is said relative to the layout before (`Since`).
-/

namespace KgCpp.Scripts.Module

open Lib

variable {H : Host} {κ κ' : Layout} {M : Ref} {w w' : World}

/-- What holds in a history. -/
structure Fine (H : Host) (κ : Layout) (M : Ref) (w : World) : Prop where
  shaped : Shaped κ M w
  loaders : ∀ E type l f L, κ E = .entry type l f L → (H.loader l).moduleType.val = type
  types : ∀ type, type ∈ (w.heap.get M).props.map Prod.fst ↔ Registered H w.trace type
  loaded : ∀ L type, κ L = .libs type →
    ∀ p ∈ (w.heap.get L).props, Loaded H w.trace type p.1 p.2
  only : OnlyLoaded H w.trace

/-- Any event but a return may be next. -/
def Ready (H : Host) (trace : List Event) : Prop :=
  ∀ e, (∀ v, e ≠ .returns v) → Allows H trace e

theorem Settled.ready {trace : List Event} (h : Settled trace) : Ready H trace :=
  fun e _ => h.allows e

namespace Fine

/-- An event is noted. -/
theorem note (h : Fine H κ M w) {e : Event} (hallows : Allows H w.trace e)
    (hregisters : ∀ l, e ≠ .registers l) : Fine H κ M { w with trace := w.trace ++ [e] } where
  shaped := h.shaped.of_heap rfl
  loaders := h.loaders
  types type := by
    rw [h.types]
    refine ⟨fun hreg => hreg.mono (List.prefix_append ..), fun ⟨l, hl, htype⟩ => ⟨l, ?_, htype⟩⟩
    exact (List.mem_append.mp hl).resolve_right fun hlast =>
      hregisters l (List.mem_singleton.mp hlast).symm
  loaded L type hrole p hp := (h.loaded L type hrole p hp).mono (List.prefix_append ..)
  only := h.only.append hallows

/-- A loader makes an object. -/
theorem newObject (h : Fine H κ M w) :
    ∃ w', Scripts.newObject w = .ok w.heap.size w' ∧ w'.trace = w.trace ∧
      Grows κ w (Function.update κ w.heap.size .other) w' ∧
      Fine H (Function.update κ w.heap.size .other) M w' := by
  obtain ⟨w', hnew, htrace, hshaped, hgrows, hold⟩ := h.shaped.newObject
  have hM : w'.heap.get M = w.heap.get M := hold M h.shaped.table.1
  have hrole : ∀ {r : Ref} {role : Role}, Function.update κ w.heap.size .other r = role →
      role ≠ .other → κ r = role ∧ r ≠ w.heap.size := by
    intro r role heq hne
    by_cases hr : r = w.heap.size
    · rw [hr, Function.update_self] at heq
      exact absurd heq.symm hne
    · rw [Function.update_of_ne hr] at heq
      exact ⟨heq, hr⟩
  refine ⟨w', hnew, htrace, hgrows, hshaped, ?_, ?_, ?_, by rw [htrace]; exact h.only⟩
  · intro E type l f L hentry
    exact h.loaders E type l f L (hrole hentry (by simp)).1
  · rw [hM, htrace]
    exact h.types
  · intro L type hlibs p hp
    obtain ⟨hlibs, hne⟩ := hrole hlibs (by simp)
    rw [htrace]
    by_cases hL : L < w.heap.size
    · rw [hold L hL] at hp
      exact h.loaded L type hlibs p hp
    · have hsize : w'.heap.size = w.heap.size + 1 := by
        cases hnew
        exact Store.size_alloc ..
      have hge : w'.heap.size ≤ L := by
        rw [hsize]
        exact Nat.lt_of_le_of_ne (Nat.le_of_not_lt hL) (Ne.symm hne)
      rw [Store.get_of_size_le hge] at hp
      cases hp

/-- A module is stored that its loader has answered with. -/
theorem store (h : Fine H κ M w) {L : Ref} {type pkg path : Str} {l : Ptr} {v : Value}
    {t : List Event} (hL : L < w.heap.size) (hrole : κ L = .libs type)
    (hl : (H.loader l).moduleType.val = type)
    (htrace : w.trace = t ++ [.answers l pkg path v true]) :
    Fine H κ M { w.define L pkg v with trace := w.trace ++ [.stores l pkg v] } := by
  have hM : (w.define L pkg v).heap.get M = w.heap.get M :=
    Store.get_set_ne (h.shaped.libs_ne hrole).2.symm _
  have hsettled : Settled w.trace := by
    rw [htrace]
    exact settled_append t (by simp)
  have hnote := h.note (e := .stores l pkg v) (hsettled.allows _) (by simp)
  have hdefine : Shaped κ M (w.define L pkg v) := h.shaped.setLibs hL hrole rfl
  refine ⟨hdefine.of_heap rfl, h.loaders, ?_, ?_, hnote.only⟩
  · show ∀ type, type ∈ ((w.define L pkg v).heap.get M).props.map Prod.fst ↔ _
    rw [hM]
    exact hnote.types
  · intro L' type' hrole' p hp
    by_cases hL' : L' = L
    · rw [hL', hrole] at hrole'
      cases hrole'
      have hprops : ((w.define L pkg v).heap.get L).props =
          Assoc.insert (w.heap.get L).props pkg v := by
        show ((w.heap.set L _).get L).props = _
        rw [Store.get_set_self hL]
      rw [hL'] at hp
      rcases Assoc.mem_insert (hprops ▸ hp) with rfl | hp
      · refine ⟨l, path, hl, ?_⟩
        show _ <:+: w.trace ++ _
        rw [htrace, List.append_assoc]
        exact (List.suffix_append t _).isInfix
      · exact hnote.loaded L type hrole p hp
    · have hget : (w.define L pkg v).heap.get L' = w.heap.get L' := Store.get_set_ne hL' _
      rw [show World.heap { w.define L pkg v with trace := w.trace ++ [.stores l pkg v] } =
        (w.define L pkg v).heap from rfl, hget] at hp
      exact hnote.loaded L' type' hrole' p hp

/-- A loader is registered. -/
theorem registered (h : Fine H κ M w) (hready : Ready H w.trace) {l : Ptr} (hl : l ≠ 0) (f : Ptr) :
    Fine H (registeredLayout κ w (H.loader l).moduleType.val l f) M
      (registered κ M w (H.loader l).moduleType.val l f) := by
  generalize htype : (H.loader l).moduleType.val = type
  obtain ⟨htable, hother⟩ := get_registered h.shaped type l f
  have hlayout : ∀ r, registeredLayout κ w type l f r = κ r ∧ r ≠ w.heap.size ∧
      r ≠ w.heap.size + 1 ∨ r = w.heap.size ∨ r = w.heap.size + 1 := by
    intro r
    by_cases h1 : r = w.heap.size + 1
    · exact .inr (.inr h1)
    by_cases h0 : r = w.heap.size
    · exact .inr (.inl h0)
    · rw [registeredLayout, Function.update_of_ne h1, Function.update_of_ne h0]
      exact .inl ⟨rfl, h0, h1⟩
  have hadds : w.trace <+: w.trace ++ [.registers l] := List.prefix_append ..
  refine ⟨h.shaped.registered type hl f, ?_, ?_, ?_, h.only.append (hready _ (by simp))⟩
  · intro E type' l' f' L hentry
    rcases hlayout E with ⟨hsame, -, -⟩ | rfl | rfl
    · exact h.loaders E type' l' f' L (hsame.symm.trans hentry)
    · rw [registeredLayout_entry] at hentry
      cases hentry
      exact htype
    · rw [registeredLayout_libs] at hentry
      cases hentry
  · intro type'
    rw [htable]
    show _ ∈ (Assoc.insert _ _ _).map _ ↔ Registered H (w.trace ++ [.registers l]) type'
    rw [Assoc.mem_map_fst_insert, h.types, registered_concat, htype]
  · intro L type' hlibs p hp
    have hLM : L ≠ M := by
      rintro rfl
      rw [(h.shaped.registered type hl f).table.2] at hlibs
      cases hlibs
    rw [hother L hLM] at hp
    show Loaded H (w.trace ++ [.registers l]) type' p.1 p.2
    rcases Nat.lt_trichotomy L w.heap.size with hlt | rfl | hgt
    · rcases hlayout L with ⟨hsame, -, -⟩ | rfl | rfl
      · rw [get_entryHeap_old hlt] at hp
        exact (h.loaded L type' (hsame.symm.trans hlibs) p hp).mono hadds
      · exact absurd hlt (Nat.lt_irrefl _)
      · exact absurd hlt (Nat.not_lt.mpr (Nat.le_succ _))
    · rw [registeredLayout_entry] at hlibs
      cases hlibs
    · rw [get_entryHeap_new hgt] at hp
      cases hp

end Fine

/-! ## From one world to a later one -/

/-- As long as the events are ordinary, `w'` is fine, with a layout that has grown. -/
def Since (H : Host) (κ : Layout) (M : Ref) (w w' : World) : Prop :=
  Ordinary H w'.trace → ∃ κ', Grows κ w κ' w' ∧ Fine H κ' M w' ∧
    (w'.trace = w.trace ∨ Settled w'.trace)

/-- And its trace does not end with the beginning of a call. -/
def SinceSettled (H : Host) (κ : Layout) (M : Ref) (w w' : World) : Prop :=
  Ordinary H w'.trace → ∃ κ', Grows κ w κ' w' ∧ Fine H κ' M w' ∧ Settled w'.trace

/-- And a call may return the module that was found. -/
def Found (H : Host) (κ : Layout) (M : Ref) (w : World) (v : Value) (w' : World) : Prop :=
  Ordinary H w'.trace → ∃ κ', Grows κ w κ' w' ∧ Fine H κ' M w' ∧ Allows H w'.trace (.returns v)

/-- As long as the events are ordinary, no string is read that was freed. -/
def Reads (H : Host) (e : Fault) (w' : World) : Prop := Ordinary H w'.trace → e ≠ .freedString

/-- And a call may throw what is thrown. -/
def Failed (H : Host) (κ : Layout) (M : Ref) (w : World) (e : Fault) (w' : World) : Prop :=
  Ordinary H w'.trace → e ≠ .freedString ∧ ∃ κ', Grows κ w κ' w' ∧ Fine H κ' M w' ∧
    (Settled w'.trace ∨ ∃ v, e = .thrown v ∧ Allows H w'.trace (.throws v))

theorem Since.refl (h : Fine H κ M w) : Since H κ M w w := fun _ =>
  ⟨κ, Grows.refl κ w, h, .inl rfl⟩

theorem SinceSettled.since (h : SinceSettled H κ M w w') : Since H κ M w w' := fun hord =>
  let ⟨κ', hgrows, hfine, hsettled⟩ := h hord
  ⟨κ', hgrows, hfine, .inr hsettled⟩

theorem SinceSettled.found (h : SinceSettled H κ M w w') (v : Value) : Found H κ M w v w' :=
  fun hord =>
    let ⟨κ', hgrows, hfine, hsettled⟩ := h hord
    ⟨κ', hgrows, hfine, hsettled.allows _⟩

theorem SinceSettled.failed (h : SinceSettled H κ M w w') {e : Fault} (hreads : Reads H e w') :
    Failed H κ M w e w' := fun hord =>
  let ⟨κ', hgrows, hfine, hsettled⟩ := h hord
  ⟨hreads hord, κ', hgrows, hfine, .inl hsettled⟩

/-- A trace that is the same or settled is ready, if it was. -/
theorem ready_of_or (h : w'.trace = w.trace ∨ Settled w'.trace) (hready : Ready H w.trace) :
    Ready H w'.trace := by
  rcases h with heq | hsettled
  · rw [heq]
    exact hready
  · exact hsettled.ready

section Trans

variable {w'' : World}

theorem Since.trans (hgrows : Grows κ w κ' w') (htrace : w'.trace = w.trace ∨ Settled w'.trace)
    (h : Since H κ' M w' w'') : Since H κ M w w'' := fun hord => by
  obtain ⟨κ'', hgrows', hfine, htrace'⟩ := h hord
  refine ⟨κ'', hgrows.trans hgrows', hfine, ?_⟩
  rcases htrace' with heq | hsettled
  · rw [heq]
    exact htrace
  · exact .inr hsettled

theorem SinceSettled.trans (hgrows : Grows κ w κ' w') (h : SinceSettled H κ' M w' w'') :
    SinceSettled H κ M w w'' := fun hord =>
  let ⟨κ'', hgrows', hfine, hsettled⟩ := h hord
  ⟨κ'', hgrows.trans hgrows', hfine, hsettled⟩

theorem Found.trans (hgrows : Grows κ w κ' w') {v : Value} (h : Found H κ' M w' v w'') :
    Found H κ M w v w'' := fun hord =>
  let ⟨κ'', hgrows', hfine, hallows⟩ := h hord
  ⟨κ'', hgrows.trans hgrows', hfine, hallows⟩

end Trans

/-- Nothing is to be shown of an action that starts when the events have not been
ordinary. -/
theorem ends_of_ordinary {α : Type} {x : Action Fault World α} {Q : α → World → Prop}
    {E : Fault → World → Prop} (hx : Appends x)
    (hQ : ∀ a w', ¬ Ordinary H w'.trace → Q a w') (hE : ∀ e w', ¬ Ordinary H w'.trace → E e w')
    (h : Ordinary H w.trace → Ends x w Q E) : Ends x w Q E := by
  by_cases hord : Ordinary H w.trace
  · exact h hord
  · exact (hx.leaves w).mono (fun a w' hpre => hQ a w' fun hord' => hord (hord'.of_prefix hpre))
      fun e w' hpre => hE e w' fun hord' => hord (hord'.of_prefix hpre)

/-- An action that keeps a history fine, wherever it may be called. -/
structure Sound (H : Host) (M : Ref) {α : Type} (x : Action Fault World α) : Prop where
  appends : Appends x
  since : ∀ κ w, Fine H κ M w → Ready H w.trace → Ends x w (fun _ => Since H κ M w)
    fun e w' => Since H κ M w w' ∧ Reads H e w'

section Sound

variable {α β : Type}

theorem Sound.bind {x : Action Fault World α} {f : α → Action Fault World β} (hx : Sound H M x)
    (hf : ∀ a, Sound H M (f a)) : Sound H M (x >>= f) := by
  refine ⟨hx.appends.bind fun a => (hf a).appends, fun κ w hfine hready => ?_⟩
  refine ends_bind (hx.since κ w hfine hready) fun a w' hsince => ?_
  refine ends_of_ordinary (hf a).appends (fun _ _ hno hord => absurd hord hno)
    (fun _ _ hno => ⟨fun hord => absurd hord hno, fun hord => absurd hord hno⟩) fun hord => ?_
  obtain ⟨κ', hgrows, hfine', htrace⟩ := hsince hord
  refine ((hf a).since κ' w' hfine' (ready_of_or htrace hready)).mono ?_ ?_
  · exact fun _ _ h => h.trans hgrows htrace
  · exact fun _ _ h => ⟨h.1.trans hgrows htrace, h.2⟩

end Sound

/-! ## Searching -/

section Search

variable {imp : ModuleImport} {l : Ptr} {L : Ref} {type pkg : Str}

/-- The call that a trace may end with is for the module `pkg`, and for `type` if for
any. -/
def For (pkg type : Str) (trace : List Event) : Prop :=
  ∀ pre p t held, trace = pre ++ [.begins p t held] →
    p = .string pkg ∧ ∀ t', t = .string t' → t' = type

section Beginning

variable {trace pre : List Event} {name key : Str} {typeArg : Value} {held : List Str}

theorem Since.failed (h : Since H κ M w w') (hready : Ready H w.trace) (v : Value) :
    Failed H κ M w (.thrown v) w' := by
  intro hord
  obtain ⟨κ', hgrows, hfine, htrace⟩ := h hord
  exact ⟨by simp, κ', hgrows, hfine, .inr ⟨v, rfl, ready_of_or htrace hready _ (by simp)⟩⟩

end Beginning

end Search

/-! ## Histories -/

end KgCpp.Scripts.Module
