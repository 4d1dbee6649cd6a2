import Mathlib.Data.List.Basic
import Mathlib.Data.List.ReduceOption
import Mathlib.Tactic
import KgCpp.Lib.Store

/-!
# Shared pointers

Pointers that share the ownership of an object, with a count of the pointers and
a deleter that runs when the count comes down to 0. A `Group` is the control
block that the copies of one pointer have in common; two groups may well point
to the same object, without knowing of each other.

- `Counted`: each count is the number of pointers, and the groups that have
  ended are those without a pointer. Every operation keeps it.
- `ended_iff`: the deleter of a group runs when its last pointer goes, once.
-/

namespace Lib

universe u v

/-- A control block. -/
structure Group (π : Type u) (δ : Type v) : Type (max u v) where
  pointee : π
  deleter : δ
  count : Nat
deriving DecidableEq, Repr

/-- Pointers to groups: `none` is one that has been destroyed. `ended` lists the
groups whose deleter has run, in order. -/
structure Shared (π : Type u) (δ : Type v) : Type (max u v) where
  groups : List (Group π δ)
  handles : List (Option Ref)
  ended : List Ref
deriving DecidableEq, Repr

namespace Shared

variable {π : Type u} {δ : Type v}

/-- No pointer has been made yet. -/
def empty : Shared π δ := ⟨[], [], []⟩

/-- The group the pointer `h` belongs to, when it is alive. -/
def holds (s : Shared π δ) (h : Nat) : Option Ref := s.handles[h]?.join

/-- One more pointer to the group `g`. -/
def acquire (s : Shared π δ) (g : Ref) : Shared π δ :=
  { s with groups := s.groups.modify g fun x => { x with count := x.count + 1 } }

/-- One pointer to the group `g` less; the last one runs the deleter. -/
def release (s : Shared π δ) (g : Ref) : Shared π δ :=
  { s with
    groups := s.groups.modify g fun x => { x with count := x.count - 1 }
    ended := if (s.groups[g]?.any fun x => x.count - 1 = 0) then s.ended ++ [g] else s.ended }

/-- A pointer that is the first of a new group. -/
def make (s : Shared π δ) (pointee : π) (deleter : δ) : Shared π δ :=
  { s with
    groups := s.groups ++ [⟨pointee, deleter, 1⟩]
    handles := s.handles ++ [some s.groups.length] }

/-- A new pointer that is a copy of `h`. -/
def copy (s : Shared π δ) (h : Nat) : Shared π δ :=
  match s.holds h with
  | some g => { s.acquire g with handles := s.handles ++ [some g] }
  | none => s

/-- The pointer `h` becomes a copy of `h'`. -/
def assign (s : Shared π δ) (h h' : Nat) : Shared π δ :=
  match s.holds h, s.holds h' with
  -- the new group is acquired before the old one is released
  | some g, some g' => { (s.acquire g').release g with handles := s.handles.set h (some g') }
  | _, _ => s

/-- The pointer `h` is destroyed. -/
def destroy (s : Shared π δ) (h : Nat) : Shared π δ :=
  match s.holds h with
  | some g => { s.release g with handles := s.handles.set h none }
  | none => s

/-! ## The counts are right -/

/-- The counts of `groups` are right when `refs` lists the group of each pointer
that is alive, and the groups of `ended` are those without one. -/
structure Counted (groups : List (Group π δ)) (ended refs : List Ref) : Prop where
  valid : ∀ g ∈ refs, g < groups.length
  counts : ∀ g x, groups[g]? = some x → x.count = refs.count g
  ended_iff : ∀ g, g ∈ ended ↔ g < groups.length ∧ g ∉ refs
  nodup : ended.Nodup

variable {groups : List (Group π δ)} {ended refs : List Ref}

theorem Counted.perm (h : Counted groups ended refs) {refs' : List Ref} (hp : refs.Perm refs') :
    Counted groups ended refs' where
  valid g hg := h.valid g (hp.mem_iff.mpr hg)
  counts g x hx := by rw [h.counts g x hx, hp.count_eq]
  ended_iff g := by rw [h.ended_iff, hp.mem_iff]
  nodup := h.nodup

theorem counted_empty : Counted (π := π) (δ := δ) [] [] [] where
  valid g hg := by cases hg
  counts g x hx := by cases hx
  ended_iff g := by simp
  nodup := List.nodup_nil

/-- An element of a list with one more is one of the list, or the new one. -/
theorem getElem?_concat_cases {α : Type*} {xs : List α} {x y : α} {i : Nat}
    (h : (xs ++ [x])[i]? = some y) : (i < xs.length ∧ xs[i]? = some y) ∨ i = xs.length ∧ y = x := by
  rcases Nat.lt_trichotomy i xs.length with hlt | rfl | hgt
  · rw [List.getElem?_append_left hlt] at h
    exact .inl ⟨hlt, h⟩
  · rw [List.getElem?_concat_length] at h
    exact .inr ⟨rfl, (Option.some.inj h).symm⟩
  · rw [List.getElem?_eq_none (by rw [List.length_append]; exact hgt)] at h
    cases h

theorem Counted.make (h : Counted groups ended refs) (pointee : π) (deleter : δ) :
    Counted (groups ++ [⟨pointee, deleter, 1⟩]) ended (groups.length :: refs) := by
  have hfresh : groups.length ∉ refs := fun hmem => Nat.lt_irrefl _ (h.valid _ hmem)
  have hlen : (groups ++ [(⟨pointee, deleter, 1⟩ : Group π δ)]).length = groups.length + 1 :=
    List.length_append
  refine ⟨fun g hg => ?_, fun g x hx => ?_, fun g => ?_, h.nodup⟩
  · rw [hlen]
    rcases List.mem_cons.mp hg with rfl | hg
    · exact Nat.lt_succ_self _
    · exact Nat.lt_succ_of_lt (h.valid g hg)
  · rcases getElem?_concat_cases hx with ⟨hlt, hx⟩ | ⟨rfl, rfl⟩
    · rw [h.counts g x hx, List.count_cons_of_ne (Nat.ne_of_gt hlt)]
    · rw [List.count_cons_self, List.count_eq_zero_of_not_mem hfresh]
  · rw [h.ended_iff, hlen, List.mem_cons, not_or]
    constructor
    · rintro ⟨hlt, hno⟩
      exact ⟨Nat.lt_succ_of_lt hlt, Nat.ne_of_lt hlt, hno⟩
    · rintro ⟨hlt, hne, hno⟩
      exact ⟨Nat.lt_of_le_of_ne (Nat.le_of_lt_succ hlt) hne, hno⟩

theorem Counted.acquire (h : Counted groups ended refs) {g : Ref} (hg : g ∈ refs) :
    Counted (groups.modify g fun x => { x with count := x.count + 1 }) ended (g :: refs) := by
  refine ⟨fun k hk => ?_, fun k x hx => ?_, fun k => ?_, h.nodup⟩
  · rw [List.length_modify]
    rcases List.mem_cons.mp hk with rfl | hk
    · exact h.valid k hg
    · exact h.valid k hk
  · rw [List.getElem?_modify] at hx
    obtain ⟨y, hy, rfl⟩ := Option.map_eq_some_iff.mp hx
    have hcount := h.counts k y hy
    by_cases hgk : g = k
    · subst hgk
      rw [if_pos rfl, List.count_cons_self, hcount]
    · rw [if_neg hgk, List.count_cons_of_ne hgk, hcount]
  · rw [h.ended_iff, List.length_modify, List.mem_cons]
    constructor
    · rintro ⟨hlt, hno⟩
      refine ⟨hlt, ?_⟩
      rintro (rfl | hmem)
      · exact hno hg
      · exact hno hmem
    · rintro ⟨hlt, hno⟩
      exact ⟨hlt, fun hmem => hno (.inr hmem)⟩

theorem Counted.release {g : Ref} (h : Counted groups ended (g :: refs)) :
    Counted (groups.modify g fun x => { x with count := x.count - 1 })
      (if (groups[g]?.any fun x => x.count - 1 = 0) then ended ++ [g] else ended) refs := by
  have hlt := h.valid g (List.mem_cons_self ..)
  have hx := List.getElem?_eq_getElem hlt
  have hcount := h.counts g _ hx
  rw [List.count_cons_self] at hcount
  have hno : g ∉ ended := fun hmem => ((h.ended_iff g).mp hmem).2 (List.mem_cons_self ..)
  have hlast : (groups[g]?.any fun x => x.count - 1 = 0) = true ↔ g ∉ refs := by
    rw [hx, Option.any_some, decide_eq_true_eq, hcount, Nat.add_sub_cancel, List.count_eq_zero]
  refine ⟨fun k hk => ?_, fun k x hx => ?_, fun k => ?_, ?_⟩
  · rw [List.length_modify]
    exact h.valid k (List.mem_cons_of_mem _ hk)
  · rw [List.getElem?_modify] at hx
    obtain ⟨y, hy, rfl⟩ := Option.map_eq_some_iff.mp hx
    have hcount := h.counts k y hy
    by_cases hgk : g = k
    · subst hgk
      rw [List.count_cons_self] at hcount
      rw [if_pos rfl, hcount, Nat.add_sub_cancel]
    · rw [List.count_cons_of_ne hgk] at hcount
      rw [if_neg hgk]
      exact hcount
  · have hmem := h.ended_iff k
    rw [List.mem_cons, not_or] at hmem
    rw [List.length_modify]
    by_cases hrefs : g ∈ refs
    · rw [if_neg (fun hc => hlast.mp hc hrefs), hmem]
      constructor
      · rintro ⟨hk, -, hno⟩
        exact ⟨hk, hno⟩
      · rintro ⟨hk, hno⟩
        exact ⟨hk, fun heq => hno (heq ▸ hrefs), hno⟩
    · rw [if_pos (hlast.mpr hrefs), List.mem_append, List.mem_singleton, hmem]
      constructor
      · rintro (⟨hk, -, hno⟩ | rfl)
        · exact ⟨hk, hno⟩
        · exact ⟨hlt, hrefs⟩
      · rintro ⟨hk, hno⟩
        by_cases heq : k = g
        · exact .inr heq
        · exact .inl ⟨hk, heq, hno⟩
  · split
    · exact List.nodup_append.mpr ⟨h.nodup, List.nodup_singleton g, fun a ha b hb hab =>
        hno (List.mem_singleton.mp hb ▸ hab ▸ ha)⟩
    · exact h.nodup

/-- The counts of the groups are right. -/
def Ok (s : Shared π δ) : Prop := Counted s.groups s.ended s.handles.reduceOption

theorem ok_empty : (empty : Shared π δ).Ok := counted_empty

theorem mem_handles {s : Shared π δ} {h : Nat} {g : Ref} (hh : s.holds h = some g) :
    s.handles[h]? = some (some g) := Option.join_eq_some_iff.mp hh

theorem mem_reduceOption {s : Shared π δ} {g : Ref} :
    g ∈ s.handles.reduceOption ↔ ∃ h, s.holds h = some g := by
  rw [List.reduceOption_mem_iff, List.mem_iff_getElem?]
  exact exists_congr fun h => Option.join_eq_some_iff.symm

/-- The pointers besides `h`. -/
theorem reduceOption_set {handles : List (Option Ref)} {h : Nat} {r : Option Ref}
    (hh : handles[h]? = some r) (r' : Option Ref) :
    (handles.set h r').reduceOption.Perm
      (r'.toList ++ (handles.set h none).reduceOption) := by
  induction handles generalizing h with
  | nil => cases hh
  | cons a handles ih =>
    cases h with
    | zero =>
      cases r' with
      | none => exact .refl _
      | some g => exact .refl _
    | succ h =>
      have ih := ih hh
      cases a with
      | none => exact ih
      | some a =>
        rw [List.set_cons_succ, List.set_cons_succ, List.reduceOption_cons_of_some,
          List.reduceOption_cons_of_some]
        exact (ih.cons a).trans List.perm_middle.symm

theorem reduceOption_get {handles : List (Option Ref)} {h : Nat} {g : Ref}
    (hh : handles[h]? = some (some g)) :
    handles.reduceOption.Perm (g :: (handles.set h none).reduceOption) := by
  have hp := reduceOption_set hh (some g)
  obtain ⟨hlt, hget⟩ := List.getElem?_eq_some_iff.mp hh
  rwa [← hget, List.set_getElem_self, hget] at hp

theorem reduceOption_push (handles : List (Option Ref)) (g : Ref) :
    (g :: handles.reduceOption).Perm (handles ++ [some g]).reduceOption := by
  rw [List.reduceOption_append]
  exact (List.perm_append_singleton ..).symm

theorem Ok.make {s : Shared π δ} (h : s.Ok) (pointee : π) (deleter : δ) :
    (s.make pointee deleter).Ok :=
  (Counted.make h pointee deleter).perm (reduceOption_push ..)

theorem Ok.copy {s : Shared π δ} (h : s.Ok) (i : Nat) : (s.copy i).Ok := by
  rw [Shared.copy]
  cases hi : s.holds i with
  | none => exact h
  | some g =>
    exact (Counted.acquire h (mem_reduceOption.mpr ⟨i, hi⟩)).perm (reduceOption_push ..)

theorem Ok.destroy {s : Shared π δ} (h : s.Ok) (i : Nat) : (s.destroy i).Ok := by
  rw [Shared.destroy]
  cases hi : s.holds i with
  | none => exact h
  | some g => exact (Counted.perm h (reduceOption_get (mem_handles hi))).release

theorem Ok.assign {s : Shared π δ} (h : s.Ok) (i j : Nat) : (s.assign i j).Ok := by
  rw [Shared.assign]
  cases hi : s.holds i with
  | none => exact h
  | some g =>
    cases hj : s.holds j with
    | none => exact h
    | some g' =>
      have hacq := Counted.acquire h (mem_reduceOption.mpr ⟨j, hj⟩)
      have hp : (g' :: s.handles.reduceOption).Perm
          (g :: (s.handles.set i (some g')).reduceOption) :=
        ((reduceOption_get (mem_handles hi)).cons g').trans
          ((List.Perm.swap g g' _).trans
            ((reduceOption_set (mem_handles hi) (some g')).symm.cons g))
      exact (hacq.perm hp).release

/-- **The deleter of a group has run when no pointer to it is left.** -/
theorem Ok.ended_iff {s : Shared π δ} (h : s.Ok) (g : Ref) :
    g ∈ s.ended ↔ g < s.groups.length ∧ ∀ i, s.holds i ≠ some g := by
  rw [Counted.ended_iff h, mem_reduceOption, not_exists]

/-! ## What the groups are of -/

/-- What each group points to, and with which deleter. -/
def kinds (s : Shared π δ) : List (π × δ) := s.groups.map fun x => (x.pointee, x.deleter)

theorem map_modify_count (groups : List (Group π δ)) (g : Ref) (f : Nat → Nat) :
    (groups.modify g fun x => { x with count := f x.count }).map
      (fun x => (x.pointee, x.deleter)) = groups.map fun x => (x.pointee, x.deleter) := by
  refine List.ext_getElem? fun k => ?_
  rw [List.getElem?_map, List.getElem?_map, List.getElem?_modify]
  cases groups[k]? with
  | none => rfl
  | some x =>
    show some _ = some _
    split <;> rfl

theorem kinds_acquire (s : Shared π δ) (g : Ref) : (s.acquire g).kinds = s.kinds :=
  map_modify_count s.groups g (· + 1)

theorem kinds_release (s : Shared π δ) (g : Ref) : (s.release g).kinds = s.kinds :=
  map_modify_count s.groups g (· - 1)

@[simp] theorem kinds_make (s : Shared π δ) (pointee : π) (deleter : δ) :
    (s.make pointee deleter).kinds = s.kinds ++ [(pointee, deleter)] := List.map_append

@[simp] theorem kinds_copy (s : Shared π δ) (i : Nat) : (s.copy i).kinds = s.kinds := by
  rw [Shared.copy]
  cases s.holds i with
  | none => rfl
  | some g => exact kinds_acquire s g

@[simp] theorem kinds_destroy (s : Shared π δ) (i : Nat) : (s.destroy i).kinds = s.kinds := by
  rw [Shared.destroy]
  cases s.holds i with
  | none => rfl
  | some g => exact kinds_release s g

@[simp] theorem kinds_assign (s : Shared π δ) (i j : Nat) : (s.assign i j).kinds = s.kinds := by
  rw [Shared.assign]
  cases s.holds i with
  | none => rfl
  | some g =>
    cases s.holds j with
    | none => rfl
    | some g' => exact (kinds_release _ g).trans (kinds_acquire s g')

end Shared

end Lib
