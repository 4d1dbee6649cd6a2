import Mathlib.Data.List.Basic
import Mathlib.Tactic

/-!
# Tables in order of insertion

A list of keys and values as a table: `find?` looks a key up, `insert` replaces
the value of a key where it stands or appends it, and `erase` takes a key out.
-/

namespace Lib

universe u v w

namespace Assoc

variable {κ : Type u} {α : Type v} {β : Type w} [DecidableEq κ]

/-- The value of a key. -/
def find? : List (κ × α) → κ → Option α
  | [], _ => none
  | p :: ps, k => if p.1 = k then some p.2 else find? ps k

/-- Give a key a value. -/
def insert : List (κ × α) → κ → α → List (κ × α)
  | [], k, a => [(k, a)]
  | p :: ps, k, a => if p.1 = k then (k, a) :: ps else p :: insert ps k a

/-- Take a key out. -/
def erase (ps : List (κ × α)) (k : κ) : List (κ × α) := ps.filter fun p => p.1 ≠ k

variable {ps : List (κ × α)} {k k' : κ} {a : α}

@[simp] theorem find?_nil : find? ([] : List (κ × α)) k = none := rfl

theorem find?_cons (p : κ × α) :
    find? (p :: ps) k = if p.1 = k then some p.2 else find? ps k := rfl

theorem find?_cons_ne (h : k' ≠ k) : find? ((k', a) :: ps) k = find? ps k := if_neg h

theorem mem_of_find? (h : find? ps k = some a) : (k, a) ∈ ps := by
  induction ps with
  | nil => cases h
  | cons p ps ih =>
    rw [find?_cons] at h
    split at h
    · rename_i hk
      cases h
      rw [← hk]
      exact List.mem_cons_self ..
    · exact List.mem_cons_of_mem _ (ih h)

theorem find?_eq_none_iff : find? ps k = none ↔ k ∉ ps.map Prod.fst := by
  induction ps with
  | nil => simp
  | cons p ps ih =>
    rw [find?_cons, List.map_cons, List.mem_cons, not_or]
    split
    · rename_i hk
      simp [hk]
    · rename_i hk
      rw [ih]
      exact ⟨fun h => ⟨Ne.symm hk, h⟩, fun h => h.2⟩

theorem find?_of_mem (hnd : (ps.map Prod.fst).Nodup) (h : (k, a) ∈ ps) :
    find? ps k = some a := by
  induction ps with
  | nil => cases h
  | cons p ps ih =>
    rw [List.map_cons, List.nodup_cons] at hnd
    rw [find?_cons]
    rcases List.mem_cons.mp h with rfl | h
    · exact if_pos rfl
    · rw [if_neg]
      · exact ih hnd.2 h
      · intro hk
        exact hnd.1 (hk ▸ List.mem_map_of_mem h)

@[simp] theorem find?_insert_self (ps : List (κ × α)) (k : κ) (a : α) :
    find? (insert ps k a) k = some a := by
  induction ps with
  | nil => exact if_pos rfl
  | cons p ps ih =>
    rw [insert]
    split
    · exact if_pos rfl
    · rename_i hk
      rw [find?_cons, if_neg hk, ih]

theorem find?_insert_ne (ps : List (κ × α)) (h : k' ≠ k) (a : α) :
    find? (insert ps k a) k' = find? ps k' := by
  induction ps with
  | nil => exact if_neg (Ne.symm h)
  | cons p ps ih =>
    rw [insert]
    split
    · rename_i hk
      rw [find?_cons, find?_cons, if_neg (Ne.symm h), if_neg (hk ▸ Ne.symm h)]
    · rw [find?_cons, find?_cons, ih]

@[simp] theorem find?_erase_self (ps : List (κ × α)) (k : κ) : find? (erase ps k) k = none :=
  find?_eq_none_iff.mpr fun hk => by
    obtain ⟨p, hp, hpk⟩ := List.mem_map.mp hk
    exact of_decide_eq_true (List.mem_filter.mp hp).2 hpk

/-- A key keeps its value. -/
theorem insert_of_find? (h : find? ps k = some a) : insert ps k a = ps := by
  induction ps with
  | nil => cases h
  | cons p ps ih =>
    rw [find?_cons] at h
    rw [insert]
    split at h
    · rename_i hk
      cases h
      rw [if_pos hk, ← hk]
    · rename_i hk
      rw [if_neg hk, ih h]

/-- The values may be mapped. -/
theorem find?_map (f : α → β) (ps : List (κ × α)) (k : κ) :
    find? (ps.map fun p => (p.1, f p.2)) k = (find? ps k).map f := by
  induction ps with
  | nil => rfl
  | cons p ps ih =>
    rw [List.map_cons, find?_cons, find?_cons]
    split
    · rfl
    · exact ih

theorem map_insert (f : α → β) (ps : List (κ × α)) (k : κ) (a : α) :
    ((insert ps k a).map fun p => (p.1, f p.2)) =
      insert (ps.map fun p => (p.1, f p.2)) k (f a) := by
  induction ps with
  | nil => rfl
  | cons p ps ih =>
    rw [insert, List.map_cons, insert]
    split
    · rfl
    · rw [List.map_cons, ih]

/-- Two ways to map the values that differ at one key. -/
theorem map_eq_insert {f g : α → β} (hnd : (ps.map Prod.fst).Nodup) (hk : (k, a) ∈ ps)
    (h : ∀ p ∈ ps, p.1 ≠ k → f p.2 = g p.2) :
    (ps.map fun p => (p.1, f p.2)) = insert (ps.map fun p => (p.1, g p.2)) k (f a) := by
  induction ps with
  | nil => cases hk
  | cons p ps ih =>
    rw [List.map_cons, List.nodup_cons] at hnd
    rw [List.map_cons, List.map_cons, insert]
    by_cases heq : p.1 = k
    · have hp : p = (k, a) := by
        rcases List.mem_cons.mp hk with hp | hmem
        · exact hp.symm
        · exact absurd (heq ▸ List.mem_map_of_mem hmem) hnd.1
      have hrest : ps.map (fun p => (p.1, f p.2)) = ps.map fun p => (p.1, g p.2) := by
        refine List.map_congr_left fun q hq => ?_
        rw [h q (List.mem_cons_of_mem _ hq) fun hqk => hnd.1 ?_]
        rw [heq, ← hqk]
        exact List.mem_map_of_mem hq
      rw [if_pos heq, hrest, hp]
    · have hmem : (k, a) ∈ ps := by
        rcases List.mem_cons.mp hk with hp | hmem
        · exact absurd (by rw [← hp]) heq
        · exact hmem
      rw [if_neg heq, h p (List.mem_cons_self ..) heq,
        ih hnd.2 hmem fun q hq => h q (List.mem_cons_of_mem _ hq)]

/-- A pair of the table after an insertion. -/
theorem mem_insert {p : κ × α} (h : p ∈ insert ps k a) : p = (k, a) ∨ p ∈ ps := by
  induction ps with
  | nil => exact .inl (List.mem_singleton.mp h)
  | cons q ps ih =>
    rw [insert] at h
    split at h
    · rcases List.mem_cons.mp h with h | h
      · exact .inl h
      · exact .inr (List.mem_cons_of_mem _ h)
    · rcases List.mem_cons.mp h with h | h
      · exact .inr (h ▸ List.mem_cons_self ..)
      · exact (ih h).imp_right (List.mem_cons_of_mem _)

/-- The keys of the table after an insertion. -/
theorem map_fst_insert (ps : List (κ × α)) (k : κ) (a : α) :
    (insert ps k a).map Prod.fst =
      if k ∈ ps.map Prod.fst then ps.map Prod.fst else ps.map Prod.fst ++ [k] := by
  induction ps with
  | nil => rfl
  | cons p ps ih =>
    rw [insert]
    by_cases hk : p.1 = k
    · rw [if_pos hk, List.map_cons, List.map_cons, if_pos (hk ▸ List.mem_cons_self ..), hk]
    · rw [if_neg hk, List.map_cons, List.map_cons, ih]
      have hmem : k ∈ p.1 :: ps.map Prod.fst ↔ k ∈ ps.map Prod.fst := by
        rw [List.mem_cons]
        exact ⟨fun h => h.resolve_left (Ne.symm hk), .inr⟩
      by_cases hin : k ∈ ps.map Prod.fst
      · rw [if_pos hin, if_pos (hmem.mpr hin)]
      · rw [if_neg hin, if_neg (fun h => hin (hmem.mp h)), List.cons_append]

theorem mem_map_fst_insert (ps : List (κ × α)) (k : κ) (a : α) {k' : κ} :
    k' ∈ (insert ps k a).map Prod.fst ↔ k' = k ∨ k' ∈ ps.map Prod.fst := by
  rw [map_fst_insert]
  split
  · rename_i hin
    exact ⟨.inr, fun h => h.elim (fun heq => heq ▸ hin) id⟩
  · rw [List.mem_append, List.mem_singleton, or_comm]

theorem nodup_insert (h : (ps.map Prod.fst).Nodup) (k : κ) (a : α) :
    ((insert ps k a).map Prod.fst).Nodup := by
  rw [map_fst_insert]
  split
  · exact h
  · rename_i hk
    exact List.nodup_append.mpr ⟨h, List.nodup_singleton k, fun x hx y hy hxy =>
      hk (List.mem_singleton.mp hy ▸ hxy ▸ hx)⟩

/-- What the pairs yield after an insertion, together with what the value before
yielded. -/
theorem perm_flatMap_insert (g : κ × α → List β) (ps : List (κ × α)) (k : κ) (a : α) :
    ((find? ps k).elim [] (fun b => g (k, b)) ++ (insert ps k a).flatMap g).Perm
      (ps.flatMap g ++ g (k, a)) := by
  induction ps with
  | nil => exact .of_eq (List.append_nil _)
  | cons p ps ih =>
    rw [find?_cons, insert, List.flatMap_cons, List.append_assoc]
    split
    · rename_i hk
      subst hk
      rw [List.flatMap_cons]
      exact List.perm_append_comm.append_left (g p)
    · rw [List.flatMap_cons]
      refine .trans ?_ (ih.append_left (g p))
      rw [← List.append_assoc, ← List.append_assoc]
      exact List.perm_append_comm.append_right _

end Assoc

end Lib
