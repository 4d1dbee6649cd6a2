import Mathlib.Data.Finset.Card
import Mathlib.Logic.Relation

/-!
# Ranks in a finite graph without cycles

In a finite set that is closed under a relation and has no cycle, an element is
ranked by the number of elements it leads to: the rank falls along the relation,
and is less than the number of elements.
-/

namespace Lib

universe u

open Classical in
/-- The number of elements of `S` that `a` leads to. -/
noncomputable def rank {α : Type u} (R : α → α → Prop) (S : Finset α) (a : α) : Nat :=
  (S.filter fun b => Relation.TransGen R a b).card

section Rank

variable {α : Type u} {R : α → α → Prop} {S : Finset α} {a b : α}

/-- The rank falls along the relation. -/
theorem rank_lt (hacyclic : ∀ c ∈ S, ¬ Relation.TransGen R c c) (hb : b ∈ S) (h : R a b) :
    rank R S b < rank R S a := by
  classical
  refine Finset.card_lt_card (Finset.ssubset_iff_subset_ne.mpr ⟨fun c hc => ?_, fun heq => ?_⟩)
  · obtain ⟨hS, hbc⟩ := Finset.mem_filter.mp hc
    exact Finset.mem_filter.mpr ⟨hS, .head h hbc⟩
  · have hmem : b ∈ S.filter fun c => Relation.TransGen R a c :=
      Finset.mem_filter.mpr ⟨hb, .single h⟩
    rw [← heq] at hmem
    exact hacyclic b hb (Finset.mem_filter.mp hmem).2

theorem rank_lt_card (hacyclic : ∀ c ∈ S, ¬ Relation.TransGen R c c) (ha : a ∈ S) :
    rank R S a < S.card := by
  classical
  refine Finset.card_lt_card (Finset.ssubset_iff_subset_ne.mpr ⟨Finset.filter_subset .., ?_⟩)
  intro heq
  rw [← heq] at ha
  exact hacyclic a (Finset.mem_filter.mp ha).1 (Finset.mem_filter.mp ha).2

end Rank

end Lib
