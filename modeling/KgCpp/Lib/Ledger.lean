import KgCpp.Lib.Action
import Mathlib.Data.List.ReduceOption
import Mathlib.Data.Multiset.AddSub

/-!
# Pointers that are owned

A function in the style of C acquires pointers, works with them, and gives each of
them back on every way out. `Owned π σ` is a state with a ledger of the pointers
that are out: giving back or using one that is not out, or using `NULL`, is a
misuse, which stays on record. A pointer is a number that no pointer before has had,
and what else `π` says of it: of which kind it is.

`Held r m hs s` is what such a function knows of its state in the middle: it is
`r`, and of the pointers that are out those in `hs` are its own. The rules follow
the statements of the function, so a proof is a walk along it that says at each
way out what is still held.
-/

namespace Lib

universe u

/-- A pointer; `none` is `NULL`. -/
abbrev Handle (π : Type u) := Option π

/-- A state, the number of the next pointer, the pointers that are out, and whether
one was misused. -/
structure Owned (π σ : Type u) : Type u where
  state : σ
  next : Nat
  live : Multiset π
  misused : Bool

namespace Owned

variable {π σ ε α : Type}

/-- Acquire a pointer, of the kind that `kind` says: `NULL` when that fails. -/
def acquire (kind : Nat → π) (failed : Bool) : Action ε (Owned π σ) (Handle π) := fun s =>
  if failed then .ok none s
  else .ok (some (kind s.next)) { s with next := s.next + 1, live := kind s.next ::ₘ s.live }

variable [DecidableEq π]

/-- Give a pointer back; `NULL` is left alone. -/
def release (p : Handle π) : Action ε (Owned π σ) Unit :=
  modify fun s =>
    match p with
    | none => s
    | some h => if h ∈ s.live then { s with live := s.live.erase h } else { s with misused := true }

/-- Give pointers back, in order. -/
def releaseAll : List (Handle π) → Action ε (Owned π σ) Unit
  | [] => pure ()
  | p :: ps => do
    release p
    releaseAll ps

/-- Call a function of what a pointer points to. -/
def use (p : Handle π) : Action ε (Owned π σ) Unit :=
  modify fun s =>
    match p with
    | none => { s with misused := true }
    | some h => if h ∈ s.live then s else { s with misused := true }

/-- Something failed: give pointers back and throw. -/
def failIf (failed : Bool) (e : ε) (ps : List (Handle π)) : Action ε (Owned π σ) Unit :=
  if failed then do
    releaseAll ps
    throw e
  else pure ()

/-- Acquire a pointer, or give pointers back and throw. -/
def acquireOr (kind : Nat → π) (failed : Bool) (e : ε) (ps : List (Handle π)) :
    Action ε (Owned π σ) (Handle π) := do
  let p ← acquire kind failed
  failIf failed e ps
  pure p

/-- The state. -/
def look : Action ε (Owned π σ) σ := do
  let s ← get
  pure s.state

/-- Change the state. -/
def change (f : σ → σ) : Action ε (Owned π σ) Unit :=
  modify fun s => { s with state := f s.state }

/-- The state is `r`, and the pointers in `hs` are out besides those in `m`. -/
structure Held (r : σ) (m : Multiset π) (hs : List (Handle π)) (s : Owned π σ) : Prop where
  state : s.state = r
  live : s.live = (hs.reduceOption : Multiset π) + m
  fair : s.misused = false

section Rules

variable {r : σ} {m : Multiset π} {hs ps qs : List (Handle π)} {s : Owned π σ}
  {Q : α → Owned π σ → Prop} {E : ε → Owned π σ → Prop}

omit [DecidableEq π] in
theorem Held.perm (h : Held r m hs s) (hperm : hs.Perm ps) : Held r m ps s where
  state := h.state
  live := by
    rw [h.live, show (hs.reduceOption : Multiset π) = ps.reduceOption from
      Multiset.coe_eq_coe.mpr (hperm.filterMap id)]
  fair := h.fair

omit [DecidableEq π] in
/-- A pointer that is held is out. -/
theorem Held.mem {p : π} (h : Held r m hs s) (hp : some p ∈ hs ∨ p ∈ m) : p ∈ s.live := by
  rw [h.live, Multiset.mem_add, Multiset.mem_coe, List.reduceOption_mem_iff]
  exact hp

theorem ends_release {p : Handle π} (h : Held r m (p :: hs) s) :
    Ends (release p) s (fun _ s' => Held r m hs s') E := by
  refine ends_modify ?_
  cases p with
  | none => exact ⟨h.state, h.live, h.fair⟩
  | some p =>
    dsimp only
    rw [if_pos (h.mem (.inl (List.mem_cons_self ..)))]
    refine ⟨h.state, ?_, h.fair⟩
    show s.live.erase p = _
    rw [h.live, List.reduceOption_cons_of_some, ← Multiset.cons_coe, Multiset.cons_add,
      Multiset.erase_cons_head]

/-- Giving back some of what is held, in any order. -/
theorem ends_releaseAll (h : Held r m hs s) (hperm : hs.Perm (ps ++ qs)) :
    Ends (releaseAll ps) s (fun _ s' => Held r m qs s') E := by
  replace h := h.perm hperm
  clear hperm
  induction ps generalizing s with
  | nil => exact ends_pure h
  | cons p ps ih => exact ends_bind (ends_release h) fun _ _ h' => ih h'

theorem ends_releaseAll_bind {f : Unit → Action ε (Owned π σ) α} (h : Held r m hs s)
    (hperm : hs.Perm (ps ++ qs)) (hf : ∀ s', Held r m qs s' → Ends (f ⟨⟩) s' Q E) :
    Ends (releaseAll ps >>= f) s Q E :=
  ends_bind (ends_releaseAll h hperm) fun _ s' h' => hf s' h'

/-- Giving back all that is held, in any order. -/
theorem ends_clear (h : Held r m hs s) (hperm : hs.Perm ps) :
    Ends (releaseAll ps) s (fun _ s' => Held r m [] s') E :=
  ends_releaseAll h (by rw [List.append_nil]; exact hperm)

theorem ends_clear_bind {f : Unit → Action ε (Owned π σ) α} (h : Held r m hs s)
    (hperm : hs.Perm ps) (hf : ∀ s', Held r m [] s' → Ends (f ⟨⟩) s' Q E) :
    Ends (releaseAll ps >>= f) s Q E :=
  ends_bind (ends_clear h hperm) fun _ s' h' => hf s' h'

omit [DecidableEq π] in
theorem ends_acquire_bind {kind : Nat → π} {failed : Bool} {f : Handle π → Action ε (Owned π σ) α}
    (h : Held r m hs s)
    (hf : ∀ n p s', p = (if failed then none else some (kind n)) → Held r m (p :: hs) s' →
      Ends (f p) s' Q E) :
    Ends (acquire kind failed >>= f) s Q E := by
  cases failed with
  | true => exact ends_bind_of_ok rfl (hf 0 none s rfl ⟨h.state, h.live, h.fair⟩)
  | false =>
    refine ends_bind_of_ok rfl (hf s.next (some (kind s.next)) _ rfl ⟨h.state, ?_, h.fair⟩)
    show kind s.next ::ₘ s.live = _
    rw [h.live, List.reduceOption_cons_of_some, ← Multiset.cons_coe, Multiset.cons_add]

/-- A way out: what is held is given back, but for `qs`. -/
theorem ends_failIf_losing_bind {failed : Bool} {e : ε} {f : Unit → Action ε (Owned π σ) α}
    (h : Held r m hs s) (hperm : hs.Perm (ps ++ qs))
    (hE : ∀ s', failed = true → Held r m qs s' → E e s')
    (hf : failed = false → Ends (f ⟨⟩) s Q E) :
    Ends (failIf failed e ps >>= f) s Q E := by
  cases failed with
  | true =>
    refine ends_bind (P := fun _ _ => False) ?_ fun _ _ h => h.elim
    exact ends_releaseAll_bind h hperm fun s' hs' => ends_throw (hE s' rfl hs')
  | false => exact ends_bind_of_ok rfl (hf rfl)

/-- A way out: all that is held is given back. -/
theorem ends_failIf_bind {failed : Bool} {e : ε} {f : Unit → Action ε (Owned π σ) α}
    (h : Held r m hs s) (hperm : hs.Perm ps) (hE : ∀ s', failed = true → Held r m [] s' → E e s')
    (hf : failed = false → Ends (f ⟨⟩) s Q E) :
    Ends (failIf failed e ps >>= f) s Q E :=
  ends_failIf_losing_bind h (by rw [List.append_nil]; exact hperm) hE hf

theorem ends_acquireOr_bind {kind : Nat → π} {failed : Bool} {e : ε}
    {f : Handle π → Action ε (Owned π σ) α} (h : Held r m hs s) (hperm : hs.Perm ps)
    (hE : ∀ s', Held r m [] s' → E e s')
    (hf : ∀ n s', Held r m (some (kind n) :: hs) s' → Ends (f (some (kind n))) s' Q E) :
    Ends (acquireOr kind failed e ps >>= f) s Q E := by
  rw [acquireOr, bind_assoc]
  refine ends_acquire_bind h fun n p s' hp h' => ?_
  rw [bind_assoc]
  cases failed with
  | true =>
    -- `NULL` is not held
    subst hp
    have hs' : Held r m hs s' := ⟨h'.state, h'.live, h'.fair⟩
    exact ends_failIf_bind hs' hperm (fun t _ ht => hE t ht) fun hok => by cases hok
  | false =>
    subst hp
    exact ends_bind_of_ok rfl (ends_bind_of_ok rfl (hf n s' h'))

/-- A pointer that is held is used. -/
theorem ends_use_bind {p : π} {f : Unit → Action ε (Owned π σ) α} (h : Held r m hs s)
    (hp : some p ∈ hs ∨ p ∈ m) (hf : Ends (f ⟨⟩) s Q E) :
    Ends (use (some p) >>= f) s Q E := by
  have huse : (use (some p) : Action ε (Owned π σ) Unit) s = .ok ⟨⟩ s := by
    show EStateM.Result.ok () (if p ∈ s.live then s else { s with misused := true }) = _
    rw [if_pos (h.mem hp)]
  exact ends_bind_of_ok huse hf

omit [DecidableEq π] in
theorem ends_look_bind {f : σ → Action ε (Owned π σ) α} (h : Held r m hs s)
    (hf : Ends (f r) s Q E) : Ends (look >>= f) s Q E := by
  have hlook : (look : Action ε (Owned π σ) σ) s = .ok s.state s := rfl
  refine ends_bind_of_ok hlook ?_
  rw [h.state]
  exact hf

omit [DecidableEq π] in
theorem ends_change_bind {g : σ → σ} {f : Unit → Action ε (Owned π σ) α} (h : Held r m hs s)
    (hf : ∀ s', Held (g r) m hs s' → Ends (f ⟨⟩) s' Q E) : Ends (change g >>= f) s Q E :=
  ends_bind_of_ok rfl (hf _ ⟨congrArg g h.state, h.live, h.fair⟩)

end Rules

/-! ## The ledger put aside -/

section Follows

variable {τ ε' β : Type} {view : σ → τ} {err : ε' → ε}

/-- Without the ledger, `x` is `y`: it returns what `y` returns, throws what `y`
throws, and does to what `view` shows of the state what `y` does to it. -/
def Follows (view : σ → τ) (err : ε' → ε) (x : Action ε (Owned π σ) α) (y : Action ε' τ α) :
    Prop :=
  ∀ s t, view s.state = t →
    match y t with
    | .ok a t' => ∃ s', x s = .ok a s' ∧ view s'.state = t'
    | .error e t' => ∃ s', x s = .error (err e) s' ∧ view s'.state = t'

omit [DecidableEq π] in
theorem follows_pure (a : α) :
    Follows view err (pure a : Action ε (Owned π σ) α) (pure a) := fun s _ h => ⟨s, rfl, h⟩

omit [DecidableEq π] in
theorem follows_bind {x : Action ε (Owned π σ) α} {y : Action ε' τ α}
    {f : α → Action ε (Owned π σ) β} {g : α → Action ε' τ β} (hx : Follows view err x y)
    (hf : ∀ a, Follows view err (f a) (g a)) : Follows view err (x >>= f) (y >>= g) := by
  intro s t ht
  have hs := hx s t ht
  cases hy : y t with
  | ok a t' =>
    rw [hy] at hs
    obtain ⟨s', hs', hview⟩ := hs
    rw [bind_of_ok hy, bind_of_ok hs']
    exact hf a s' t' hview
  | error e t' =>
    rw [hy] at hs
    obtain ⟨s', hs', hview⟩ := hs
    rw [bind_of_error hy]
    exact ⟨s', bind_of_error hs' f, hview⟩

/-- An action of the ledger alone. -/
def Quiet (x : Action ε (Owned π σ) α) : Prop := ∀ s, ∃ a s', x s = .ok a s' ∧ s'.state = s.state

omit [DecidableEq π] in
theorem follows_quiet_bind {x : Action ε (Owned π σ) α} {f : α → Action ε (Owned π σ) β}
    {y : Action ε' τ β} (hx : Quiet x) (hf : ∀ a, Follows view err (f a) y) :
    Follows view err (x >>= f) y := by
  intro s t ht
  obtain ⟨a, s', hs', hstate⟩ := hx s
  rw [bind_of_ok hs']
  exact hf a s' t (by rw [hstate, ht])

omit [DecidableEq π] in
theorem quiet_acquire (kind : Nat → π) (failed : Bool) :
    Quiet (acquire kind failed : Action ε (Owned π σ) (Handle π)) := by
  intro s
  cases failed with
  | true => exact ⟨none, s, rfl, rfl⟩
  | false => exact ⟨some (kind s.next), _, rfl, rfl⟩

theorem quiet_use (p : Handle π) : Quiet (use p : Action ε (Owned π σ) Unit) := by
  intro s
  refine ⟨⟨⟩, _, rfl, ?_⟩
  cases p with
  | none => rfl
  | some p =>
    show Owned.state (if p ∈ s.live then s else { s with misused := true }) = s.state
    split <;> rfl

theorem quiet_release (p : Handle π) : Quiet (release p : Action ε (Owned π σ) Unit) := by
  intro s
  refine ⟨⟨⟩, _, rfl, ?_⟩
  cases p with
  | none => rfl
  | some p =>
    show Owned.state (if p ∈ s.live then { s with live := s.live.erase p }
      else { s with misused := true }) = s.state
    split <;> rfl

theorem quiet_releaseAll (ps : List (Handle π)) :
    Quiet (releaseAll ps : Action ε (Owned π σ) Unit) := by
  induction ps with
  | nil => exact fun s => ⟨⟨⟩, s, rfl, rfl⟩
  | cons p ps ih =>
    intro s
    obtain ⟨_, s₁, h₁, hstate₁⟩ := quiet_release p s
    obtain ⟨a, s₂, h₂, hstate₂⟩ := ih s₁
    exact ⟨a, s₂, (bind_of_ok h₁ _).trans h₂, hstate₂.trans hstate₁⟩

/-- A check gives back what is held; without the ledger it only throws. -/
theorem follows_failIf (failed : Bool) (e : ε') (ps : List (Handle π)) :
    Follows view err (failIf failed (err e) ps) (if failed then throw e else pure ()) := by
  cases failed with
  | true =>
    exact follows_quiet_bind (quiet_releaseAll ps) fun _ s _ h => ⟨s, rfl, h⟩
  | false => exact follows_pure _

theorem follows_acquireOr_bind {kind : Nat → π} {failed : Bool} (e : ε') {ps : List (Handle π)}
    {f : Handle π → Action ε (Owned π σ) β} {g : Unit → Action ε' τ β}
    (hf : ∀ p, Follows view err (f p) (g ⟨⟩)) :
    Follows view err (acquireOr kind failed (err e) ps >>= f)
      ((if failed then throw e else pure ()) >>= g) := by
  rw [acquireOr, bind_assoc]
  refine follows_quiet_bind (quiet_acquire kind failed) fun p => ?_
  rw [bind_assoc]
  exact follows_bind (follows_failIf failed e ps) fun _ => hf p

omit [DecidableEq π] in
theorem follows_change {g : σ → σ} {g' : τ → τ} (h : ∀ r, view (g r) = g' (view r)) :
    Follows view err (change g : Action ε (Owned π σ) Unit) (modify g') := by
  rintro s t rfl
  exact ⟨_, rfl, h _⟩

omit [DecidableEq π] in
theorem follows_look_bind {f : σ → Action ε (Owned π σ) β} {g : τ → Action ε' τ β}
    (hf : ∀ r, Follows view err (f r) (g (view r))) :
    Follows view err (look >>= f) (get >>= g) := by
  rintro s t rfl
  have hlook : (look : Action ε (Owned π σ) σ) s = .ok s.state s := rfl
  have hget : (get : Action ε' τ τ) (view s.state) = .ok (view s.state) (view s.state) := rfl
  rw [bind_of_ok hlook, bind_of_ok hget]
  exact hf s.state s _ rfl

end Follows

end Owned

end Lib
