import KgCpp.Scripts.ModuleSpec

/-!
# How a search ends

Rules for the loops of a search, whatever its loaders do: what holds in front of
each call of a loader, by the paths that are left, holds at the end.
-/

namespace KgCpp.Scripts.Module

open Lib

variable {H : Host} {imp : ModuleImport} {l : Ptr} {pkg : Str}

/-- Ask a loader for a module at one path after another. -/
def searchPaths (H : Host) (imp : ModuleImport) (l : Ptr) (libs : Value) (pkg : Str) :
    List Str → Action Fault World (Option Value)
  | [] => pure none
  | path :: paths => do
    let r ← ask imp l pkg path
    if r.2 then
      setProp H.prototype libs pkg r.1
      note (.stores l pkg r.1)
      pure (some r.1)
    else if r.1 ≠ .undefined then pure (some r.1)
    else searchPaths H imp l libs pkg paths

theorem searchEntries_eq (libs : Value) (entries : List Str) :
    searchEntries H imp l libs pkg entries = searchPaths H imp l libs pkg
      (((entries.map trim).filter (· ≠ [])).map fun dir => (H.loader l).modulePath dir pkg) := by
  induction entries with
  | nil => rfl
  | cons entry entries ih =>
    rw [searchEntries, List.map_cons]
    by_cases hempty : trim entry = []
    · rw [if_pos hempty, ih, List.filter_cons_of_neg (by simp [hempty])]
    · rw [if_neg hempty, ih, List.filter_cons_of_pos (by simp [hempty])]
      rfl

/-- A loader is searched along its paths. -/
theorem searchLoader_eq (libs : Value) (w : World) :
    searchLoader H imp l libs pkg w =
      searchPaths H imp l libs pkg (paths (H.loader l) w.env pkg) w := by
  have hgetenv : getenv (H.loader l).moduleEnv w = .ok (w.env (H.loader l).moduleEnv.val) w := rfl
  rw [searchLoader, bind_of_ok hgetenv, paths]
  cases w.env (H.loader l).moduleEnv.val with
  | none => rfl
  | some env => exact congrFun (searchEntries_eq libs _) w

variable {Q : Option Value → World → Prop} {E : Fault → World → Prop}

/-- The loop over the paths: `J` holds in front of each call, and `A` where there is
a module to store. -/
theorem ends_searchPaths {J : List Str → World → Prop} {A : Value → World → Prop} {libs : Value}
    (hask : ∀ path rest w, J (path :: rest) w → Ends (ask imp l pkg path) w
      (fun r w' => if r.2 then A r.1 w' else if r.1 ≠ .undefined then Q (some r.1) w'
        else J rest w') E)
    (hstore : ∀ v w, A v w → Ends (setProp H.prototype libs pkg v) w
      (fun _ w' => Q (some v) { w' with trace := w'.trace ++ [.stores l pkg v] }) E)
    (hnone : ∀ w, J [] w → Q none w) (paths : List Str) {w : World} (hJ : J paths w) :
    Ends (searchPaths H imp l libs pkg paths) w Q E := by
  induction paths generalizing w with
  | nil => exact ends_pure (hnone w hJ)
  | cons path rest ih =>
    refine ends_bind (hask path rest w hJ) fun r w' hr => ?_
    refine ends_ite (fun hok => ?_) fun hok => ?_
    · rw [if_pos hok] at hr
      exact ends_bind (hstore r.1 w' hr) fun _ w'' hQ => ends_bind (ends_modify hQ)
        fun _ _ hQ => ends_pure hQ
    rw [if_neg hok] at hr
    refine ends_ite (fun hne => ?_) fun hne => ?_
    · rw [if_pos hne] at hr
      exact ends_pure hr
    · rw [if_neg hne] at hr
      exact ih hr

/-- Look a module up under one type. -/
def searchKey (H : Host) (imp : ModuleImport) (r : Ref) (pkg key : Str) :
    Action Fault World (Option Value) := do
  match ← getProp H.prototype (.object r) key with
  | none => pure none
  | some entry => searchEntry H imp entry pkg

theorem searchKey_of_get {w : World} {r : Ref} {key : Str} {entry : Value}
    (h : w.get H.prototype r key = some entry) :
    searchKey H imp r pkg key w = searchEntry H imp entry pkg w := by
  rw [searchKey, bind_of_ok (getProp_of_get h)]

theorem searchKeys_cons (r : Ref) (key : Str) (keys : List Str) :
    searchKeys H imp r pkg (key :: keys) = searchKey H imp r pkg key >>= fun found =>
      found.elim (searchKeys H imp r pkg keys) fun v => pure (some v) := by
  rw [searchKeys, searchKey, bind_assoc]
  refine congrArg (getProp H.prototype (.object r) key >>= ·) (funext fun entry => ?_)
  cases entry with
  | none => rfl
  | some entry =>
    refine congrArg (searchEntry H imp entry pkg >>= ·) (funext fun found => ?_)
    cases found <;> rfl

/-- The loop over the types: `J` holds in front of each. -/
theorem ends_searchKeys {J : List Str → World → Prop} {r : Ref}
    (hkey : ∀ key rest w, J (key :: rest) w → Ends (searchKey H imp r pkg key) w
      (fun found w' => found.elim (J rest w') fun v => Q (some v) w') E)
    (hnone : ∀ w, J [] w → Q none w) (keys : List Str) {w : World} (hJ : J keys w) :
    Ends (searchKeys H imp r pkg keys) w Q E := by
  induction keys generalizing w with
  | nil => exact ends_pure (hnone w hJ)
  | cons key rest ih =>
    rw [searchKeys_cons]
    refine ends_bind (hkey key rest w hJ) fun found w' hfound => ?_
    cases found with
    | some v => exact ends_pure hfound
    | none => exact ih hfound

end KgCpp.Scripts.Module
