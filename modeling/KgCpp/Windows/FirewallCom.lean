import KgCpp.Lib.Ledger
import KgCpp.Lib.Run
import KgCpp.Windows.Firewall

/-!
# `firewall_t` and its COM pointers (`windows/firewall.hpp`)

The whole class: the profile the constructor gets and the destructor releases, the
switch of the firewall, the rules for programs, the open ports. Every interface
pointer and every `BSTR` is acquired and given back where the source does, so that
what a function leaves behind on each way out can be seen.

The collection of authorized programs is a table from file name to whether the
entry is enabled, as the open ports are (`Windows/Firewall.lean`); how Windows
compares file names is a parameter. Any COM call may fail, `Item` also for an entry
that is there: the code takes it for an entry that is not.
-/

namespace KgCpp.Windows.Com

open Lib Owned
open Firewall (Protocol OpenPort OpenPorts NewPort StatusFaults ComFaults sysAllocString)

/-- The errors of `firewall_category`. -/
inductive ComError where
  | coCreateInstance
  | getLocalPolicy
  | getCurrentProfile
  | getFirewallEnabled
  | putFirewallEnabled
  | getAuthorizedApplications
  | sysAllocString
  | getEnabled
  | putEnabled
  | putProcessImageFileName
  | putName
  | addRule
  | removeRule
  | getGloballyOpenPorts
  | putPort
  | putProtocol
deriving DecidableEq

/-- The values of the `KG_WINDOWS_FIREWALL_CATEGORY_` constants. -/
def ComError.code : ComError → Nat
  | .coCreateInstance => 1
  | .getLocalPolicy => 2
  | .getCurrentProfile => 3
  | .getFirewallEnabled => 4
  | .putFirewallEnabled => 5
  | .getAuthorizedApplications => 6
  | .sysAllocString => 7
  | .getEnabled => 8
  | .putEnabled => 9
  | .putProcessImageFileName => 10
  | .putName => 11
  | .addRule => 12
  | .removeRule => 13
  | .getGloballyOpenPorts => 14
  | .putPort => 15
  | .putProtocol => 16

/-- An `INetFwAuthorizedApplication`. -/
structure AuthorizedApp where
  processImageFileName : List UInt16
  name : List UInt16
  enabled : Bool

/-- What `CoCreateInstance` makes: a new `NetFwAuthorizedApplication` is enabled. -/
abbrev NewApp := { a : AuthorizedApp // a.enabled = true }

/-- What Windows keeps: whether the firewall is on, the entries for programs by
their names, and those for ports. -/
structure Rules (κ : Type) where
  enabled : Bool
  apps : κ → Option Bool
  ports : OpenPorts

/-- A pointer to an interface, which `Release` gives back, or a `BSTR`, which
`SysFreeString` does. -/
inductive Pointer where
  | interface (n : Nat)
  | bstr (n : Nat)
deriving DecidableEq

/-- A function of `firewall_t`. -/
abbrev ComAction (κ α : Type) := Action ComError (Owned Pointer (Rules κ)) α

/-- The calls of the constructor that fail. -/
structure ConstructFaults where
  coCreateInstance : Bool
  getLocalPolicy : Bool
  getCurrentProfile : Bool

/-- The calls of `turn_on` and `turn_off` that fail. -/
structure SwitchFaults where
  getFirewallEnabled : Bool
  putFirewallEnabled : Bool

/-- The calls of `app_status` that fail; `item` is that of `Item`, for an entry that is
there. -/
structure AppStatusFaults where
  getAuthorizedApplications : Bool
  sysAllocString : Bool
  item : Bool
  getEnabled : Bool

/-- The calls of `app_allow` and `app_disable` that fail; `imageString` and
`nameString` are those of `SysAllocString`. -/
structure AppFaults where
  status : AppStatusFaults
  getAuthorizedApplications : Bool
  coCreateInstance : Bool
  imageString : Bool
  putProcessImageFileName : Bool
  nameString : Bool
  putName : Bool
  putEnabled : Bool
  addRule : Bool

/-- The calls of `app_remove` that fail. -/
structure RemoveFaults where
  getAuthorizedApplications : Bool
  sysAllocString : Bool
  remove : Bool

section Functions

variable {κ : Type}

/-- `firewall_t()`: the profile. A pointer that could not be had is `NULL`, and not
among those given back. -/
def construct (faults : ConstructFaults) : ComAction κ (Handle Pointer) := do
  let fwMgr ← acquireOr .interface faults.coCreateInstance .coCreateInstance []
  use fwMgr
  let fwPolicy ← acquireOr .interface faults.getLocalPolicy .getLocalPolicy [fwMgr]
  use fwPolicy
  let profile ← acquireOr .interface faults.getCurrentProfile .getCurrentProfile [fwMgr, fwPolicy]
  releaseAll [fwMgr, fwPolicy]
  pure profile

/-- `~firewall_t()`. -/
def destroy (profile : Handle Pointer) : ComAction κ Unit := releaseAll [profile]

variable (profile : Handle Pointer)

/-- `is_on`. -/
def isOn (failed : Bool) : ComAction κ Bool := do
  use profile
  failIf failed .getFirewallEnabled []
  let r ← look
  pure r.enabled

/-- `put_FirewallEnabled`, and the check of what it returns. -/
def putFirewallEnabled (failed enabled : Bool) : ComAction κ Unit := do
  use profile
  failIf failed .putFirewallEnabled []
  change fun r => { r with enabled := enabled }

/-- `turn_off`. -/
def turnOff (faults : SwitchFaults) : ComAction κ Unit := do
  let on ← isOn profile faults.getFirewallEnabled
  if on then putFirewallEnabled profile faults.putFirewallEnabled false else pure ()

/-- `turn_on`. -/
def turnOn (faults : SwitchFaults) : ComAction κ Unit := do
  let on ← isOn profile faults.getFirewallEnabled
  if on then pure () else putFirewallEnabled profile faults.putFirewallEnabled true

/-- `INetFwAuthorizedApplications::Item` or `INetFwOpenPorts::Item`, for an entry that
may be there. -/
def item (failed : Bool) (entry : Option Bool) : Option Bool := if failed then none else entry

/-- `port_status`; `itemFails` is that of `Item`, for an entry that is there. -/
def portStatus (faults : StatusFaults) (itemFails : Bool) (port : Int32) (protocol : Protocol) :
    ComAction κ Bool := do
  use profile
  let fwOpenPorts ← acquireOr .interface faults.getGloballyOpenPorts .getGloballyOpenPorts []
  use fwOpenPorts
  let r ← look
  match item itemFails (r.ports (port, protocol)) with
  | some enabled => do
    let fwOpenPort ← acquire .interface false
    use fwOpenPort
    failIf faults.getEnabled .getEnabled [fwOpenPort, fwOpenPorts]
    releaseAll [fwOpenPort, fwOpenPorts]
    pure enabled
  | none => do
    releaseAll [fwOpenPorts]
    pure false

/-- The part of `port_allow` that makes a port and adds it. -/
def addPort (faults : ComFaults) (fresh : NewPort) (name : List UInt16) (port : Int32)
    (protocol : Protocol) : ComAction κ Unit := do
  use profile
  let fwOpenPorts ← acquireOr .interface faults.getGloballyOpenPorts .getGloballyOpenPorts []
  let fwOpenPort ← acquireOr .interface faults.coCreateInstance .coCreateInstance [fwOpenPorts]
  use fwOpenPort
  failIf faults.putPort .putPort [fwOpenPort, fwOpenPorts]
  use fwOpenPort
  failIf faults.putProtocol .putProtocol [fwOpenPort, fwOpenPorts]
  let fwBstrName ← acquire .bstr faults.sysAllocString
  let text := sysAllocString faults.sysAllocString name
  -- an empty string is not freed here
  failIf (text.length = 0) .sysAllocString [fwOpenPort, fwOpenPorts]
  use fwOpenPort
  failIf faults.putName .putName [fwBstrName, fwOpenPort, fwOpenPorts]
  use fwOpenPorts
  change fun r =>
    if faults.addRule then r
    else { r with
      ports := r.ports.add { fresh.val with port := port, protocol := protocol, name := text } }
  releaseAll [fwBstrName, fwOpenPort, fwOpenPorts]
  failIf faults.addRule .addRule []

/-- `port_allow`. -/
def portAllow (faults : ComFaults) (itemFails : Bool) (fresh : NewPort) (name : List UInt16)
    (port : Int32) (protocol : Protocol) : ComAction κ Unit := do
  -- `port_status(protocol)`: the one argument is the port, the protocol is the default
  let isOpen ← portStatus profile faults.status itemFails protocol.toLong .any
  if isOpen then pure () else addPort profile faults fresh name port protocol

variable [DecidableEq κ] (key : List UInt16 → κ)

/-- `INetFwAuthorizedApplications::Add`. -/
def Rules.addApp (r : Rules κ) (a : AuthorizedApp) : Rules κ :=
  { r with apps := Function.update r.apps (key a.processImageFileName) (some a.enabled) }

/-- `INetFwAuthorizedApplications::Remove`. -/
def Rules.removeApp (r : Rules κ) (image : List UInt16) : Rules κ :=
  { r with apps := Function.update r.apps (key image) none }

omit [DecidableEq κ] in
/-- `app_status`. -/
def appStatus (faults : AppStatusFaults) (path : List UInt16) : ComAction κ Bool := do
  use profile
  let fwApps ← acquireOr .interface faults.getAuthorizedApplications .getAuthorizedApplications []
  let image ← acquireOr .bstr faults.sysAllocString .sysAllocString [fwApps]
  use fwApps
  let r ← look
  match item faults.item (r.apps (key (sysAllocString false path))) with
  | some enabled => do
    let fwApp ← acquire .interface false
    use fwApp
    failIf faults.getEnabled .getEnabled [image, fwApp, fwApps]
    releaseAll [image, fwApp, fwApps]
    pure enabled
  | none => do
    releaseAll [image, fwApps]
    pure false

/-- The pointers of `app_allow` and `app_disable`. -/
structure AppPointers where
  fwApps : Handle Pointer
  fwApp : Handle Pointer
  image : Handle Pointer
  fwBstrName : Handle Pointer

/-- The part that `app_allow` and `app_disable` share: a new application with its
file name and its name. -/
def newApp (faults : AppFaults) (name : List UInt16) : ComAction κ AppPointers := do
  use profile
  let fwApps ← acquireOr .interface faults.getAuthorizedApplications .getAuthorizedApplications []
  let fwApp ← acquireOr .interface faults.coCreateInstance .coCreateInstance [fwApps]
  let image ← acquireOr .bstr faults.imageString .sysAllocString [fwApp, fwApps]
  use fwApp
  failIf faults.putProcessImageFileName .putProcessImageFileName [fwApp, fwApps, image]
  let fwBstrName ← acquire .bstr faults.nameString
  -- an empty string is not freed here, and the error is that of the other property
  failIf ((sysAllocString faults.nameString name).length = 0) .putProcessImageFileName
    [fwApp, fwApps, image]
  use fwApp
  failIf faults.putName .putName [fwApp, fwApps, image, fwBstrName]
  pure ⟨fwApps, fwApp, image, fwBstrName⟩

/-- The application that `app_allow` and `app_disable` add. -/
def appOf (fresh : NewApp) (name path : List UInt16) (enabled : Bool) : AuthorizedApp :=
  { fresh.val with
    processImageFileName := sysAllocString false path
    name := sysAllocString false name
    enabled := enabled }

/-- `app_allow`. -/
def appAllow (faults : AppFaults) (fresh : NewApp) (name path : List UInt16) :
    ComAction κ Unit := do
  let yes ← appStatus profile key faults.status path
  if yes then pure ()
  else do
    let p ← newApp profile faults name
    use p.fwApps
    failIf faults.addRule .addRule [p.fwApp, p.fwApps, p.image, p.fwBstrName]
    change fun r => r.addApp key (appOf fresh name path fresh.val.enabled)
    releaseAll [p.fwApp, p.fwApps, p.image, p.fwBstrName]

/-- `app_disable`. -/
def appDisable (faults : AppFaults) (fresh : NewApp) (name path : List UInt16) :
    ComAction κ Unit := do
  let yes ← appStatus profile key faults.status path
  if !yes then pure ()
  else do
    let p ← newApp profile faults name
    use p.fwApp
    failIf faults.putEnabled .putEnabled [p.fwApp, p.fwApps, p.image, p.fwBstrName]
    use p.fwApps
    change fun r => if faults.addRule then r else r.addApp key (appOf fresh name path false)
    releaseAll [p.fwApp, p.fwApps, p.image, p.fwBstrName]
    failIf faults.addRule .addRule []

/-- `app_remove`. -/
def appRemove (faults : RemoveFaults) (path : List UInt16) : ComAction κ Unit := do
  use profile
  let fwApps ← acquireOr .interface faults.getAuthorizedApplications .getAuthorizedApplications []
  let image ← acquireOr .bstr faults.sysAllocString .sysAllocString [fwApps]
  use fwApps
  failIf faults.remove .removeRule [fwApps, image]
  change fun r => r.removeApp key (sysAllocString false path)
  releaseAll [fwApps, image]

end Functions

/-! ## What each function does -/

section Ends

variable {κ : Type} {r : Rules κ} {m : Multiset Pointer} {s : Owned Pointer (Rules κ)}
  {p : Pointer}

/-- Nothing is left behind, and Windows keeps what it kept. -/
abbrev Undone (r : Rules κ) (m : Multiset Pointer) : ComError → Owned Pointer (Rules κ) → Prop :=
  fun _ s' => Held r m [] s'

/-- A check behind which nothing is held. -/
theorem ends_check_nil_bind {α : Type} {failed : Bool} {e : ComError}
    {f : Unit → ComAction κ α} {Q : α → Owned Pointer (Rules κ) → Prop} (h : Held r m [] s)
    (hf : Ends (f ⟨⟩) s Q (Undone r m)) : Ends (failIf failed e [] >>= f) s Q (Undone r m) :=
  ends_failIf_bind h (.refl []) (fun _ _ h' => h') fun _ => hf

theorem ends_construct (faults : ConstructFaults) (h : Held r m [] s) :
    Ends (construct faults) s (fun profile s' => ∃ p, profile = some p ∧ Held r m [some p] s')
      (Undone r m) := by
  refine ends_acquireOr_bind h (.refl []) (fun _ h => h) fun fwMgr s₁ h₁ => ?_
  refine ends_use_bind h₁ (.inl (by simp)) ?_
  refine ends_acquireOr_bind h₁ (.refl _) (fun _ h => h) fun fwPolicy s₂ h₂ => ?_
  refine ends_use_bind h₂ (.inl (by simp)) ?_
  refine ends_acquireOr_bind h₂ (by grind) (fun _ h => h) fun profile s₃ h₃ => ?_
  exact ends_releaseAll_bind h₃ (by grind) fun s' h' => ends_pure ⟨_, rfl, h'⟩

theorem ends_destroy {E : ComError → Owned Pointer (Rules κ) → Prop} (h : Held r m [some p] s) :
    Ends (destroy (some p)) s (fun _ s' => Held r m [] s') E :=
  ends_releaseAll h (.refl _)

section Profile

variable (hp : p ∈ m)

include hp

theorem ends_isOn (failed : Bool) (h : Held r m [] s) :
    Ends (isOn (some p) failed) s (fun on s' => on = r.enabled ∧ Held r m [] s')
      (Undone r m) :=
  ends_use_bind h (.inr hp) (ends_check_nil_bind h (ends_look_bind h (ends_pure ⟨rfl, h⟩)))

theorem ends_putFirewallEnabled (failed enabled : Bool) (h : Held r m [] s) :
    Ends (putFirewallEnabled (some p) failed enabled) s
      (fun _ s' => Held { r with enabled := enabled } m [] s') (Undone r m) := by
  refine ends_use_bind h (.inr hp) (ends_check_nil_bind h ?_)
  rw [← bind_pure (change _)]
  exact ends_change_bind h fun _ h' => ends_pure h'

theorem ends_turnOff (faults : SwitchFaults) (h : Held r m [] s) :
    Ends (turnOff (some p) faults) s (fun _ s' => Held { r with enabled := false } m [] s')
      (Undone r m) := by
  refine ends_bind (ends_isOn hp _ h) ?_
  rintro on s' ⟨hon, h'⟩
  refine ends_ite (fun _ => ends_putFirewallEnabled hp _ _ h') fun hoff => ends_pure ?_
  have hfalse : r.enabled = false := by rw [← hon]; exact Bool.eq_false_iff.mpr hoff
  rw [← hfalse]
  exact h'

theorem ends_turnOn (faults : SwitchFaults) (h : Held r m [] s) :
    Ends (turnOn (some p) faults) s (fun _ s' => Held { r with enabled := true } m [] s')
      (Undone r m) := by
  refine ends_bind (ends_isOn hp _ h) ?_
  rintro on s' ⟨hon, h'⟩
  refine ends_ite (fun hon' => ends_pure ?_) fun _ => ends_putFirewallEnabled hp _ _ h'
  have htrue : r.enabled = true := by rw [← hon, hon']
  rw [← htrue]
  exact h'

omit hp in
/-- An entry that was found: whether it is enabled. -/
theorem ends_getEnabled {failed enabled : Bool} {hs : List (Handle Pointer)} (h : Held r m hs s)
    (f : Handle Pointer → List (Handle Pointer)) (hf : ∀ q, (some q :: hs).Perm (f (some q))) :
    Ends (do
        let fwEntry ← acquire .interface false
        use fwEntry
        failIf failed .getEnabled (f fwEntry)
        releaseAll (f fwEntry)
        pure enabled : ComAction κ Bool) s
      (fun yes s' => yes = enabled ∧ Held r m [] s')
      fun e s' => e = .getEnabled ∧ Held r m [] s' := by
  refine ends_acquire_bind h fun n q s₁ hq h₁ => ?_
  subst hq
  refine ends_use_bind h₁ (.inl (List.mem_cons_self ..)) ?_
  refine ends_failIf_bind h₁ (hf _) (fun _ _ h' => ⟨rfl, h'⟩) fun _ => ?_
  exact ends_clear_bind h₁ (hf _) fun s' h' => ends_pure ⟨rfl, h'⟩

theorem ends_portStatus (faults : StatusFaults) (itemFails : Bool) (port : Int32)
    (protocol : Protocol) (h : Held r m [] s) :
    Ends (portStatus (some p) faults itemFails port protocol) s
      (fun yes s' => yes = (item itemFails (r.ports (port, protocol)) == some true) ∧
        Held r m [] s')
      fun e s' => e ≠ .sysAllocString ∧ Held r m [] s' := by
  refine ends_use_bind h (.inr hp) ?_
  refine ends_acquireOr_bind h (.refl []) (fun _ h' => ⟨by decide, h'⟩) fun ports s₁ h₁ => ?_
  refine ends_use_bind h₁ (.inl (by simp)) (ends_look_bind h₁ ?_)
  cases item itemFails (r.ports (port, protocol)) with
  | none => exact ends_clear_bind h₁ (.refl _) fun s' h' => ends_pure ⟨rfl, h'⟩
  | some enabled =>
    refine (ends_getEnabled h₁ (fun q => [q, some (.interface ports)]) fun q => .refl _).mono
      ?_ ?_
    · rintro yes s' ⟨rfl, h'⟩
      exact ⟨by cases yes <;> rfl, h'⟩
    · rintro e s' ⟨rfl, h'⟩
      exact ⟨by decide, h'⟩

/-- A way out behind which one `BSTR` is lost if `leak`, and nothing otherwise. -/
def Closed (leak : Prop) (r : Rules κ) (m : Multiset Pointer) (s' : Owned Pointer (Rules κ)) :
    Prop :=
  (¬ leak ∧ Held r m [] s') ∨ (leak ∧ ∃ lost, Held r m [some (.bstr lost)] s')

/-- `port_allow` loses the `BSTR` of an empty name. -/
def PortLeaks (faults : ComFaults) (name : List UInt16) (e : ComError) : Prop :=
  e = .sysAllocString ∧ faults.sysAllocString = false ∧ sysAllocString false name = []

/-- `app_allow` and `app_disable` lose the `BSTR` of an empty name. -/
def AppLeaks (faults : AppFaults) (name : List UInt16) (e : ComError) : Prop :=
  e = .putProcessImageFileName ∧ faults.putProcessImageFileName = false ∧
    faults.nameString = false ∧ sysAllocString false name = []

/-- What `port_allow` does to the rules when it returns. -/
def Rules.allowPort (r : Rules κ) (itemFails : Bool) (port : Int32) (protocol : Protocol) :
    Rules κ :=
  if item itemFails (r.ports (protocol.toLong, .any)) = some true then r
  else { r with ports := Function.update r.ports (port, protocol) (some true) }

omit hp in
theorem closed_of_held {leak : Prop} {s' : Owned Pointer (Rules κ)} (hleak : ¬ leak)
    (h : Held r m [] s') : Closed leak r m s' := .inl ⟨hleak, h⟩

omit hp in
/-- The check of the length of a name: the way out is taken when there was no memory,
and then nothing is lost, or when the name is empty. -/
theorem closed_of_empty {failed : Bool} {name : List UInt16} {n : Nat} {q : Handle Pointer}
    {s' : Owned Pointer (Rules κ)} {leak : Prop}
    (hq : q = if failed then none else some (.bstr n))
    (hleak : leak ↔ failed = false ∧ sysAllocString false name = [])
    (hempty : decide ((sysAllocString failed name).length = 0) = true)
    (h : Held r m [q] s') : Closed leak r m s' := by
  cases failed with
  | true =>
    subst hq
    exact .inl ⟨(fun hl => by cases (hleak.mp hl).1), h.state, h.live, h.fair⟩
  | false =>
    subst hq
    exact .inr ⟨hleak.mpr ⟨rfl, List.length_eq_zero_iff.mp (of_decide_eq_true hempty)⟩, n, h⟩

omit hp in
/-- The last check, when everything has been given back. -/
theorem ends_addRule {failed : Bool} {r' r'' : Rules κ} {leak : ComError → Prop}
    (hclosed : ∀ {s'}, Held r m [] s' → Closed (leak .addRule) r m s')
    (h : Held (if failed then r else r') m [] s) (hr : r' = r'') :
    Ends (failIf failed .addRule []) s (fun _ s' => Held r'' m [] s')
      fun e s' => Closed (leak e) r m s' := by
  rw [← bind_pure (failIf _ _ _)]
  cases failed with
  | true => exact ends_failIf_bind h (.refl []) (fun _ _ h' => hclosed h') fun hf => by cases hf
  | false =>
    exact ends_failIf_bind h (.refl []) (fun _ hf => by cases hf) fun _ => ends_pure (hr ▸ h)

theorem ends_addPort (faults : ComFaults) (fresh : NewPort) (name : List UInt16) (port : Int32)
    (protocol : Protocol) (h : Held r m [] s) :
    Ends (addPort (some p) faults fresh name port protocol) s
      (fun _ s' =>
        Held { r with ports := Function.update r.ports (port, protocol) (some true) } m [] s')
      fun e s' => Closed (PortLeaks faults name e) r m s' := by
  have hclosed : ∀ {e s'}, e ≠ .sysAllocString → Held r m [] s' →
      Closed (PortLeaks faults name e) r m s' := fun he h' =>
    closed_of_held (fun hl => he hl.1) h'
  refine ends_use_bind h (.inr hp) ?_
  refine ends_acquireOr_bind h (.refl []) (fun _ => hclosed (by decide)) fun ports s₁ h₁ => ?_
  refine ends_acquireOr_bind h₁ (.refl _) (fun _ => hclosed (by decide)) fun port' s₂ h₂ => ?_
  refine ends_use_bind h₂ (.inl (by simp)) ?_
  refine ends_failIf_bind h₂ (by grind) (fun _ _ => hclosed (by decide)) fun _ => ?_
  refine ends_use_bind h₂ (.inl (by simp)) ?_
  refine ends_failIf_bind h₂ (by grind) (fun _ _ => hclosed (by decide)) fun _ => ?_
  refine ends_acquire_bind h₂ fun n q s₃ hq h₃ => ?_
  refine ends_failIf_losing_bind h₃ (List.perm_append_comm : ([q] ++ _).Perm _)
    (fun _ hempty h' => closed_of_empty hq ⟨fun hl => hl.2, fun hl => ⟨rfl, hl⟩⟩ hempty h')
    fun _ => ?_
  refine ends_use_bind h₃ (.inl (by simp)) ?_
  refine ends_failIf_bind h₃ (by grind) (fun _ _ => hclosed (by decide)) fun _ => ?_
  refine ends_use_bind h₃ (.inl (by simp)) ?_
  refine ends_change_bind h₃ fun s₄ h₄ => ?_
  refine ends_clear_bind h₄ (by grind) fun s₅ h₅ => ?_
  exact ends_addRule (hclosed (by decide)) h₅
    (congrArg (fun t => { r with ports := t }) (Firewall.add_new fresh _))

theorem ends_portAllow (faults : ComFaults) (itemFails : Bool) (fresh : NewPort)
    (name : List UInt16) (port : Int32) (protocol : Protocol) (h : Held r m [] s) :
    Ends (portAllow (some p) faults itemFails fresh name port protocol) s
      (fun _ s' => Held (r.allowPort itemFails port protocol) m [] s')
      fun e s' => Closed (PortLeaks faults name e) r m s' := by
  have hstatus := ends_portStatus hp faults.status itemFails protocol.toLong .any h
  refine ends_bind (hstatus.mono (fun _ _ hQ => hQ) fun e s' hE =>
    closed_of_held (fun hl => hE.1 hl.1) hE.2) ?_
  rintro isOpen s' ⟨rfl, h'⟩
  unfold Rules.allowPort
  refine ends_ite (fun hopen => ?_) fun hshut => ?_
  · rw [if_pos (beq_iff_eq.mp hopen)]
    exact ends_pure h'
  · rw [if_neg fun hopen => hshut (beq_iff_eq.mpr hopen)]
    exact ends_addPort hp faults fresh name port protocol h'

/-! ### Programs -/

variable [DecidableEq κ] {key : List UInt16 → κ}

/-- What `app_allow` does to the rules when it returns. -/
def Rules.allowApp (r : Rules κ) (k : κ) : Rules κ :=
  { r with apps := Function.update r.apps k (some true) }

/-- What `app_disable` does to the rules when it returns. -/
def Rules.disableApp (r : Rules κ) (itemFails : Bool) (k : κ) : Rules κ :=
  if item itemFails (r.apps k) = some true then
    { r with apps := Function.update r.apps k (some false) }
  else r

omit hp [DecidableEq κ] in
/-- What `Item` finds is there. -/
theorem eq_of_item {itemFails : Bool} {entry : Option Bool} {enabled : Bool}
    (h : item itemFails entry = some enabled) : entry = some enabled := by
  unfold item at h
  split at h
  · cases h
  · exact h

omit [DecidableEq κ] in
theorem ends_appStatus (faults : AppStatusFaults) (path : List UInt16) (h : Held r m [] s) :
    Ends (appStatus (some p) key faults path) s
      (fun yes s' =>
        yes = (item faults.item (r.apps (key (sysAllocString false path))) == some true) ∧
          Held r m [] s')
      fun e s' => e ≠ .putProcessImageFileName ∧ Held r m [] s' := by
  refine ends_use_bind h (.inr hp) ?_
  refine ends_acquireOr_bind h (.refl []) (fun _ h' => ⟨by decide, h'⟩) fun fwApps s₁ h₁ => ?_
  refine ends_acquireOr_bind h₁ (.refl _) (fun _ h' => ⟨by decide, h'⟩) fun image s₂ h₂ => ?_
  refine ends_use_bind h₂ (.inl (by simp)) (ends_look_bind h₂ ?_)
  cases item faults.item (r.apps (key (sysAllocString false path))) with
  | none => exact ends_clear_bind h₂ (.refl _) fun s' h' => ends_pure ⟨rfl, h'⟩
  | some enabled =>
    refine (ends_getEnabled h₂ (fun q => [some (.bstr image), q, some (.interface fwApps)])
      fun q => by grind).mono ?_ ?_
    · rintro yes s' ⟨rfl, h'⟩
      exact ⟨by cases yes <;> rfl, h'⟩
    · rintro e s' ⟨rfl, h'⟩
      exact ⟨by decide, h'⟩

/-- The pointers of a new application are held. -/
def HeldApp (r : Rules κ) (m : Multiset Pointer) (q : AppPointers)
    (s : Owned Pointer (Rules κ)) : Prop :=
  ∃ fwApps fwApp, q.fwApps = some fwApps ∧ q.fwApp = some fwApp ∧
    Held r m [q.fwBstrName, q.image, q.fwApp, q.fwApps] s

omit hp [DecidableEq κ] in
/-- A way out of `app_allow` or `app_disable` with another error. -/
theorem app_closed {faults : AppFaults} {name : List UInt16} {e : ComError}
    {s' : Owned Pointer (Rules κ)} (he : e ≠ .putProcessImageFileName) (h : Held r m [] s') :
    Closed (AppLeaks faults name e) r m s' :=
  closed_of_held (fun hl => he hl.1) h

omit [DecidableEq κ] in
theorem ends_newApp (faults : AppFaults) (name : List UInt16) (h : Held r m [] s) :
    Ends (newApp (some p) faults name) s (HeldApp r m)
      fun e s' => Closed (AppLeaks faults name e) r m s' := by
  refine ends_use_bind h (.inr hp) ?_
  refine ends_acquireOr_bind h (.refl []) (fun _ => app_closed (by decide)) fun apps s₁ h₁ => ?_
  refine ends_acquireOr_bind h₁ (.refl _) (fun _ => app_closed (by decide)) fun app s₂ h₂ => ?_
  refine ends_acquireOr_bind h₂ (.refl _) (fun _ => app_closed (by decide)) fun image s₃ h₃ => ?_
  refine ends_use_bind h₃ (.inl (by simp)) ?_
  refine ends_failIf_bind h₃ (by grind)
    (fun _ hput h' => closed_of_held (fun hl => by cases hput.symm.trans hl.2.1) h')
    fun hput => ?_
  refine ends_acquire_bind h₃ fun n q s₄ hq h₄ => ?_
  have hperm : [q, some (.bstr image), some (.interface app), some (.interface apps)].Perm
      ([some (.interface app), some (.interface apps), some (.bstr image)] ++ [q]) := by grind
  refine ends_failIf_losing_bind h₄ hperm
    (fun _ hempty h' => closed_of_empty hq ⟨fun hl => hl.2.2, fun hl => ⟨rfl, hput, hl⟩⟩ hempty h')
    fun _ => ?_
  refine ends_use_bind h₄ (.inl (by simp)) ?_
  refine ends_failIf_bind h₄ (by grind) (fun _ _ => app_closed (by decide)) fun _ => ?_
  exact ends_pure ⟨_, _, rfl, rfl, h₄⟩

theorem ends_appAllow (faults : AppFaults) (fresh : NewApp) (name path : List UInt16)
    (h : Held r m [] s) :
    Ends (appAllow (some p) key faults fresh name path) s
      (fun _ s' => Held (r.allowApp (key (sysAllocString false path))) m [] s')
      fun e s' => Closed (AppLeaks faults name e) r m s' := by
  have hstatus : Ends (appStatus (some p) key faults.status path) s _ _ :=
    ends_appStatus hp faults.status path h
  refine ends_bind (hstatus.mono (fun _ _ hQ => hQ) fun e s' hE => app_closed hE.1 hE.2) ?_
  rintro yes s' ⟨rfl, h'⟩
  refine ends_ite (fun hyes => ends_pure ?_) fun hno => ?_
  · rw [Rules.allowApp, ← eq_of_item (beq_iff_eq.mp hyes), Function.update_eq_self]
    exact h'
  · refine ends_bind (ends_newApp hp faults name h') ?_
    rintro ⟨_, _, image, bstr⟩ s₁ ⟨apps, app, rfl, rfl, h₁⟩
    refine ends_use_bind h₁ (.inl (by simp)) ?_
    refine ends_failIf_bind h₁ (by grind) (fun _ _ => app_closed (by decide)) fun _ => ?_
    refine ends_change_bind h₁ fun s₂ h₂ => ?_
    refine (ends_clear h₂ (by grind)).mono (fun _ _ h₃ => ?_) fun _ _ hE => hE
    rw [Rules.addApp, fresh.property] at h₃
    exact h₃

theorem ends_appDisable (faults : AppFaults) (fresh : NewApp) (name path : List UInt16)
    (h : Held r m [] s) :
    Ends (appDisable (some p) key faults fresh name path) s
      (fun _ s' =>
        Held (r.disableApp faults.status.item (key (sysAllocString false path))) m [] s')
      fun e s' => Closed (AppLeaks faults name e) r m s' := by
  have hstatus : Ends (appStatus (some p) key faults.status path) s _ _ :=
    ends_appStatus hp faults.status path h
  refine ends_bind (hstatus.mono (fun _ _ hQ => hQ) fun e s' hE => app_closed hE.1 hE.2) ?_
  rintro yes s' ⟨rfl, h'⟩
  unfold Rules.disableApp
  refine ends_ite (fun hno => ?_) fun hyes => ?_
  · rw [if_neg fun hyes => by rw [hyes] at hno; cases hno]
    exact ends_pure h'
  · rw [if_pos (by simpa using hyes)]
    refine ends_bind (ends_newApp hp faults name h') ?_
    rintro ⟨_, _, image, bstr⟩ s₁ ⟨apps, app, rfl, rfl, h₁⟩
    refine ends_use_bind h₁ (.inl (by simp)) ?_
    refine ends_failIf_bind h₁ (by grind) (fun _ _ => app_closed (by decide)) fun _ => ?_
    refine ends_use_bind h₁ (.inl (by simp)) ?_
    refine ends_change_bind h₁ fun s₂ h₂ => ?_
    refine ends_clear_bind h₂ (by grind) fun s₃ h₃ => ?_
    exact ends_addRule (app_closed (by decide)) h₃ rfl

theorem ends_appRemove (faults : RemoveFaults) (path : List UInt16) (h : Held r m [] s) :
    Ends (appRemove (some p) key faults path) s
      (fun _ s' => Held (r.removeApp key (sysAllocString false path)) m [] s')
      (Undone r m) := by
  refine ends_use_bind h (.inr hp) ?_
  refine ends_acquireOr_bind h (.refl []) (fun _ h' => h') fun apps s₁ h₁ => ?_
  refine ends_acquireOr_bind h₁ (.refl _) (fun _ h' => h') fun image s₂ h₂ => ?_
  refine ends_use_bind h₂ (.inl (by simp)) ?_
  refine ends_failIf_bind h₂ (by grind) (fun _ _ h' => h') fun _ => ?_
  exact ends_change_bind h₂ fun s₃ h₃ => ends_clear h₃ (by grind)

end Profile

end Ends

/-! ## The open ports without the pointers -/

section Ports

open Firewall (Error)

variable {κ : Type} (profile : Handle Pointer)

/-- The error in the whole category. -/
def comError : Error → ComError
  | .coCreateInstance => .coCreateInstance
  | .sysAllocString => .sysAllocString
  | .getEnabled => .getEnabled
  | .putName => .putName
  | .addRule => .addRule
  | .getGloballyOpenPorts => .getGloballyOpenPorts
  | .putPort => .putPort
  | .putProtocol => .putProtocol

theorem code_comError (e : Error) : (comError e).code = e.code := by
  cases e <;> rfl

/-- With the pointers put aside, a function is the one of `Windows/Firewall.lean`, where
`Item` finds what is there. -/
abbrev OnPorts {α : Type} (x : ComAction κ α) (y : Action Error OpenPorts α) : Prop :=
  Follows Rules.ports comError x y

theorem portStatus_follows (faults : StatusFaults) (port : Int32) (protocol : Protocol) :
    OnPorts (portStatus (κ := κ) profile faults false port protocol)
      (Firewall.portStatus faults port protocol) := by
  refine follows_quiet_bind (quiet_use profile) fun _ => ?_
  refine follows_acquireOr_bind Error.getGloballyOpenPorts fun fwOpenPorts => ?_
  refine follows_quiet_bind (quiet_use fwOpenPorts) fun _ => ?_
  refine follows_look_bind fun r => ?_
  show OnPorts (match r.ports (port, protocol) with
    | some enabled => _
    | none => _) _
  cases r.ports (port, protocol) with
  | none => exact follows_quiet_bind (quiet_releaseAll _) fun _ => follows_pure _
  | some enabled =>
    refine follows_quiet_bind (quiet_acquire Pointer.interface false) fun fwOpenPort => ?_
    refine follows_quiet_bind (quiet_use fwOpenPort) fun _ => ?_
    refine follows_bind (follows_failIf _ Error.getEnabled _) fun _ => ?_
    exact follows_quiet_bind (quiet_releaseAll _) fun _ => follows_pure _

theorem addPort_follows (faults : ComFaults) (fresh : NewPort) (name : List UInt16)
    (port : Int32) (protocol : Protocol) :
    OnPorts (addPort (κ := κ) profile faults fresh name port protocol)
      (Firewall.addPort faults fresh name port protocol) := by
  refine follows_quiet_bind (quiet_use profile) fun _ => ?_
  refine follows_acquireOr_bind Error.getGloballyOpenPorts fun fwOpenPorts => ?_
  refine follows_acquireOr_bind Error.coCreateInstance fun fwOpenPort => ?_
  refine follows_quiet_bind (quiet_use fwOpenPort) fun _ => ?_
  refine follows_bind (follows_failIf _ Error.putPort _) fun _ => ?_
  refine follows_quiet_bind (quiet_use fwOpenPort) fun _ => ?_
  refine follows_bind (follows_failIf _ Error.putProtocol _) fun _ => ?_
  refine follows_quiet_bind (quiet_acquire Pointer.bstr faults.sysAllocString) fun fwBstrName => ?_
  refine follows_bind (follows_failIf _ Error.sysAllocString _) fun _ => ?_
  refine follows_quiet_bind (quiet_use fwOpenPort) fun _ => ?_
  refine follows_bind (follows_failIf _ Error.putName _) fun _ => ?_
  refine follows_quiet_bind (quiet_use fwOpenPorts) fun _ => ?_
  cases faults.addRule with
  | true =>
    refine follows_quiet_bind (fun s => ⟨⟨⟩, s, rfl, rfl⟩) fun _ => ?_
    exact follows_quiet_bind (quiet_releaseAll _) fun _ s _ h => ⟨s, rfl, h⟩
  | false =>
    show OnPorts _ (modify _)
    rw [← bind_pure (modify _)]
    refine follows_bind (follows_change fun r => rfl) fun _ => ?_
    exact follows_quiet_bind (quiet_releaseAll _) fun _ => follows_pure _

/-- `port_allow` does to the ports what it does there. -/
theorem portAllow_follows (faults : ComFaults) (fresh : NewPort) (name : List UInt16)
    (port : Int32) (protocol : Protocol) :
    OnPorts (portAllow (κ := κ) profile faults false fresh name port protocol)
      (Firewall.portAllow faults fresh name port protocol) := by
  refine follows_bind (portStatus_follows profile faults.status _ _) fun isOpen => ?_
  cases isOpen with
  | true => exact follows_pure _
  | false => exact addPort_follows profile faults fresh name port protocol

end Ports

end KgCpp.Windows.Com
