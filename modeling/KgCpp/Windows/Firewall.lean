import KgCpp.Lib.Action

/-!
# The open ports of the firewall (`windows/firewall.hpp`)

The collection `get_GloballyOpenPorts` returns is a table from port and protocol
to whether the entry is enabled: `Item` finds an entry by its key, `Add` inserts
one or replaces the one with its key. Each of the COM calls whose `HRESULT` the
code checks may fail; `ComFaults` says which do.

`port_allow` begins by asking whether the port is open already. It gives
`port_status` its protocol and not its port, and the number is taken for a port
of the protocol `NET_FW_IP_PROTOCOL_ANY`. `allows_iff`: it does its work exactly
when the entry looked up so is not enabled, or the right one is enabled too.
-/

namespace KgCpp.Windows.Firewall

open Lib

/-- `NET_FW_IP_PROTOCOL`. -/
inductive Protocol where
  | tcp
  | udp
  | any
deriving DecidableEq

/-- The conversion of a `NET_FW_IP_PROTOCOL` to `LONG`. -/
def Protocol.toLong : Protocol → Int32
  | .tcp => 6
  | .udp => 17
  | .any => 256

/-- The errors of `firewall_category` that the two functions throw. -/
inductive Error where
  | coCreateInstance
  | sysAllocString
  | getEnabled
  | putName
  | addRule
  | getGloballyOpenPorts
  | putPort
  | putProtocol
deriving DecidableEq

/-- The values of the `KG_WINDOWS_FIREWALL_CATEGORY_` constants. -/
def Error.code : Error → Nat
  | .coCreateInstance => 1
  | .sysAllocString => 7
  | .getEnabled => 8
  | .putName => 11
  | .addRule => 12
  | .getGloballyOpenPorts => 14
  | .putPort => 15
  | .putProtocol => 16

/-- An `INetFwOpenPort`. -/
structure OpenPort where
  port : Int32
  protocol : Protocol
  name : List UInt16
  enabled : Bool

/-- What `CoCreateInstance` makes: a new `NetFwOpenPort` is enabled. -/
abbrev NewPort := { o : OpenPort // o.enabled = true }

/-- What two fields name an entry. -/
abbrev Key := Int32 × Protocol

/-- `INetFwOpenPorts`: whether there is an entry, and whether it is enabled. -/
abbrev OpenPorts := Key → Option Bool

/-- `INetFwOpenPorts::Add`. -/
def OpenPorts.add (t : OpenPorts) (o : OpenPort) : OpenPorts := fun k =>
  if k = (o.port, o.protocol) then some o.enabled else t k

/-- The calls of `port_status` that fail. -/
structure StatusFaults where
  getGloballyOpenPorts : Bool
  getEnabled : Bool

/-- The calls of `port_allow` that fail. -/
structure ComFaults where
  status : StatusFaults
  getGloballyOpenPorts : Bool
  coCreateInstance : Bool
  putPort : Bool
  putProtocol : Bool
  sysAllocString : Bool
  putName : Bool
  addRule : Bool

/-- `if (FAILED(hr))` throw `e`. -/
def check (failed : Bool) (e : Error) : Action Error OpenPorts Unit :=
  if failed then throw e else pure ()

/-- `port_status`. -/
def portStatus (faults : StatusFaults) (port : Int32) (protocol : Protocol) :
    Action Error OpenPorts Bool := do
  check faults.getGloballyOpenPorts .getGloballyOpenPorts
  let t ← get
  match t (port, protocol) with
  | some enabled => do
    check faults.getEnabled .getEnabled
    pure enabled
  | none => pure false

/-- `SysAllocString(name.c_str())`: the characters before the first NUL, none when
there is no memory. -/
def sysAllocString (failed : Bool) (name : List UInt16) : List UInt16 :=
  if failed then [] else name.takeWhile (· ≠ 0)

/-- The part of `port_allow` that makes a port and adds it. -/
def addPort (faults : ComFaults) (fresh : NewPort) (name : List UInt16) (port : Int32)
    (protocol : Protocol) : Action Error OpenPorts Unit := do
  check faults.getGloballyOpenPorts .getGloballyOpenPorts
  check faults.coCreateInstance .coCreateInstance
  check faults.putPort .putPort
  check faults.putProtocol .putProtocol
  let fwBstrName := sysAllocString faults.sysAllocString name
  check (fwBstrName.length = 0) .sysAllocString
  check faults.putName .putName
  check faults.addRule .addRule
  modify fun t => t.add { fresh.val with port := port, protocol := protocol, name := fwBstrName }

/-- `port_allow`. -/
def portAllow (faults : ComFaults) (fresh : NewPort) (name : List UInt16) (port : Int32)
    (protocol : Protocol) : Action Error OpenPorts Unit := do
  -- `port_status(protocol)`: the one argument is the port, the protocol is the default
  let isOpen ← portStatus faults.status protocol.toLong .any
  if isOpen then pure () else addPort faults fresh name port protocol

/-! ## What `port_allow` is for -/

/-- The table `t'` is `t` with the port opened. -/
structure Opens (t : OpenPorts) (port : Int32) (protocol : Protocol) (t' : OpenPorts) :
    Prop where
  opened : portStatus ⟨false, false⟩ port protocol t' = .ok true t'
  others : ∀ k, k ≠ (port, protocol) → t' k = t k
  unchanged : t (port, protocol) = some true → t' = t

/-- `port_allow` opens the port it is asked for whenever it returns. -/
def Allows (t : OpenPorts) (name : List UInt16) (port : Int32) (protocol : Protocol) : Prop :=
  ∀ faults fresh t', portAllow faults fresh name port protocol t = .ok ⟨⟩ t' →
    Opens t port protocol t'

section Ends

variable {t : OpenPorts} {port : Int32} {protocol : Protocol}

theorem ends_check (failed : Bool) (e : Error) :
    Ends (check failed e) t (fun _ t' => t' = t) fun _ t' => t' = t :=
  ends_ite (fun _ => ends_throw rfl) fun _ => ends_pure rfl

/-- A check, and then more of the function, which begins in the same table. -/
theorem ends_check_bind {α : Type} {failed : Bool} {e : Error}
    {f : Unit → Action Error OpenPorts α} {Q : α → OpenPorts → Prop}
    (hf : Ends (f ⟨⟩) t Q fun _ t' => t' = t) :
    Ends (check failed e >>= f) t Q fun _ t' => t' = t :=
  ends_bind (ends_check failed e) fun _ _ h => h ▸ hf

/-- `port_status` says whether the entry with the key is there and enabled. -/
theorem ends_portStatus (faults : StatusFaults) :
    Ends (portStatus faults port protocol) t
      (fun yes t' => t' = t ∧ (yes = true ↔ t (port, protocol) = some true))
      fun _ t' => t' = t := by
  refine ends_check_bind (ends_bind_of_ok (a := t) rfl ?_)
  cases h : t (port, protocol) with
  | none => exact ends_pure ⟨rfl, by simp⟩
  | some enabled => exact ends_check_bind (ends_pure ⟨rfl, by simp⟩)

theorem portStatus_eq :
    portStatus ⟨false, false⟩ port protocol t = .ok (t (port, protocol) == some true) t := by
  have hcheck : check false .getGloballyOpenPorts t = .ok ⟨⟩ t := rfl
  have hget : (get : Action Error OpenPorts OpenPorts) t = .ok t t := rfl
  rw [portStatus, bind_of_ok hcheck, bind_of_ok hget]
  cases t (port, protocol) with
  | none => rfl
  | some enabled => cases enabled <;> rfl

theorem add_new (fresh : NewPort) (name : List UInt16) :
    t.add { fresh.val with port := port, protocol := protocol, name := name } =
      Function.update t (port, protocol) (some true) := by
  funext k
  rw [OpenPorts.add, Function.update_apply, fresh.property]

/-- The second part enables the entry with the key. -/
theorem ends_addPort (faults : ComFaults) (fresh : NewPort) (name : List UInt16) :
    Ends (addPort faults fresh name port protocol) t
      (fun _ t' => t' = Function.update t (port, protocol) (some true)) fun _ t' => t' = t := by
  refine ends_check_bind (ends_check_bind (ends_check_bind (ends_check_bind ?_)))
  refine ends_check_bind (ends_check_bind (ends_check_bind ?_))
  exact ends_modify (add_new fresh _)

/-- `port_allow` leaves the table alone when it throws, and when the protocol is an
open port. -/
theorem ends_portAllow (faults : ComFaults) (fresh : NewPort) (name : List UInt16) :
    Ends (portAllow faults fresh name port protocol) t
      (fun _ t' =>
        if t (protocol.toLong, .any) = some true then t' = t
        else t' = Function.update t (port, protocol) (some true))
      fun _ t' => t' = t := by
  refine ends_bind (ends_portStatus faults.status) ?_
  rintro yes t' ⟨ht, hyes⟩
  rw [ht]
  by_cases h : t (protocol.toLong, .any) = some true
  · rw [hyes.mpr h]
    exact ends_pure (by rw [if_pos h])
  · rw [if_neg fun hy => h (hyes.mp hy)]
    exact (ends_addPort faults fresh name).mono (fun _ _ ht => by rwa [if_neg h])
      fun _ _ ht => ht

/-- Where nothing fails and the right entry or another one is enabled, it returns. -/
theorem portAllow_early (fresh : NewPort) (name : List UInt16)
    (h : t (protocol.toLong, .any) = some true) :
    portAllow ⟨⟨false, false⟩, false, false, false, false, false, false, false⟩ fresh name port
      protocol t = .ok ⟨⟩ t := by
  rw [portAllow, bind_of_ok portStatus_eq, h]
  rfl

theorem opens_self (h : t (port, protocol) = some true) : Opens t port protocol t where
  opened := by rw [portStatus_eq, h, beq_self_eq_true]
  others _ _ := rfl
  unchanged _ := rfl

theorem opens_update :
    Opens t port protocol (Function.update t (port, protocol) (some true)) where
  opened := by rw [portStatus_eq, Function.update_self, beq_self_eq_true]
  others _ h := Function.update_of_ne h _ _
  unchanged h := by rw [← h, Function.update_eq_self]

end Ends

/-- `port_allow` opens the port it is asked for exactly when the entry it looks at first
is not enabled, or the entry of the port is. -/
theorem allows_iff (t : OpenPorts) (name : List UInt16) (port : Int32) (protocol : Protocol) :
    Allows t name port protocol ↔
      (t (protocol.toLong, .any) = some true → t (port, protocol) = some true) := by
  constructor
  · intro h hany
    have hopens := h _ ⟨⟨0, .tcp, [], true⟩, rfl⟩ t (portAllow_early _ name hany)
    have hstatus := hopens.opened
    rw [portStatus_eq] at hstatus
    exact beq_iff_eq.mp (EStateM.Result.ok.inj hstatus).1
  · intro h faults fresh t' hok
    have hends : Ends (portAllow faults fresh name port protocol) t _ _ :=
      ends_portAllow faults fresh name
    rw [Ends, hok] at hends
    by_cases hany : t (protocol.toLong, .any) = some true
    · have ht : t' = t := by simpa only [if_pos hany] using hends
      rw [ht]
      exact opens_self (h hany)
    · have ht : t' = Function.update t (port, protocol) (some true) := by
        simpa only [if_neg hany] using hends
      rw [ht]
      exact opens_update

/-- With port 6 open for any protocol, TCP port 80 stays closed. -/
theorem port_stays_closed :
    ¬ Allows (fun k => if k = (6, .any) then some true else none) [120] 80 .tcp := by
  intro h
  have hopens := h ⟨⟨false, false⟩, false, false, false, false, false, false, false⟩
    ⟨⟨0, .tcp, [], true⟩, rfl⟩ _ rfl
  have hstatus := hopens.opened
  rw [portStatus_eq] at hstatus
  exact absurd (EStateM.Result.ok.inj hstatus).1 (by decide)

end KgCpp.Windows.Firewall
