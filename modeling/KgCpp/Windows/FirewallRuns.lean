import KgCpp.Windows.FirewallCom

/-!
# Runs on a `firewall_t`

A program makes a `firewall_t`, calls its functions in any order, any of whose COM
calls may fail, and destroys it.

- `policy_run`: what the queries answer, at any moment, is determined by the calls
  before that returned: those that threw have changed nothing, nor have those that
  miss what they are for.
- `lifetime_balanced`: no pointer is ever used or given back that is not out; and
  when the object is gone every pointer to an interface has been given back, and
  every `BSTR` but one for each call that was given an empty name and came as far as
  looking at it.
-/

namespace KgCpp.Windows.Com

open Lib Owned
open Firewall (Protocol OpenPorts NewPort StatusFaults ComFaults sysAllocString)

/-- One call, with the COM calls that fail in it. -/
inductive Call where
  | isOn (failed : Bool)
  | turnOn (faults : SwitchFaults)
  | turnOff (faults : SwitchFaults)
  | appStatus (faults : AppStatusFaults) (path : List UInt16)
  | appAllow (faults : AppFaults) (fresh : NewApp) (name path : List UInt16)
  | appDisable (faults : AppFaults) (fresh : NewApp) (name path : List UInt16)
  | appRemove (faults : RemoveFaults) (path : List UInt16)
  | portStatus (faults : StatusFaults) (itemFails : Bool) (port : Int32) (protocol : Protocol)
  | portAllow (faults : ComFaults) (itemFails : Bool) (fresh : NewPort) (name : List UInt16)
      (port : Int32) (protocol : Protocol)

section Calls

variable {κ : Type} [DecidableEq κ] (key : List UInt16 → κ)

/-- The function that is called; a query answers something. -/
def Call.act (profile : Handle Pointer) : Call → ComAction κ (Option Bool)
  | .isOn failed => do
    let on ← Com.isOn profile failed
    pure (some on)
  | .turnOn faults => do
    Com.turnOn profile faults
    pure none
  | .turnOff faults => do
    Com.turnOff profile faults
    pure none
  | .appStatus faults path => do
    let yes ← Com.appStatus profile key faults path
    pure (some yes)
  | .appAllow faults fresh name path => do
    Com.appAllow profile key faults fresh name path
    pure none
  | .appDisable faults fresh name path => do
    Com.appDisable profile key faults fresh name path
    pure none
  | .appRemove faults path => do
    Com.appRemove profile key faults path
    pure none
  | .portStatus faults itemFails port protocol => do
    let yes ← Com.portStatus profile faults itemFails port protocol
    pure (some yes)
  | .portAllow faults itemFails fresh name port protocol => do
    Com.portAllow profile faults itemFails fresh name port protocol
    pure none

/-- One call, as a machine step. -/
def step (profile : Handle Pointer) (s : Owned Pointer (Rules κ)) (c : Call) :
    Owned Pointer (Rules κ) × Except ComError (Option Bool) :=
  match c.act key profile s with
  | .ok a s' => (s', .ok a)
  | .error e s' => (s', .error e)

/-! ## The policy -/

/-- What the firewall lets through: nothing stops it when it is off, and these
programs and ports are allowed. -/
structure Policy (κ : Type) where
  on : Bool
  programs : κ → Bool
  ports : Firewall.Key → Bool

omit [DecidableEq κ] in
/-- The policy that the rules are. -/
def Rules.policy (r : Rules κ) : Policy κ :=
  ⟨r.enabled, fun k => r.apps k == some true, fun k => r.ports k == some true⟩

/-- What a call is for: the policy it is to make. -/
def Call.rule (c : Call) (q : Policy κ) : Policy κ :=
  match c with
  | .turnOn _ => { q with on := true }
  | .turnOff _ => { q with on := false }
  | .appAllow _ _ _ path =>
    { q with programs := Function.update q.programs (key (sysAllocString false path)) true }
  | .appDisable _ _ _ path =>
    { q with programs := Function.update q.programs (key (sysAllocString false path)) false }
  | .appRemove _ path =>
    { q with programs := Function.update q.programs (key (sysAllocString false path)) false }
  | .portAllow _ _ _ _ port protocol =>
    { q with ports := Function.update q.ports (port, protocol) true }
  | _ => q

omit [DecidableEq κ] in
/-- What a query is to answer. -/
def Call.answer (c : Call) (q : Policy κ) : Option Bool :=
  match c with
  | .isOn _ => some q.on
  | .appStatus _ path => some (q.programs (key (sysAllocString false path)))
  | .portStatus _ _ port protocol => some (q.ports (port, protocol))
  | _ => none

omit [DecidableEq κ] in
/-- A call misses what it is for: `Item` fails for what is allowed, in a query or in
`app_disable`; or `port_allow` finds the number of its protocol open, as a port for
any protocol, and the port it is to open shut. -/
def Call.misses (c : Call) (q : Policy κ) : Bool :=
  match c with
  | .appStatus faults path => faults.item && q.programs (key (sysAllocString false path))
  | .appDisable faults _ _ path =>
    faults.status.item && q.programs (key (sysAllocString false path))
  | .portStatus _ itemFails port protocol => itemFails && q.ports (port, protocol)
  | .portAllow _ itemFails _ _ port protocol =>
    !itemFails && q.ports (protocol.toLong, .any) && !q.ports (port, protocol)
  | _ => false

/-- The policy that a call makes which returns: the one it found, when it misses. -/
def Call.makes (c : Call) (q : Policy κ) : Policy κ := if c.misses key q then q else c.rule key q

omit [DecidableEq κ] in
/-- What a call answers that returns: no, when it misses. -/
def Call.says (c : Call) (q : Policy κ) : Option Bool :=
  if c.misses key q then (c.answer key q).map fun _ => false else c.answer key q

/-- A call misses exactly when it makes another policy than it is for, or answers
otherwise. -/
theorem misses_iff (c : Call) (q : Policy κ) :
    c.misses key q = true ↔ c.makes key q ≠ c.rule key q ∨ c.says key q ≠ c.answer key q := by
  constructor
  · intro h
    rw [Call.makes, Call.says, if_pos h, if_pos h]
    cases c with
    | appStatus faults path =>
      obtain ⟨-, hallowed⟩ := Bool.and_eq_true_iff.mp h
      exact .inr fun heq => by
        rw [Call.answer, hallowed] at heq
        cases heq
    | appDisable faults fresh name path =>
      obtain ⟨-, hallowed⟩ := Bool.and_eq_true_iff.mp h
      refine .inl fun heq => ?_
      have hk := congrArg (fun q : Policy κ => q.programs (key (sysAllocString false path))) heq
      dsimp only [Call.rule] at hk
      rw [hallowed, Function.update_self] at hk
      cases hk
    | portStatus faults itemFails port protocol =>
      obtain ⟨-, hallowed⟩ := Bool.and_eq_true_iff.mp h
      exact .inr fun heq => by
        rw [Call.answer, hallowed] at heq
        cases heq
    | portAllow faults itemFails fresh name port protocol =>
      obtain ⟨-, hshut⟩ := Bool.and_eq_true_iff.mp h
      refine .inl fun heq => ?_
      have hk := congrArg (fun q : Policy κ => !q.ports (port, protocol)) heq
      dsimp only [Call.rule] at hk
      rw [hshut, Function.update_self] at hk
      cases hk
    | _ => cases h
  · intro h
    by_contra hno
    exact h.elim (· (if_neg hno)) (· (if_neg hno))

/-- The policy after a call with this result. -/
def after (q : Policy κ) (x : Call × Except ComError (Option Bool)) : Policy κ :=
  match x.2 with
  | .ok _ => x.1.makes key q
  | .error _ => q

/-- The policy after calls with these results. -/
def replay (q : Policy κ) (calls : List Call) (outs : List (Except ComError (Option Bool))) :
    Policy κ :=
  (calls.zip outs).foldl (after key) q

end Calls

/-- A call that threw `e` has lost a `BSTR`. -/
def Call.Leaks (c : Call) (e : ComError) : Prop :=
  match c with
  | .appAllow faults _ name _ => AppLeaks faults name e
  | .appDisable faults _ name _ => AppLeaks faults name e
  | .portAllow faults _ _ name _ _ => PortLeaks faults name e
  | _ => False

instance (faults : AppFaults) (name : List UInt16) (e : ComError) :
    Decidable (AppLeaks faults name e) := by
  unfold AppLeaks
  infer_instance

instance (faults : ComFaults) (name : List UInt16) (e : ComError) :
    Decidable (PortLeaks faults name e) := by
  unfold PortLeaks
  infer_instance

instance (c : Call) (e : ComError) : Decidable (c.Leaks e) := by
  cases c <;> unfold Call.Leaks <;> infer_instance

/-- A call with this result has lost a `BSTR`. -/
def leaked (x : Call × Except ComError (Option Bool)) : Bool :=
  match x.2 with
  | .ok _ => false
  | .error e => x.1.Leaks e

/-- How many of the calls have lost a `BSTR`. -/
def leaks (calls : List Call) (outs : List (Except ComError (Option Bool))) : Nat :=
  (calls.zip outs).countP leaked

section Act

variable {κ : Type} [DecidableEq κ] {key : List UInt16 → κ} {r : Rules κ}
  {m : Multiset Pointer} {s : Owned Pointer (Rules κ)} {p : Pointer}

/-- What a call that returns leaves: the policy it makes of the one it found. -/
def Returned (key : List UInt16 → κ) (r : Rules κ) (m : Multiset Pointer) (c : Call)
    (a : Option Bool) (s' : Owned Pointer (Rules κ)) : Prop :=
  ∃ r', Held r' m [] s' ∧ r'.policy = c.makes key r.policy ∧ a = c.says key r.policy

/-- A table that is asked whether an entry is enabled. -/
theorem update_beq {α : Type} [DecidableEq α] (t : α → Option Bool) (k : α) (v : Option Bool) :
    (fun k' => Function.update t k v k' == some true) =
      Function.update (fun k' => t k' == some true) k (v == some true) := by
  funext k'
  by_cases hk : k' = k
  · rw [hk, Function.update_self, Function.update_self]
  · rw [Function.update_of_ne hk, Function.update_of_ne hk]

theorem policy_update_apps (r : Rules κ) (k : κ) (v : Option Bool) :
    Rules.policy { r with apps := Function.update r.apps k v } =
      { r.policy with programs := Function.update r.policy.programs k (v == some true) } := by
  unfold Rules.policy
  rw [update_beq]

omit [DecidableEq κ] in
/-- Whether `Item` finds an enabled entry. -/
theorem item_beq (itemFails : Bool) (entry : Option Bool) :
    (item itemFails entry == some true) = (!itemFails && entry == some true) := by
  cases itemFails <;> rfl

theorem policy_allowPort (r : Rules κ) (faults : ComFaults) (itemFails : Bool) (fresh : NewPort)
    (name : List UInt16) (port : Int32) (protocol : Protocol) :
    (r.allowPort itemFails port protocol).policy =
      (Call.portAllow faults itemFails fresh name port protocol).makes key r.policy := by
  have hany := item_beq itemFails (r.ports (protocol.toLong, .any))
  have hupdate : Rules.policy { r with
      ports := Function.update r.ports (port, protocol) (some true) } =
        { r.policy with ports := Function.update r.policy.ports (port, protocol) true } := by
    unfold Rules.policy
    rw [update_beq]
    rfl
  have hmakes : (Call.portAllow faults itemFails fresh name port protocol).makes key r.policy =
      if (!itemFails && r.policy.ports (protocol.toLong, .any) &&
        !r.policy.ports (port, protocol)) = true then r.policy
      else { r.policy with ports := Function.update r.policy.ports (port, protocol) true } := rfl
  rw [hmakes, Rules.allowPort]
  by_cases hfound : item itemFails (r.ports (protocol.toLong, .any)) = some true
  · -- it returns early, and that is right when the port is open
    have hopen : (!itemFails && r.policy.ports (protocol.toLong, .any)) = true :=
      hany.symm.trans (beq_iff_eq.mpr hfound)
    rw [if_pos hfound, hopen, Bool.true_and]
    cases hport : r.policy.ports (port, protocol) with
    | true => rw [if_neg (by simp), ← hport, Function.update_eq_self]
    | false => rfl
  · have hshut : (!itemFails && r.policy.ports (protocol.toLong, .any)) = false :=
      hany.symm.trans (beq_eq_false_iff_ne.mpr hfound)
    rw [if_neg hfound, hshut, Bool.false_and, hupdate]
    rfl

theorem policy_disableApp (r : Rules κ) (faults : AppFaults) (fresh : NewApp)
    (name path : List UInt16) :
    (r.disableApp faults.status.item (key (sysAllocString false path))).policy =
      (Call.appDisable faults fresh name path).makes key r.policy := by
  generalize hk : key (sysAllocString false path) = k
  have hitem := item_beq faults.status.item (r.apps k)
  have hmakes : (Call.appDisable faults fresh name path).makes key r.policy =
      if (faults.status.item && r.policy.programs k) = true then r.policy
      else { r.policy with programs := Function.update r.policy.programs k false } := by
    rw [← hk]
    rfl
  rw [hmakes, Rules.disableApp]
  by_cases hfound : item faults.status.item (r.apps k) = some true
  · have hpresent : faults.status.item = false := by
      cases hfails : faults.status.item with
      | false => rfl
      | true =>
        rw [hfails] at hfound
        cases hfound
    rw [if_pos hfound, hpresent, policy_update_apps]
    rfl
  · rw [if_neg hfound]
    cases hallowed : r.policy.programs k with
    | true =>
      -- `Item` has failed
      have hfails : faults.status.item = true := by
        rw [beq_eq_false_iff_ne.mpr hfound] at hitem
        have hentry : (r.apps k == some true) = true := hallowed
        rw [hentry] at hitem
        simpa using hitem.symm
      rw [hfails]
      rfl
    | false =>
      -- it was not allowed before
      rw [Bool.and_false, if_neg (by simp), ← hallowed, Function.update_eq_self]

/-- What a query that may miss an entry answers. -/
theorem says_of_item (itemFails : Bool) (entry : Option Bool) :
    some (item itemFails entry == some true) =
      if (itemFails && entry == some true) = true then
        (some (entry == some true)).map fun _ => false
      else some (entry == some true) := by
  rw [item_beq]
  cases itemFails <;> cases entry == some true <;> rfl

/-- A call and what it leaves. -/
theorem ends_act (c : Call) (hp : p ∈ m) (h : Held r m [] s) :
    Ends (c.act key (some p)) s (Returned key r m c) fun e s' => Closed (c.Leaks e) r m s' := by
  have hundone : ∀ e s', Undone r m e s' → Closed False r m s' := fun _ _ h' =>
    closed_of_held id h'
  cases c with
  | isOn failed =>
    refine ends_bind ((ends_isOn hp failed h).mono (fun _ _ hQ => hQ) hundone) ?_
    rintro on s' ⟨rfl, h'⟩
    exact ends_pure ⟨r, h', rfl, rfl⟩
  | turnOn faults =>
    refine ends_bind ((ends_turnOn hp faults h).mono (fun _ _ hQ => hQ) hundone) fun _ s' h' => ?_
    exact ends_pure ⟨_, h', rfl, rfl⟩
  | turnOff faults =>
    refine ends_bind ((ends_turnOff hp faults h).mono (fun _ _ hQ => hQ) hundone) fun _ s' h' => ?_
    exact ends_pure ⟨_, h', rfl, rfl⟩
  | appStatus faults path =>
    refine ends_bind ((ends_appStatus hp faults path h).mono (fun _ _ hQ => hQ)
      fun e s' hE => hundone e s' hE.2) ?_
    rintro yes s' ⟨rfl, h'⟩
    exact ends_pure ⟨r, h', (ite_self _).symm, says_of_item ..⟩
  | appAllow faults fresh name path =>
    refine ends_bind (ends_appAllow hp faults fresh name path h) fun _ s' h' => ?_
    exact ends_pure ⟨_, h', policy_update_apps r _ _, rfl⟩
  | appDisable faults fresh name path =>
    refine ends_bind (ends_appDisable hp faults fresh name path h) fun _ s' h' => ?_
    exact ends_pure ⟨_, h', policy_disableApp r faults fresh name path, (ite_self _).symm⟩
  | appRemove faults path =>
    refine ends_bind ((ends_appRemove hp faults path h).mono (fun _ _ hQ => hQ) hundone)
      fun _ s' h' => ?_
    exact ends_pure ⟨_, h', policy_update_apps r _ _, rfl⟩
  | portStatus faults itemFails port protocol =>
    refine ends_bind ((ends_portStatus hp faults itemFails port protocol h).mono
      (fun _ _ hQ => hQ) fun e s' hE => hundone e s' hE.2) ?_
    rintro yes s' ⟨rfl, h'⟩
    exact ends_pure ⟨r, h', (ite_self _).symm, says_of_item ..⟩
  | portAllow faults itemFails fresh name port protocol =>
    refine ends_bind (ends_portAllow hp faults itemFails fresh name port protocol h)
      fun _ s' h' => ?_
    exact ends_pure ⟨_, h', policy_allowPort r faults itemFails fresh name port protocol,
      (ite_self _).symm⟩

end Act

/-! ## Runs -/

section Runs

variable {κ : Type} [DecidableEq κ] {key : List UInt16 → κ} {m : Multiset Pointer} {p : Pointer}

/-- What calls with these results leave, on a firewall with the policy `q` and with
the pointers in `m` out: the policy they make, the answers it gave, and a `BSTR` lost
for each of them that loses one. -/
structure Accounts (key : List UInt16 → κ) (q : Policy κ) (m : Multiset Pointer)
    (calls : List Call) (outs : List (Except ComError (Option Bool)))
    (s : Owned Pointer (Rules κ)) : Prop where
  length : outs.length = calls.length
  policy : s.state.policy = replay key q calls outs
  answers : ∀ (n : Nat) (c : Call) (a : Option Bool), calls[n]? = some c →
    outs[n]? = some (.ok a) → a = c.says key (replay key q (calls.take n) (outs.take n))
  live : ∃ lost : Multiset Nat, s.live = lost.map .bstr + m ∧ lost.card = leaks calls outs
  fair : s.misused = false

theorem replay_concat {q : Policy κ} {calls : List Call}
    {outs : List (Except ComError (Option Bool))} (hlen : outs.length = calls.length) (c : Call)
    (out : Except ComError (Option Bool)) :
    replay key q (calls ++ [c]) (outs ++ [out]) = after key (replay key q calls outs) (c, out) := by
  rw [replay, List.zip_append hlen.symm, List.foldl_append]
  rfl

theorem leaks_concat {calls : List Call} {outs : List (Except ComError (Option Bool))}
    (hlen : outs.length = calls.length) (c : Call) (out : Except ComError (Option Bool)) :
    leaks (calls ++ [c]) (outs ++ [out]) = leaks calls outs + if leaked (c, out) then 1 else 0 := by
  rw [leaks, List.zip_append hlen.symm, List.countP_append]
  exact congrArg _ (List.countP_singleton ..)

/-- The results of the calls before stay what they were. -/
theorem Accounts.answers_concat {q : Policy κ} {calls : List Call}
    {outs : List (Except ComError (Option Bool))} {s : Owned Pointer (Rules κ)}
    (h : Accounts key q m calls outs s) (c : Call) (out : Except ComError (Option Bool))
    (hout : ∀ a : Option Bool, out = .ok a → a = c.says key (replay key q calls outs)) :
    ∀ (n : Nat) (c' : Call) (a : Option Bool), (calls ++ [c])[n]? = some c' →
      (outs ++ [out])[n]? = some (.ok a) →
      a = c'.says key (replay key q ((calls ++ [c]).take n) ((outs ++ [out]).take n)) := by
  intro n c' a hc ha
  rcases Nat.lt_trichotomy n calls.length with hlt | rfl | hgt
  · rw [List.getElem?_append_left hlt] at hc
    rw [List.getElem?_append_left (by rw [h.length]; exact hlt)] at ha
    rw [List.take_append_of_le_length hlt.le,
      List.take_append_of_le_length (by rw [h.length]; exact hlt.le)]
    exact h.answers n c' a hc ha
  · rw [List.getElem?_concat_length] at hc
    rw [← h.length, List.getElem?_concat_length] at ha
    cases hc
    rw [List.take_left, ← h.length, List.take_left]
    exact hout a (Option.some.inj ha)
  · rw [List.getElem?_eq_none (by rw [List.length_append, List.length_singleton]; omega)] at hc
    cases hc

/-- One call more. -/
theorem Accounts.step {q : Policy κ} {calls : List Call}
    {outs : List (Except ComError (Option Bool))} {s : Owned Pointer (Rules κ)}
    (h : Accounts key q m calls outs s) (hp : p ∈ m) (c : Call) :
    Accounts key q m (calls ++ [c]) (outs ++ [(Com.step key (some p) s c).2])
      (Com.step key (some p) s c).1 := by
  obtain ⟨lost, hlive, hcard⟩ := h.live
  have hlength : (outs ++ [(Com.step key (some p) s c).2]).length = (calls ++ [c]).length := by
    rw [List.length_append, List.length_append, h.length]
    rfl
  have hheld : Held s.state (lost.map .bstr + m) [] s :=
    ⟨rfl, by rw [hlive]; exact (zero_add _).symm, h.fair⟩
  have hends : Ends (c.act key (some p)) s _ _ :=
    ends_act c (Multiset.mem_add.mpr (.inr hp)) hheld
  unfold Ends at hends
  unfold Com.step at hlength ⊢
  generalize c.act key (some p) s = result at hends hlength ⊢
  cases result with
  | ok a s' =>
    obtain ⟨r', h', hpolicy, hanswer⟩ := hends
    rw [h.policy] at hpolicy hanswer
    dsimp only at hlength ⊢
    refine ⟨hlength, ?_, h.answers_concat c (.ok a) fun a' ha => ?_, ⟨lost, ?_, ?_⟩, h'.fair⟩
    · rw [replay_concat h.length, h'.state, hpolicy]
      rfl
    · cases ha
      exact hanswer
    · rw [h'.live]
      exact zero_add _
    · rw [leaks_concat h.length, hcard]
      rfl
  | error e s' =>
    dsimp only at hlength ⊢
    -- what was thrown has changed nothing
    have hpolicy : ∀ {hs}, Held s.state (lost.map .bstr + m) hs s' →
        s'.state.policy = replay key q (calls ++ [c]) (outs ++ [.error e]) := fun h' => by
      rw [replay_concat h.length, h'.state, h.policy]
      rfl
    have hanswers := h.answers_concat c (.error e) fun a' ha => by cases ha
    rcases hends with ⟨hnone, h'⟩ | ⟨hone, x, h'⟩
    · refine ⟨hlength, hpolicy h', hanswers, ⟨lost, ?_, ?_⟩, h'.fair⟩
      · rw [h'.live]
        exact zero_add _
      · rw [leaks_concat h.length, if_neg (by simpa [leaked] using hnone), hcard]
        rfl
    · refine ⟨hlength, hpolicy h', hanswers, ⟨x ::ₘ lost, ?_, ?_⟩, h'.fair⟩
      · rw [h'.live, Multiset.map_cons, Multiset.cons_add]
        exact Multiset.singleton_add (Pointer.bstr x) _
      · rw [leaks_concat h.length, if_pos (by simpa [leaked] using hone), Multiset.card_cons,
        hcard]

/-- However many calls are made. -/
theorem accounts_run {r : Rules κ} {s : Owned Pointer (Rules κ)} (hp : p ∈ m) (h : Held r m [] s)
    (calls : List Call) :
    Accounts key r.policy m calls (Lib.run (Com.step key (some p)) s calls).2
      (Lib.run (Com.step key (some p)) s calls).1 := by
  refine run_history (Com.step key (some p)) (fun _ => True)
    (fun calls outs s => Accounts key r.policy m calls outs s)
    (fun _ _ _ c h _ => h.step hp c) ⟨rfl, ?_, ?_, ⟨0, ?_, rfl⟩, h.fair⟩ calls fun _ _ => trivial
  · rw [h.state]
    rfl
  · intro n c a hc
    cases hc
  · rw [h.live, Multiset.map_zero]
    rfl

/-- The calls, one after the other. -/
def session (key : List UInt16 → κ) (profile : Handle Pointer) (calls : List Call) :
    ComAction κ (List (Except ComError (Option Bool))) := fun s =>
  .ok (Lib.run (Com.step key profile) s calls).2 (Lib.run (Com.step key profile) s calls).1

/-- A `firewall_t` from its constructor to its destructor. -/
def lifetime (key : List UInt16 → κ) (faults : ConstructFaults) (calls : List Call) :
    ComAction κ (List (Except ComError (Option Bool))) := do
  let profile ← construct faults
  let outs ← session key profile calls
  destroy profile
  pure outs

/-- What a whole lifetime leaves. -/
theorem ends_lifetime {r : Rules κ} {s : Owned Pointer (Rules κ)} (faults : ConstructFaults)
    (calls : List Call) (h : Held r m [] s) :
    Ends (lifetime key faults calls) s
      (fun outs s' => Accounts key r.policy m calls outs s') (Undone r m) := by
  refine ends_bind (ends_construct faults h) ?_
  rintro _ s₁ ⟨p, rfl, h₁⟩
  -- the profile is out with the others, and given back by the destructor
  have hheld : Held r (p ::ₘ m) [] s₁ :=
    ⟨h₁.state, h₁.live.trans ((Multiset.singleton_add p m).trans (zero_add _).symm), h₁.fair⟩
  have hrun : Accounts key r.policy (p ::ₘ m) calls _ _ :=
    accounts_run (Multiset.mem_cons_self p m) hheld calls
  obtain ⟨lost, hlive, hcard⟩ := hrun.live
  refine ends_bind_of_ok rfl ?_
  have hprofile : Held (Lib.run (Com.step key (some p)) s₁ calls).1.state
      (lost.map .bstr + m) [some p] (Lib.run (Com.step key (some p)) s₁ calls).1 :=
    ⟨rfl, hlive.trans ((Multiset.add_cons p _ m).trans (Multiset.singleton_add p _).symm),
      hrun.fair⟩
  refine ends_bind (ends_destroy hprofile) fun _ s₂ h₂ => ?_
  refine ends_pure ⟨hrun.length, ?_, hrun.answers, ⟨lost, h₂.live.trans (zero_add _), hcard⟩,
    h₂.fair⟩
  rw [h₂.state]
  exact hrun.policy

/-- Nothing that a call left undone is seen afterwards: the policy in the end, and what
each query answered, follow from the calls that returned. Each has made the policy it
is for, and answered what it is to, but for those that miss. -/
theorem policy_run {s : Owned Pointer (Rules κ)} (hs : s.misused = false) (faults : ConstructFaults)
    (calls : List Call) :
    Ends (lifetime key faults calls) s
      (fun outs s' => outs.length = calls.length ∧
        s'.state.policy = replay key s.state.policy calls outs ∧
        ∀ (n : Nat) (c : Call) (a : Option Bool), calls[n]? = some c →
          outs[n]? = some (.ok a) →
          a = c.says key (replay key s.state.policy (calls.take n) (outs.take n)))
      fun _ s' => s'.state = s.state := by
  have h : Held s.state s.live [] s := ⟨rfl, (zero_add _).symm, hs⟩
  exact (ends_lifetime faults calls h).mono
    (fun _ _ hrun => ⟨hrun.length, hrun.policy, hrun.answers⟩) fun _ _ h' => h'.state

end Runs

/-- Windows at first: the firewall is on and has no rules. -/
def windows : Owned Pointer (Rules (List UInt16)) :=
  ⟨⟨true, fun _ => none, fun _ => none⟩, 0, 0, false⟩

/-- Nothing fails in `port_allow`. -/
def noComFaults : ComFaults := ⟨⟨false, false⟩, false, false, false, false, false, false, false⟩

/-- Port 80 is allowed with an empty name, then with a name, and asked for, once when
`Item` fails. -/
def webServer : List Call :=
  [.portAllow noComFaults false ⟨⟨0, .tcp, [], true⟩, rfl⟩ [] 80 .tcp,
    .portAllow noComFaults false ⟨⟨0, .tcp, [], true⟩, rfl⟩ [119] 80 .tcp,
    .portStatus ⟨false, false⟩ true 80 .tcp, .portStatus ⟨false, false⟩ false 80 .tcp]

theorem policy_run_webServer :
    Ends (lifetime id ⟨false, false, false⟩ webServer) windows
      (fun outs s' => outs.length = webServer.length ∧
        s'.state.policy = replay id windows.state.policy webServer outs ∧
        ∀ (n : Nat) (c : Call) (a : Option Bool), webServer[n]? = some c →
          outs[n]? = some (.ok a) →
          a = c.says id (replay id windows.state.policy (webServer.take n) (outs.take n)))
      fun _ s' => s'.state = windows.state :=
  policy_run rfl ⟨false, false, false⟩ webServer

end KgCpp.Windows.Com
