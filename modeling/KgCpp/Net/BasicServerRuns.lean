import KgCpp.Net.BasicServer

/-!
# Runs of a server object

A program constructs a server, by either constructor and with whatever outcome,
and then calls `run`, `stop` and `join` in some order. Between its calls the
accept handler runs, and connections come and go: here each call and each handler
is one step (`ServerCalls` has the handler between the statements of `stop`).

`stop` empties the members that `run` needs, and the error code constructor
leaves an object behind that never had them; `run` looks at neither. A server that
is `Usable` has them, and `construct_spec` says when construction leaves one.
-/

namespace KgCpp.Net.BasicServer

open Lib

/-- A call of the program, the accept handler, or a change of a service's count
of clients. -/
inductive Call where
  | run (attempts : List Attempt) (thread : StepResult)
  | runEc (attempts : List Attempt) (thread : StepResult)
  | stop
  | join
  | accepted (attempts : List Attempt)
  | clients (i n : Nat)
deriving DecidableEq, Repr

/-- One call. -/
def step (s : BasicServer) : Call → BasicServer × Outcome
  | .run attempts thread => s.start attempts thread
  | .runEc attempts thread => s.startEc attempts thread
  | .stop => (s.stop, .returned)
  | .join => (s, .returned)
  | .accepted attempts => s.postAcceptHandler attempts
  | .clients i n => ({ s with services := s.services.set i ⟨n⟩ }, .returned)

/-- The server has an acceptor, and a service where it looks for one. -/
def Usable (s : BasicServer) : Prop := s.acceptor = true ∧ s.pos < s.services.length

instance (s : BasicServer) : Decidable s.Usable := by
  unfold Usable
  infer_instance

/-- The call is one of `run` and `run(ec)`. -/
def Call.isRun : Call → Bool
  | .run _ _ => true
  | .runEc _ _ => true
  | _ => false

theorem Call.of_isRun {c : Call} (h : c.isRun = true) :
    ∃ attempts thread, c = .run attempts thread ∨ c = .runEc attempts thread := by
  cases c with
  | run attempts thread => exact ⟨attempts, thread, .inl rfl⟩
  | runEc attempts thread => exact ⟨attempts, thread, .inr rfl⟩
  | _ => cases h

/-! ## Choosing a service and posting -/

theorem leastLoaded_lt {services : List Service} (h : services ≠ []) (min : Nat) :
    (leastLoaded services min).2 < services.length := by
  have hpos : 0 < services.length := List.length_pos_of_ne_nil h
  rw [leastLoaded]
  -- the place is 0 at first, and then one of those the loop looks at
  refine List.foldlRecOn (motive := fun acc : Nat × Nat => acc.2 < services.length) _ _ hpos ?_
  intro acc hacc i hi
  dsimp only
  split
  · have := (List.mem_range'_1.mp hi).2
    omega
  · exact hacc

/-- `get_service` chooses a service there is, and leaves the server usable. -/
theorem getService_of_lt {s : BasicServer} (h : s.pos < s.services.length) :
    ∃ i flag pos, s.getService = .ok (i, { s with flag := flag, pos := pos }) ∧
      i < s.services.length ∧ pos < s.services.length := by
  have hne : s.services ≠ [] := List.ne_nil_of_length_pos (by omega)
  rw [getService, List.getElem?_eq_getElem h]
  dsimp only
  split
  · exact ⟨_, _, _, rfl, h, h⟩
  · exact ⟨_, _, _, rfl, leastLoaded_lt hne _, leastLoaded_lt hne _⟩

theorem getService_of_le {s : BasicServer} (h : s.services.length ≤ s.pos) :
    s.getService = .error .badIndex := by
  rw [getService, List.getElem?_eq_none h]

/-- A usable server posts an accept, after however many attempts. -/
theorem postAccept_usable {s : BasicServer} (h : s.Usable) (attempts : List Attempt) :
    ∃ flag pos, s.postAccept attempts = .ok { s with flag := flag, pos := pos } ∧
      pos < s.services.length := by
  induction attempts generalizing s with
  | nil =>
    obtain ⟨i, flag, pos, hget, -, hpos⟩ := getService_of_lt h.2
    rw [postAccept, hget]
    exact ⟨flag, pos, if_pos h.1, hpos⟩
  | cons attempt attempts ih =>
    obtain ⟨i, flag, pos, hget, -, hpos⟩ := getService_of_lt h.2
    obtain ⟨flag', pos', hpost, hpos'⟩ :=
      ih (s := { s with flag := flag, pos := pos }) ⟨h.1, hpos⟩
    rw [postAccept, hget]
    cases attempt with
    | socket => exact ⟨flag', pos', hpost, hpos'⟩
    | asyncAccept => exact ⟨flag', pos', (if_pos h.1).trans hpost, hpos'⟩

/-- A server that is not usable runs into undefined behaviour. -/
theorem postAccept_unusable {s : BasicServer} (h : ¬ s.Usable) (attempts : List Attempt) :
    ∃ u, s.postAccept attempts = .error u := by
  by_cases hpos : s.pos < s.services.length
  · -- there is a service, so it is the acceptor that is missing
    have hacc : s.acceptor = false := by
      cases ha : s.acceptor with
      | false => rfl
      | true => exact absurd ⟨ha, hpos⟩ h
    induction attempts generalizing s with
    | nil =>
      obtain ⟨i, flag, pos, hget, -, -⟩ := getService_of_lt hpos
      rw [postAccept, hget]
      exact ⟨.nullAcceptor, if_neg (by rw [hacc]; decide)⟩
    | cons attempt attempts ih =>
      obtain ⟨i, flag, pos, hget, -, hpos'⟩ := getService_of_lt hpos
      rw [postAccept, hget]
      cases attempt with
      | socket =>
        refine ih (s := { s with flag := flag, pos := pos }) (fun h' => ?_) hpos' hacc
        rw [Usable, hacc] at h'
        cases h'.1
      | asyncAccept => exact ⟨.nullAcceptor, if_neg (by rw [hacc]; decide)⟩
  · have hget := getService_of_le (Nat.le_of_not_lt hpos)
    cases attempts with
    | nil => exact ⟨.badIndex, by rw [postAccept, hget]⟩
    | cons attempt attempts => exact ⟨.badIndex, by rw [postAccept, hget]⟩

/-! ## One call -/

/-- `run` on a usable server that does not run: it runs afterwards, whatever
becomes of the thread. -/
theorem start_usable {s : BasicServer} (h : s.Usable) (hrun : s.run = false)
    (attempts : List Attempt) (thread : StepResult) :
    (s.start attempts thread).1.run = true ∧ (s.start attempts thread).1.Usable ∧
      ∀ u, (s.start attempts thread).2 ≠ .undefined u := by
  obtain ⟨flag, pos, hpost, hpos⟩ := postAccept_usable h attempts
  rw [start, hrun, if_neg (by decide), hpost]
  cases thread with
  | done => exact ⟨rfl, ⟨h.1, hpos⟩, fun u hu => by cases hu⟩
  | badAlloc => exact ⟨rfl, ⟨h.1, hpos⟩, fun u hu => by cases hu⟩
  | systemError ev => exact ⟨rfl, ⟨h.1, hpos⟩, fun u hu => by cases hu⟩

theorem start_unusable {s : BasicServer} (h : ¬ s.Usable) (hrun : s.run = false)
    (attempts : List Attempt) (thread : StepResult) :
    ∃ u, (s.start attempts thread).2 = .undefined u := by
  obtain ⟨u, hpost⟩ := postAccept_unusable h attempts
  rw [start, hrun, if_neg (by decide), hpost]
  exact ⟨u, rfl⟩

/-- `run(ec)` is `run`, but for how it tells an error. -/
theorem startEc_eq (s : BasicServer) (attempts : List Attempt) (thread : StepResult) :
    (s.startEc attempts thread).1 = (s.start attempts thread).1 ∧
      ∀ u, (s.startEc attempts thread).2 = .undefined u ↔
        (s.start attempts thread).2 = .undefined u := by
  rw [startEc]
  split
  · rename_i e hthrew
    rw [hthrew]
    exact ⟨rfl, fun u => ⟨(fun h => by cases h), fun h => by cases h⟩⟩
  · exact ⟨rfl, fun u => Iff.rfl⟩

/-! ## What construction leaves -/

/-- Construction gets as far as an acceptor and a first service. -/
def Builds (laddr : List Char) (env : Environment) : Prop :=
  (∃ find, findLastOf laddr ':' = some find ∧ port env laddr find ≠ 0) ∧
    env.service = .done ∧ env.acceptor = .done ∧ 0 < env.hardwareConcurrency ∧
    env.object 0 = .done ∧ env.work 0 = .done ∧ env.thread 0 = .done ∧ env.place 0 = .done

/-- A step of construction changes nothing, and goes on when it is done. -/
theorem ends_perform {r : StepResult} {s : BasicServer} :
    Ends (perform r) s (fun _ s' => s' = s ∧ r = .done) fun _ s' => s' = s ∧ r ≠ .done := by
  cases r with
  | done => exact ends_pure ⟨rfl, rfl⟩
  | badAlloc => exact ends_throw ⟨rfl, fun h => by cases h⟩
  | systemError ev => exact ends_throw ⟨rfl, fun h => by cases h⟩

/-- `s'` is `s` with services added, on which nobody is connected. -/
def Adds (s s' : BasicServer) : Prop :=
  ∃ more, (∀ x ∈ more, x.clients = 0) ∧ s' = { s with services := s.services ++ more }

theorem Adds.refl (s : BasicServer) : Adds s s :=
  ⟨[], fun _ h => (List.not_mem_nil h).elim, by rw [List.append_nil]⟩

theorem Adds.single (s : BasicServer) : Adds s { s with services := s.services ++ [⟨0⟩] } :=
  ⟨[⟨0⟩], fun _ h => by rw [List.mem_singleton.mp h], rfl⟩

theorem Adds.trans {s s' s'' : BasicServer} (h : Adds s s') (h' : Adds s' s'') :
    Adds s s'' := by
  obtain ⟨more, hidle, rfl⟩ := h
  obtain ⟨more', hidle', rfl⟩ := h'
  refine ⟨more ++ more', fun x hx => ?_, by rw [List.append_assoc]⟩
  exact (List.mem_append.mp hx).elim (hidle x) (hidle' x)

/-- Making one service, up to its place in the vector. -/
def initService (env : Environment) (i : Nat) : Action ServerThrown BasicServer Unit := do
  perform (env.object i)
  perform (env.work i)
  perform (env.thread i)
  perform (env.place i)

/-- The `i`-th service can be made. -/
def ServiceBuilds (env : Environment) (i : Nat) : Prop :=
  env.object i = .done ∧ env.work i = .done ∧ env.thread i = .done ∧ env.place i = .done

theorem ends_initService (env : Environment) (i : Nat) (s : BasicServer) :
    Ends (initService env i) s (fun _ s' => s' = s ∧ ServiceBuilds env i)
      fun _ s' => s' = s ∧ ¬ ServiceBuilds env i := by
  refine ends_bind (ends_perform.mono (fun _ _ h => h)
    fun _ _ h => ⟨h.1, fun hb => h.2 hb.1⟩) ?_
  rintro _ _ ⟨rfl, h1⟩
  refine ends_bind (ends_perform.mono (fun _ _ h => h)
    fun _ _ h => ⟨h.1, fun hb => h.2 hb.2.1⟩) ?_
  rintro _ _ ⟨rfl, h2⟩
  refine ends_bind (ends_perform.mono (fun _ _ h => h)
    fun _ _ h => ⟨h.1, fun hb => h.2 hb.2.2.1⟩) ?_
  rintro _ _ ⟨rfl, h3⟩
  exact ends_perform.mono (fun _ _ h => ⟨h.1, h1, h2, h3, h.2⟩)
    fun _ _ h => ⟨h.1, fun hb => h.2 hb.2.2.2⟩

theorem initServices_succ (env : Environment) (i n : Nat) :
    initServices env i (n + 1) = initService env i >>= fun _ =>
      modify (fun s => { s with services := s.services ++ [⟨0⟩] }) >>= fun _ =>
        initServices env (i + 1) n := by
  simp only [initServices, initService, bind_assoc]

/-- Making services adds services and does nothing else. -/
theorem leaves_initServices (env : Environment) (i n : Nat) (s : BasicServer) :
    Leaves (initServices env i n) s (Adds s) := by
  induction n generalizing i s with
  | zero => exact ends_pure (.refl s)
  | succ n ih =>
    rw [initServices_succ]
    refine ends_bind ((ends_initService env i s).mono (fun _ _ h => h)
      fun _ _ h => h.1 ▸ .refl s) ?_
    rintro _ s ⟨rfl, -⟩
    refine ends_bind (ends_modify (Q := fun _ s' =>
      s' = { s with services := s.services ++ [⟨0⟩] }) rfl) ?_
    rintro _ _ rfl
    have hadds := Adds.single s
    exact (ih (i + 1) _).mono (fun _ _ h => hadds.trans h) fun _ _ h => hadds.trans h

/-- A step of construction keeps what holds. -/
theorem leaves_perform {P : BasicServer → Prop} {s : BasicServer} (h : P s) (r : StepResult) :
    Leaves (perform r) s P :=
  ends_perform.mono (fun _ _ h' => h'.1 ▸ h) fun _ _ h' => h'.1 ▸ h

/-- There is a service afterwards exactly when there is a first one to make, and
it can be made. -/
theorem leaves_services (env : Environment) (n : Nat) {s : BasicServer}
    (hs : s.services = []) :
    Leaves (initServices env 0 n) s fun s' =>
      Adds s s' ∧ (s'.services ≠ [] ↔ 0 < n ∧ ServiceBuilds env 0) := by
  cases n with
  | zero => exact ends_pure ⟨.refl s, fun h => absurd hs h, fun h => absurd h.1 (by decide)⟩
  | succ n =>
    rw [initServices_succ]
    refine ends_bind ((ends_initService env 0 s).mono (fun _ _ h => h) ?_) ?_
    · rintro _ _ ⟨rfl, hno⟩
      exact ⟨.refl _, fun h => absurd hs h, fun h => absurd h.2 hno⟩
    · rintro _ s ⟨rfl, hbuilds⟩
      refine ends_bind (ends_modify (Q := fun _ s' =>
        s' = { s with services := s.services ++ [⟨0⟩] }) rfl) ?_
      rintro _ _ rfl
      have hadds := Adds.single s
      have hpost : ∀ s', Adds { s with services := s.services ++ [⟨0⟩] } s' →
          Adds s s' ∧ (s'.services ≠ [] ↔ 0 < n + 1 ∧ ServiceBuilds env 0) := by
        intro s' h
        refine ⟨hadds.trans h, fun _ => ⟨Nat.succ_pos n, hbuilds⟩, fun _ => ?_⟩
        obtain ⟨more, -, rfl⟩ := h
        simp
      exact (leaves_initServices env 1 n _).mono (fun _ s' h => hpost s' h)
        fun _ s' h => hpost s' h

/-- Turning `std::bad_alloc` into an error code leaves the same state. -/
theorem leaves_orBadAlloc {x : Action ServerThrown BasicServer Unit} {s : BasicServer}
    {P : BasicServer → Prop} (h : Leaves x s P) : Leaves (orBadAlloc x) s P := by
  unfold Leaves Ends at h ⊢
  unfold orBadAlloc
  cases hx : x s with
  | ok a s' =>
    rw [hx] at h
    exact h
  | error e s' =>
    rw [hx] at h
    cases e <;> exact h

/-- The asio objects of a server that is blank. -/
theorem leaves_initAsio (env : Environment) (poll timeout : Nat) :
    Leaves (initAsio env) (blank poll timeout) fun s =>
      s.run = false ∧ (s.Usable ↔ env.service = .done ∧ env.acceptor = .done ∧
        0 < env.hardwareConcurrency ∧ ServiceBuilds env 0) := by
  refine ends_bind (ends_perform.mono (fun _ _ h => h) ?_) ?_
  · rintro _ _ ⟨rfl, hno⟩
    exact ⟨rfl, (fun h => by cases h.1), fun h => absurd h.1 hno⟩
  rintro _ _ ⟨rfl, hservice⟩
  refine ends_bind (ends_modify (Q := fun _ s' =>
    s' = { blank poll timeout with service := true }) rfl) ?_
  rintro _ _ rfl
  refine ends_bind (ends_perform.mono (fun _ _ h => h) ?_) ?_
  · rintro _ _ ⟨rfl, hno⟩
    exact ⟨rfl, (fun h => by cases h.1), fun h => absurd h.2.1 hno⟩
  rintro _ _ ⟨rfl, hacceptor⟩
  refine ends_bind (ends_modify (Q := fun _ s' =>
    s' = { blank poll timeout with service := true, acceptor := true }) rfl) ?_
  rintro _ _ rfl
  have hpost : ∀ s', Adds { blank poll timeout with service := true, acceptor := true } s' ∧
      (s'.services ≠ [] ↔ 0 < env.hardwareConcurrency ∧ ServiceBuilds env 0) →
      s'.run = false ∧ (s'.Usable ↔ env.service = .done ∧ env.acceptor = .done ∧
        0 < env.hardwareConcurrency ∧ ServiceBuilds env 0) := by
    rintro s' ⟨⟨more, -, rfl⟩, hne⟩
    refine ⟨rfl, ?_⟩
    rw [← List.length_pos_iff] at hne
    constructor
    · rintro ⟨-, hpos⟩
      exact ⟨hservice, hacceptor, hne.mp hpos⟩
    · rintro ⟨-, -, hmade⟩
      exact ⟨rfl, hne.mpr hmade⟩
  exact (leaves_services env env.hardwareConcurrency rfl).mono (fun _ s' h => hpost s' h)
    fun _ s' h => hpost s' h

theorem leaves_init (laddr : List Char) (env : Environment) (poll timeout : Nat) :
    Leaves (init laddr env) (blank poll timeout) fun s =>
      s.run = false ∧ (s.Usable ↔ Builds laddr env) := by
  have hblank : ¬ (blank poll timeout).Usable := fun h => by cases h.1
  unfold init
  split
  · rename_i hfind
    refine ends_throw ⟨rfl, fun h => absurd h hblank, ?_⟩
    rintro ⟨⟨find, hf, -⟩, -⟩
    rw [hfind] at hf
    cases hf
  · rename_i find hfind
    refine ends_ite (fun hport => ?_) fun hport => ?_
    · -- the port is 0, or no number
      refine ends_throw ⟨rfl, fun h => absurd h hblank, ?_⟩
      rintro ⟨⟨find', hf, hne⟩, -⟩
      rw [hfind] at hf
      cases hf
      exact absurd hport hne
    · have hpost : ∀ s : BasicServer, s.run = false ∧
          (s.Usable ↔ env.service = .done ∧ env.acceptor = .done ∧
            0 < env.hardwareConcurrency ∧ ServiceBuilds env 0) →
          s.run = false ∧ (s.Usable ↔ Builds laddr env) := fun s h =>
        ⟨h.1, fun hu => ⟨⟨find, hfind, hport⟩, h.2.mp hu⟩, fun hb => h.2.mpr hb.2⟩
      exact (leaves_orBadAlloc (leaves_initAsio env poll timeout)).mono (fun _ s h => hpost s h)
        fun _ s h => hpost s h

/-- `init` sets the asio objects and adds services on which nobody is connected, and
does nothing else. -/
theorem leaves_init_of {P : BasicServer → Prop} {poll timeout : Nat}
    (hblank : P (blank poll timeout))
    (hset : ∀ (s : BasicServer) (service acceptor : Bool) (services : List Service),
      (∀ x ∈ services, x ∈ s.services ∨ x.clients = 0) → P s →
      P { s with service := service, acceptor := acceptor, services := services })
    (laddr : List Char) (env : Environment) :
    Leaves (init laddr env) (blank poll timeout) P := by
  unfold init
  split
  · exact ends_throw hblank
  · refine ends_ite (fun _ => ends_throw hblank) fun _ => leaves_orBadAlloc ?_
    refine ends_bind (leaves_perform hblank _) fun _ s₁ h₁ => ?_
    refine ends_bind (ends_modify (Q := fun _ => P) (hset s₁ true _ _ (fun _ => .inl) h₁))
      fun _ s₂ h₂ => ?_
    refine ends_bind (leaves_perform h₂ _) fun _ s₃ h₃ => ?_
    refine ends_bind (ends_modify (Q := fun _ => P) (hset s₃ _ true _ (fun _ => .inl) h₃))
      fun _ s₄ h₄ => ?_
    have hadds : ∀ s', Adds s₄ s' → P s' := by
      rintro _ ⟨more, hidle, rfl⟩
      exact hset s₄ _ _ _ (fun x hx => (List.mem_append.mp hx).imp_right (hidle x)) h₄
    exact (leaves_initServices env 0 env.hardwareConcurrency s₄).mono (fun _ => hadds)
      fun _ => hadds

/-- What `init` leaves of a blank object holds of the live object of a construction. -/
theorem of_construct {P : BasicServer → Prop} {ctor : Constructor} {laddr : List Char}
    {poll timeout : Nat} {env : Environment} {s : BasicServer}
    (hinit : Leaves (init laddr env) (blank poll timeout) P)
    (h : (construct ctor laddr poll timeout env).1 = some s) : P s := by
  unfold Leaves Ends at hinit
  unfold construct at h
  cases hx : init laddr env (blank poll timeout) with
  | ok a s' =>
    rw [hx] at h hinit
    cases h
    exact hinit
  | error e s' =>
    rw [hx] at h hinit
    cases ctor with
    | throwing => cases h
    | errorCode =>
      cases h
      exact hinit

/-- The live object of a construction, however it went. -/
theorem construct_spec {ctor : Constructor} {laddr : List Char} {poll timeout : Nat}
    {env : Environment} {s : BasicServer}
    (h : (construct ctor laddr poll timeout env).1 = some s) :
    s.run = false ∧ (s.Usable ↔ Builds laddr env) :=
  of_construct (leaves_init laddr env poll timeout) h

/-- A host with `n` processors on which every step of construction is done. -/
def host (n : Nat) : Environment where
  lexicalCast digits := if digits = ['8', '0'] then some 80 else none
  service := .done
  acceptor := .done
  hardwareConcurrency := n
  object _ := .done
  work _ := .done
  thread _ := .done
  place _ := .done

end KgCpp.Net.BasicServer
