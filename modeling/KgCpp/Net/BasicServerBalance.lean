import KgCpp.Lib.Least
import KgCpp.Net.BasicServerRuns

/-!
# Which service a connection gets

`get_service` looks for the service with the fewest clients. It starts from the
count of the service at `_pos`, but from the place 0, and does not look at the
count of the first service.

`balances_iff` says when the service it chooses has the fewest clients: when
`_pos` is 0, or the first service, which is not looked at, does not matter.
-/

namespace KgCpp.Net.BasicServer

open Lib

/-- The count of the service at `i`. -/
def load (s : BasicServer) (i : Nat) : Nat := (s.services.getD i ⟨0⟩).clients

/-- `get_service` returns a service with the fewest clients. -/
def Balances (s : BasicServer) : Prop :=
  ∃ i s', s.getService = .ok (i, s') ∧ i < s.services.length ∧
    ∀ j < s.services.length, s.load i ≤ s.load j

/-- The scan is not misled: it starts at the first service; or it comes across a
count below its start, and one that is not above the first; or it comes across
none, and the first service is as good as its start. -/
def ScansAll (s : BasicServer) : Prop :=
  s.pos = 0 ∨
    ((∃ i, 0 < i ∧ i < s.services.length ∧ s.load i < s.load s.pos) ∧
      ∃ i, 0 < i ∧ i < s.services.length ∧ s.load i ≤ s.load 0) ∨
    ((∀ i, 0 < i → i < s.services.length → s.load s.pos ≤ s.load i) ∧
      s.load 0 ≤ s.load s.pos)

/-- The loop of `get_service` is a scan. -/
theorem leastLoaded_eq (services : List Service) (min : Nat) :
    leastLoaded services min = scanLeast (fun i => (services.getD i ⟨0⟩).clients) (min, 0)
      (List.range' 1 (services.length - 1)) := by
  unfold leastLoaded
  generalize ((min, 0) : Nat × Nat) = best
  generalize List.range' 1 (services.length - 1) = is
  induction is generalizing best with
  | nil => rfl
  | cons i is ih => exact ih _

section Choice

variable {s : BasicServer}

/-- The places the loop looks at. -/
theorem mem_scanned {i : Nat} :
    i ∈ List.range' 1 (s.services.length - 1) ↔ 0 < i ∧ i < s.services.length := by
  rw [List.mem_range'_1]
  omega

/-- What `get_service` chooses when a block starts: the first service when no
later one has fewer clients than the one at `_pos`, else the one among the later
ones with the fewest. -/
theorem getService_zero (hpos : s.pos < s.services.length) (hflag : s.flag = 0) :
    ∃ i s', s.getService = .ok (i, s') ∧
      ((i = 0 ∧ ∀ j, 0 < j → j < s.services.length → s.load s.pos ≤ s.load j) ∨
        (0 < i ∧ i < s.services.length ∧ s.load i < s.load s.pos ∧
          ∀ j, 0 < j → j < s.services.length → s.load i ≤ s.load j)) := by
  have hcurrent : s.services[s.pos].clients = s.load s.pos := by
    rw [load, List.getD, List.getElem?_eq_getElem hpos, Option.getD_some]
  refine ⟨(leastLoaded s.services s.services[s.pos].clients).2, _, by
    rw [getService, List.getElem?_eq_getElem hpos, hflag]
    exact if_neg fun h => h rfl, ?_⟩
  rw [hcurrent, leastLoaded_eq]
  have hle : ∀ j, 0 < j → j < s.services.length →
      (scanLeast s.load (s.load s.pos, 0) (List.range' 1 (s.services.length - 1))).1 ≤
        s.load j := fun j hj hlt => scanLeast_le _ (mem_scanned.mpr ⟨hj, hlt⟩)
  -- the place the scan starts with is 0, whatever `_pos` was
  rcases scanLeast_cases (f := s.load) (s.load s.pos, 0)
    (List.range' 1 (s.services.length - 1)) with hscan | ⟨i, hi, hscan, hlt⟩
  · rw [hscan] at hle
    exact .inl ⟨congrArg Prod.snd hscan, hle⟩
  · rw [hscan] at hle
    obtain ⟨hipos, hilen⟩ := mem_scanned.mp hi
    have hchosen : (scanLeast s.load (s.load s.pos, 0)
        (List.range' 1 (s.services.length - 1))).2 = i := congrArg Prod.snd hscan
    exact .inr (hchosen ▸ ⟨hipos, hilen, hlt, hle⟩)

theorem balances_iff_scansAll (hpos : s.pos < s.services.length) (hflag : s.flag = 0) :
    s.Balances ↔ s.ScansAll := by
  obtain ⟨i, s', hget, hchoice⟩ := getService_zero hpos hflag
  have hbalances : s.Balances ↔ ∀ j < s.services.length, s.load i ≤ s.load j := by
    constructor
    · rintro ⟨i', s'', hget', -, hleast⟩
      cases hget.symm.trans hget'
      exact hleast
    · refine fun hleast => ⟨i, s', hget, ?_, hleast⟩
      rcases hchoice with ⟨rfl, -⟩ | ⟨-, hlt, -⟩
      · omega
      · exact hlt
  rw [hbalances]
  rcases hchoice with ⟨rfl, hnone⟩ | ⟨hi, hlt, hbelow, hleast⟩
  · -- no later service has fewer clients than the one at `_pos`
    constructor
    · exact fun h => .inr (.inr ⟨hnone, h s.pos hpos⟩)
    · rintro (hzero | ⟨⟨j, hj, hlt, hbelow⟩, -⟩ | ⟨-, hfirst⟩) k hk
      · rcases Nat.eq_zero_or_pos k with rfl | hkpos
        · exact le_rfl
        · exact hzero ▸ hnone k hkpos hk
      · have := hnone j hj hlt
        omega
      · rcases Nat.eq_zero_or_pos k with rfl | hkpos
        · exact le_rfl
        · exact hfirst.trans (hnone k hkpos hk)
  · -- the chosen service has the fewest clients of the later ones
    constructor
    · exact fun h => .inr (.inl ⟨⟨i, hi, hlt, hbelow⟩, i, hi, hlt, h 0 (by omega)⟩)
    · rintro (hzero | ⟨-, j, hj, hjlt, hfirst⟩ | ⟨hnone, -⟩) k hk
      · rcases Nat.eq_zero_or_pos k with rfl | hkpos
        · exact hzero ▸ hbelow.le
        · exact hleast k hkpos hk
      · rcases Nat.eq_zero_or_pos k with rfl | hkpos
        · exact (hleast j hj hjlt).trans hfirst
        · exact hleast k hkpos hk
      · have := hnone i hi hlt
        omega

end Choice

/-! ## Runs -/

/-- The counts change. -/
def recount (s : BasicServer) (counts : Nat → Nat) : BasicServer :=
  { s with services := s.services.mapIdx fun i _ => ⟨counts i⟩ }

/-- The server after `get_service`. -/
def served (s : BasicServer) : BasicServer :=
  match s.getService with
  | .ok (_, s') => s'
  | .error _ => s

/-- `P` holds before every call of a run of `get_service`, before each of which
the counts change. -/
def Along (P : BasicServer → Prop) : BasicServer → List (Nat → Nat) → Prop
  | _, [] => True
  | s, counts :: turns => P (s.recount counts) ∧ Along P (s.recount counts).served turns

/-- Whenever a block starts, the service with the fewest clients is chosen. -/
def AlwaysBalances : BasicServer → List (Nat → Nat) → Prop :=
  Along fun s => s.flag = 0 → s.Balances

/-- Whenever a block starts, the scan is not misled. -/
def AlwaysScansAll : BasicServer → List (Nat → Nat) → Prop :=
  Along fun s => s.flag = 0 → s.ScansAll

@[simp] theorem length_recount (s : BasicServer) (counts : Nat → Nat) :
    (s.recount counts).services.length = s.services.length := by
  simp [recount]

theorem pos_served {s : BasicServer} (h : s.pos < s.services.length) :
    s.served.pos < s.served.services.length := by
  obtain ⟨i, flag, pos, hget, -, hpos⟩ := getService_of_lt h
  rw [served, hget]
  exact hpos

/-- What is the same in every state is the same along every run. -/
theorem along_congr {P Q : BasicServer → Prop}
    (h : ∀ s : BasicServer, s.pos < s.services.length → (P s ↔ Q s)) {s : BasicServer}
    (hpos : s.pos < s.services.length) (turns : List (Nat → Nat)) :
    Along P s turns ↔ Along Q s turns := by
  induction turns generalizing s with
  | nil => exact Iff.rfl
  | cons counts turns ih =>
    have hpos' : (s.recount counts).pos < (s.recount counts).services.length := by
      rw [length_recount]
      exact hpos
    exact and_congr (h _ hpos') (ih (pos_served hpos'))

/-- **When the least loaded service is chosen**: a call that starts a block
chooses it if and only if its scan is not misled; and so in every run of calls,
however the counts change in between. -/
theorem balances_iff (s : BasicServer) (hpos : s.pos < s.services.length) :
    (s.flag = 0 → (s.Balances ↔ s.ScansAll)) ∧
      ∀ turns, s.AlwaysBalances turns ↔ s.AlwaysScansAll turns :=
  ⟨fun hflag => balances_iff_scansAll hpos hflag, fun turns =>
    along_congr (fun _ h => imp_congr_right fun hflag => balances_iff_scansAll h hflag)
      hpos turns⟩

/-- Two services with 5 and 3 clients, the last block on the first of them. -/
def fiveAndThree : BasicServer where
  service := true
  acceptor := true
  services := [⟨5⟩, ⟨3⟩]
  flag := 0
  pos := 0
  poll := 1
  timeout := 0
  run := true
  thread := true

/-- The first block goes to the second service. -/
theorem balances_iff_first : fiveAndThree.Balances :=
  ((balances_iff fiveAndThree (by decide)).1 rfl).mpr (.inl rfl)

/-- The next one goes to the first, which still has 5 clients. -/
theorem balance_lost : ¬ ∀ s : BasicServer, s.pos < s.services.length →
    (s.flag = 0 → s.Balances) ∧ ∀ turns, s.AlwaysBalances turns := by
  intro hall
  have hrun := (hall fiveAndThree (by decide)).2
    [fun i => if i = 0 then 5 else 3, fun i => if i = 0 then 5 else 3]
  obtain ⟨i, s', hget, -, hleast⟩ := hrun.2.1 rfl
  cases hget
  exact absurd (hleast 1 (by decide)) (by decide)

end KgCpp.Net.BasicServer
