import RegisterMachine.Proofs.Decoding
import RegisterMachine.Proofs.Runs
import Mathlib.Data.Nat.Find

/-!
# Leaving commands out

A host may decide that commands are left out. The machine then says so instead of asking for the
command, but it does not move on: its pointer stays on the operand of the instruction, and the
operand is the next opcode. So a run in which commands are left out goes the way of the run in which
they are run up to the first command, and parts from it there.

## Main results

* `cycle_skipCommands` — one cycle, with and without commands.
* `proceed_skipCommands` — a run without a command is the same either way.
* `machine_first_command` — how the machines stand after the first command.
* `run_skipCommands_iff` — leaving commands out makes no difference exactly as long as there is
  none. -/

namespace RegisterMachine

open Effect Exec

/-- What is decided before execution, with commands left out or run. -/
def Config.skipping (c : Config) (b : Bool) : Config := { c with skipCommands := b }

/-! ## One cycle -/

/-- An action that runs a command, or leaves it out. -/
def Action.IsCommand {α : Type} : Action α → Prop
  | .command _ => True
  | _ => False

variable {c : Config} {depth : Nat} {limit : Int} {s : State}

/-- Only a command has to do with commands. -/
lemma Action.run_skipping {α : Type} {a : Action α} (ha : ¬a.IsCommand) (c : Config) (b b' : Bool) :
    a.run (c.skipping b) = a.run (c.skipping b') := by
  cases a with
  | command => exact absurd trivial ha
  | _ => rfl

/-- A cycle comes to a command only with the operation that runs one. -/
lemma State.Acts.not_isCommand {α : Type} {a : Action α} {s' : State} (ha : s.Acts c α s' a)
    (hop : s.opcode ≠ (Opcode.unary .shell).toByte) : ¬a.IsCommand := by
  intro hcommand
  cases a with
  | command t =>
    cases ha with
    | reads h => exact h
    | does hbyte _ h => exact hop (h ▸ Opcode.ofByte?_eq_some_iff.1 hbyte)
  | _ => exact hcommand

/-- Nothing asks for a command if commands are left out. -/
lemma State.Acts.ne_command_of_mem_said {α : Type} {a : Action α} {s' : State}
    (ha : s.Acts (c.skipping true) α s' a) {o : Answer α}
    (ho : a.outcome (c.skipping true) s'.machine s'.entropy = .ok o) {e : Event} (he : e ∈ o.said) :
    ∀ t, e ≠ .command t := by
  rintro t rfl
  cases a with
  | trap | kill => cases ho
  | register | setRegister | slot | setSlot | allot | report =>
    rw [Action.outcome] at ho
    split at ho <;> cases ho
    simp at he
  | explain e =>
    cases ho
    cases hverbose : c.verbose with
    | false => simp [Config.skipping, hverbose] at he
    | true =>
      simp only [Config.skipping, hverbose, if_true, List.mem_toArray, List.mem_singleton] at he
      subst he
      cases ha with
      | reads h => exact h
      | does _ _ h => exact h
  | _ =>
    cases ho
    simp at he

lemma command_mem_of_skipping {t : Option Bytes}
    (ht : .command t ∈ (reached (cycle Table.builtin (c.skipping true) s)).log) :
    .command t ∈ s.log := by
  refine ((composed_cycle (c.skipping true) s).kind_of_mem_log (fun e => ∀ t, e ≠ .command t)
    ?_ ht).resolve_right fun hne => hne t rfl
  exact fun ha ho e he => ha.ne_command_of_mem_said ho he

/-- A cycle with another operation is the same whether commands are left out or not. -/
lemma cycle_skipping_of_ne (c : Config) (hop : s.opcode ≠ (Opcode.unary .shell).toByte) :
    cycle Table.builtin (c.skipping true) s = cycle Table.builtin (c.skipping false) s := by
  refine ((composed_cycle (c.skipping true) s).related ?_ rfl).eq
  rintro _ a t _ ha rfl
  rw [Action.run_skipping (ha.not_isCommand hop) c true false]
  cases a.run (c.skipping false) t with
  | ok => exact .ok rfl
  | error => exact .error rfl

/-- The part of the operation that runs a command before the command: its text is looked up. -/
def commandText (c : Config) : Exec (Option Value.Text) := do
  let r ← fetchRegister c
  explain c (.decoded (.unary .shell r))
  textOf c r

lemma handler_shell (c : Config) (b : Bool) :
    (Opcode.unary .shell).handler (c.skipping b) = commandText c >>= fun t =>
      (Action.command (t.map Value.Text.bytes)).run (c.skipping b) := by
  simp only [Opcode.handler, fetchInstruction, commandText, bind_assoc, pure_bind]
  rfl

/-- **One cycle, with and without commands.** Either it is the same and asks for no command, or it
comes to a command: the machine that runs it asks for it and moves on by one, and the machine that
leaves it out does not.

**Proof sketch.** Only one operation has to do with commands, and up to its command it is the same.
-/
theorem cycle_skipCommands (c : Config) (s : State) :
    (cycle Table.builtin (c.skipping true) s = cycle Table.builtin (c.skipping false) s ∧
      ∀ t, .command t ∈ (reached (cycle Table.builtin (c.skipping false) s)).log →
        .command t ∈ s.log) ∨
    ∃ (t : Option Bytes) (s' : State),
      cycle Table.builtin (c.skipping true) s =
        .ok (s.opcode, true) { s' with log := s'.log.push (.skipped t) } ∧
      cycle Table.builtin (c.skipping false) s =
        .ok (s.opcode, true) { s' with
          machine := { s'.machine with ip := s'.machine.ip + 1 }
          log := s'.log.push (.command t) } := by
  have hsame (h : cycle Table.builtin (c.skipping true) s = cycle Table.builtin (c.skipping false) s) :
      ∀ t, .command t ∈ (reached (cycle Table.builtin (c.skipping false) s)).log →
        .command t ∈ s.log := by
    rw [← h]
    exact fun t => command_mem_of_skipping
  by_cases hop : s.opcode = (Opcode.unary .shell).toByte
  case neg =>
    have heq := cycle_skipping_of_ne c hop
    exact .inl ⟨heq, hsame heq⟩
  case pos =>
    have hcycle (b : Bool) : cycle Table.builtin (c.skipping b) s =
        ((commandText c >>= fun t => (Action.command (t.map Value.Text.bytes)).run (c.skipping b)) >>=
          fun _ => pure (s.opcode, true)) (s.begun c) := by
      rw [cycle_apply, Table.builtin, hop, Opcode.ofByte?_toByte]
      dsimp only
      rw [handler_shell]
      rfl
    cases htext : commandText c (s.begun c) with
    | ok t s₁ =>
      rw [hcycle, hcycle, bind_assoc, bind_assoc, bind_ok htext, bind_ok htext]
      exact .inr ⟨t.map Value.Text.bytes, s₁, rfl, rfl⟩
    | error h s₁ =>
      have heq : cycle Table.builtin (c.skipping true) s =
          cycle Table.builtin (c.skipping false) s := by
        rw [hcycle, hcycle, bind_assoc, bind_assoc, bind_error htext, bind_error htext]
      exact .inl ⟨heq, hsame heq⟩

/-! ## Runs -/

variable {fuel : Nat} {q : Progress}

/-- A command for which a cycle asks stays in the log of the run. -/
lemma command_mem_proceed {a : UInt8 × Bool} {t : Option Bytes} {s' : State}
    (hrunning : s.machine.running = true) (hcycle : cycle Table.builtin (c.skipping false) s = .ok a s')
    (ht : .command t ∈ s'.log) :
    .command t ∈ (proceed Table.builtin (c.skipping false) depth limit (fuel + 1) q s).state.log := by
  rw [proceed_of_cycle _ _ _ _ hrunning hcycle]
  exact mem_log_proceed _ _ _ _ _ (by rwa [State.log_limited])

/-- **A run without a command is the same** whether commands are left out or not.

**Proof sketch.** By induction on the fuel. A cycle that came to a command would leave it in the
log, so every cycle is the same. -/
theorem proceed_skipCommands
    (hnone : ∀ t, .command t ∉ (proceed Table.builtin (c.skipping false) depth limit fuel q s).state.log) :
    proceed Table.builtin (c.skipping true) depth limit fuel q s =
      proceed Table.builtin (c.skipping false) depth limit fuel q s := by
  induction fuel generalizing q s with
  | zero => rfl
  | succ fuel ih =>
    cases hrunning : s.machine.running with
    | false =>
      rw [proceed_of_stopped _ _ _ _ hrunning, proceed_of_stopped _ _ _ _ hrunning]
      rfl
    | true =>
      obtain ⟨hsame, -⟩ | ⟨t, s', -, hcommand⟩ := cycle_skipCommands c s
      · cases hcycle : cycle Table.builtin (c.skipping false) s with
        | error h s' =>
          rw [hcycle] at hsame
          rw [proceed_of_error _ _ _ _ hrunning hsame, proceed_of_error _ _ _ _ hrunning hcycle]
        | ok a s' =>
          rw [hcycle] at hsame
          rw [proceed_of_cycle _ _ _ _ hrunning hcycle] at hnone
          rw [proceed_of_cycle _ _ _ _ hrunning hsame, proceed_of_cycle _ _ _ _ hrunning hcycle]
          exact ih hnone
      · exact absurd (command_mem_proceed hrunning hcommand Array.mem_push_self) (hnone t)

/-- How the machines stand after one cycle that comes to a command. -/
lemma machine_command {t : Option Bytes} (hnew : .command t ∉ s.log)
    (ht : .command t ∈ (proceed Table.builtin (c.skipping false) depth limit 1 q s).state.log) :
    (proceed Table.builtin (c.skipping false) depth limit 1 q s).state.machine =
      let m := (proceed Table.builtin (c.skipping true) depth limit 1 q s).state.machine
      { m with ip := m.ip + 1 } := by
  cases hrunning : s.machine.running with
  | false =>
    rw [proceed_of_stopped _ _ _ _ hrunning] at ht
    refine absurd (mem_log_of_mem_told ?_ ht) hnew
    exact nofun
  | true =>
    obtain ⟨-, hlog⟩ | ⟨u, s', hskip, hcommand⟩ := cycle_skipCommands c s
    · refine absurd (hlog t ?_) hnew
      cases hcycle : cycle Table.builtin (c.skipping false) s with
      | error h s' =>
        rw [proceed_of_error _ _ _ _ hrunning hcycle] at ht
        exact ht
      | ok a s' =>
        rw [proceed_of_cycle _ _ _ _ hrunning hcycle, proceed, State.log_limited] at ht
        exact ht
    · -- the limit stops both machines or neither
      rw [proceed_of_cycle _ _ _ _ hrunning hskip, proceed_of_cycle _ _ _ _ hrunning hcommand]
      simp only [proceed, State.limited]
      split <;> rfl

/-- **How the machines stand after the first command**: they differ in the pointer, which the
machine that leaves the command out has not moved on.

**Proof sketch.** By induction on the fuel. The cycles before the last one came to no command, so
they are the same, and the last one came to the command. -/
theorem machine_first_command {t : Option Bytes}
    (hnone : ∀ t, .command t ∉ (proceed Table.builtin (c.skipping false) depth limit fuel q s).state.log)
    (ht : .command t ∈ (proceed Table.builtin (c.skipping false) depth limit (fuel + 1) q s).state.log) :
    (proceed Table.builtin (c.skipping false) depth limit (fuel + 1) q s).state.machine =
      let m := (proceed Table.builtin (c.skipping true) depth limit (fuel + 1) q s).state.machine
      { m with ip := m.ip + 1 } := by
  induction fuel generalizing q s with
  | zero => exact machine_command (hnone t) ht
  | succ fuel ih =>
    cases hrunning : s.machine.running with
    | false =>
      rw [proceed_of_stopped _ _ _ _ hrunning] at ht hnone
      exact absurd ht (hnone t)
    | true =>
      obtain ⟨hsame, -⟩ | ⟨u, s', -, hcommand⟩ := cycle_skipCommands c s
      · cases hcycle : cycle Table.builtin (c.skipping false) s with
        | error h s' =>
          rw [proceed_of_error _ _ _ _ hrunning hcycle] at ht hnone
          exact absurd ht (hnone t)
        | ok a s' =>
          rw [hcycle] at hsame
          rw [proceed_of_cycle _ _ _ _ hrunning hcycle] at ht hnone ⊢
          rw [proceed_of_cycle _ _ _ _ hrunning hsame]
          exact ih hnone ht
      · exact absurd (command_mem_proceed hrunning hcommand Array.mem_push_self) (hnone u)

/-- **Leaving commands out makes no difference exactly as long as there is none.** Whatever the
program and its data, the policy, the limit and what the host comes up with, the machines of the two runs are
the same after each of the first `n` cycles if and only if the run with commands has not come to
one. After the first command they differ in the pointer, by one.

**Proof sketch.** A run without a command is the same either way. Otherwise take the first cycle
that comes to a command: behind it the pointers differ. -/
theorem run_skipCommands_iff (c : Config) (depth : Nat) (limit : Int) (n : Nat) (m : Machine)
    (entropy : Entropy) :
    let skipping k := (run Table.builtin { c with skipCommands := true } depth limit k
      ⟨m, #[], entropy⟩).state
    let running k := (run Table.builtin { c with skipCommands := false } depth limit k
      ⟨m, #[], entropy⟩).state
    ((∀ k ≤ n, (skipping k).machine = (running k).machine) ↔ ∀ t, .command t ∉ (running n).log) ∧
      ((∀ t, .command t ∉ (running n).log) → ∀ t, .command t ∈ (running (n + 1)).log →
        (running (n + 1)).machine =
          { (skipping (n + 1)).machine with ip := (skipping (n + 1)).machine.ip + 1 }) := by
  intro skipping running
  have hfirst : ∀ k, (∀ t, .command t ∉ (running k).log) →
      ∀ t, .command t ∈ (running (k + 1)).log → (running (k + 1)).machine =
        { (skipping (k + 1)).machine with ip := (skipping (k + 1)).machine.ip + 1 } :=
    fun k hnone t ht => machine_first_command hnone ht
  refine ⟨⟨fun hsame t ht => ?_, fun hnone k hk => ?_⟩, hfirst n⟩
  · classical
    have hexists : ∃ k, ∃ u, .command u ∈ (running k).log := ⟨n, t, ht⟩
    obtain ⟨u, hu⟩ := Nat.find_spec hexists
    have hle : Nat.find hexists ≤ n := Nat.find_min' hexists ⟨t, ht⟩
    have hbefore : ∀ k < Nat.find hexists, ∀ t, .command t ∉ (running k).log :=
      fun k hk t ht => Nat.find_min hexists hk ⟨t, ht⟩
    cases hfind : Nat.find hexists with
    | zero =>
      rw [hfind] at hu
      exact absurd hu (Array.not_mem_empty _)
    | succ k =>
      rw [hfind] at hu hle
      have hparted := hfirst k (hbefore k (by omega)) u hu
      rw [← hsame (k + 1) hle] at hparted
      have hip := congrArg Machine.ip hparted
      simp at hip
  · have hnone' : ∀ t, .command t ∉ (running k).log :=
      fun t ht => hnone t (mem_log_proceed_of_le hk ht)
    exact congrArg (·.state.machine) (proceed_skipCommands hnone')

/-- A program that runs a command and exits. -/
def runTrue : Bytes :=
  (Opcode.literal .store).toByte :: 0 :: 4 :: 0 :: ascii "true" ++
    [(Opcode.unary .shell).toByte, 0, (Opcode.plain .exit).toByte]

/-- The state after the first cycle: the text of the command is in a register. -/
def runTrueStored : State where
  machine := { (loaded runTrue).machine with
    ip := 8
    registers := (loaded runTrue).machine.registers.set 0 (.text (.ofBytes (ascii "true"))) }
  log := #[]
  entropy := {}

/-- The state after the second cycle, in which the program comes to its command. -/
def runTrueAsked (skip : Bool) : State :=
  { runTrueStored with
    machine := { runTrueStored.machine with ip := if skip then 9 else 10 }
    log := #[if skip then .skipped (some (ascii "true")) else .command (some (ascii "true"))] }

/-- The first two cycles of the program. -/
lemma run_runTrue (skip : Bool) :
    (run Table.builtin { skipCommands := skip } 0 4 1 (loaded runTrue)).state = runTrueStored ∧
      (run Table.builtin { skipCommands := skip } 0 4 2 (loaded runTrue)).state = runTrueAsked skip := by
  have hstore : cycle Table.builtin { skipCommands := skip } (loaded runTrue) =
      .ok (0x30, true) runTrueStored :=
    @cycle_of_drop runTrue _ _ (loaded runTrue) 0 rfl rfl rfl { skipCommands := skip }
      (by decide) (List.forall_mem_singleton.2 (by decide))
  have hask : cycle Table.builtin { skipCommands := skip } runTrueStored =
      .ok (0x33, true) (runTrueAsked skip) := by
    rw [@cycle_of_drop runTrue _ _ runTrueStored 8 rfl rfl rfl { skipCommands := skip }
      (by decide) (List.forall_mem_singleton.2 (by decide))]
    cases skip <;> rfl
  have hfirst := proceed_of_cycle 0 4 0 (Progress.start (loaded runTrue)) rfl hstore
  have hsecond := proceed_of_cycle 0 4 1 (Progress.start (loaded runTrue)) rfl hstore
  have hthird := proceed_of_cycle 0 4 0
    ((Progress.start (loaded runTrue)).after 0 (loaded runTrue) (0x30, true) runTrueStored) rfl hask
  exact ⟨congrArg Run.state hfirst, congrArg Run.state (hsecond.trans hthird)⟩

theorem run_skipCommands_iff_runTrue :
    (∀ k ≤ 1, (run Table.builtin { skipCommands := true } 0 4 k (loaded runTrue)).state.machine =
      (run Table.builtin {} 0 4 k (loaded runTrue)).state.machine) ∧
    (run Table.builtin {} 0 4 2 (loaded runTrue)).state.machine.ip =
      (run Table.builtin { skipCommands := true } 0 4 2 (loaded runTrue)).state.machine.ip + 1 := by
  obtain ⟨hfirst, hsecond⟩ := run_runTrue false
  have hstart : (⟨(loaded runTrue).machine, #[], {}⟩ : State) = loaded runTrue := rfl
  have hruns := run_skipCommands_iff {} 0 4 1 (loaded runTrue).machine {}
  simp only [hstart, Nat.reduceAdd] at hruns
  obtain ⟨hiff, hparted⟩ := hruns
  have hnone : ∀ t, .command t ∉
      (run Table.builtin {} 0 4 1 (loaded runTrue)).state.log := by
    intro t
    rw [hfirst]
    simp [runTrueStored]
  have hcommand : .command (some (ascii "true")) ∈
      (run Table.builtin {} 0 4 2 (loaded runTrue)).state.log := by
    rw [hsecond]
    simp [runTrueAsked]
  refine ⟨hiff.2 hnone, ?_⟩
  rw [hparted hnone _ hcommand]

/-- Leaving commands out makes a difference: the program is loaded into a new machine, and after two
cycles the pointer is on the operand of the command, where it should be behind it. -/
theorem ip_run_runTrue :
    Machine.load? runTrue = some (loaded runTrue).machine ∧
      (run Table.builtin { skipCommands := true } 0 4 2 (loaded runTrue)).state.machine.ip = 9 ∧
      (run Table.builtin {} 0 4 2 (loaded runTrue)).state.machine.ip = 10 := by
  rw [(run_runTrue true).2, (run_runTrue false).2]
  exact ⟨rfl, rfl, rfl⟩

end RegisterMachine
