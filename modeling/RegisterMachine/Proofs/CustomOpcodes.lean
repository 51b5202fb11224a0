import RegisterMachine.Proofs.Limits

/-!
# Opcodes that the host redefines

The host may put a handler of its own into the table of opcodes, or none at all. A cycle depends on
the table only through the entry of the opcode that it reads. So two tables that differ in one entry
give the same run up to the first cycle that reads this opcode, however the program came to have it
there.

Without a handler the machine idles: a cycle that reads the opcode counts, but moves nothing on, so
the next cycle reads it again. Only a limit ends such a run.

## Main definitions

* `Run.Fetches` — the next cycle of a run reads a given opcode.
* `State.standing` — a machine with its pointer on the opcode that is read next.

## Main results

* `proceed_congr` — tables that agree on the opcodes that are read give the same run.
* `machine_proceed_idle`, `proceed_idle_forever` — a machine that idles stays as it is.
* `install_local` — a table entry has no effect before its opcode is read.
-/

namespace RegisterMachine

open Effect Exec

/-- The next cycle of a run reads a given opcode. -/
def Run.Fetches (r : Run) (b : UInt8) : Prop := r.Going ∧ r.state.opcode = b

/-- The machine of a state with its pointer on the opcode that is read next, running or not. -/
def State.standing (s : State) (running : Bool) : Machine :=
  { s.machine with ip := (Address.ofPointer s.machine.ip).toPointer, running }

/-! ## Locality -/

/-- A cycle depends on the table only through the entry of the opcode under the pointer. -/
lemma cycle_congr {t t' : Table} {s : State} (h : t s.opcode = t' s.opcode) (c : Config) :
    cycle t c s = cycle t' c s := by
  rw [cycle_apply, cycle_apply, h]

/-- **Tables that agree on the opcodes that are read give the same run.**

**Proof sketch.** By induction on the fuel. The first cycle is the same with both tables, and the
opcodes that are read after it are read by the run as a whole. -/
theorem proceed_congr {t t' : Table} {c : Config} {depth : Nat} {limit : Int} {k : Nat}
    {q : Progress} {s : State}
    (h : ∀ j < k, (proceed t c depth limit j q s).Going →
      t (proceed t c depth limit j q s).state.opcode =
        t' (proceed t c depth limit j q s).state.opcode) :
    proceed t' c depth limit k q s = proceed t c depth limit k q s := by
  induction k generalizing q s with
  | zero => rfl
  | succ k ih =>
    cases hrunning : s.machine.running with
    | false => rw [proceed_of_stopped _ _ _ _ hrunning, proceed_of_stopped _ _ _ _ hrunning]
    | true =>
      have hsame : cycle t c s = cycle t' c s := cycle_congr (h 0 (by omega) ⟨rfl, hrunning⟩) c
      cases hcycle : cycle t c s with
      | error e s' =>
        rw [proceed_of_error _ _ _ _ hrunning hcycle,
          proceed_of_error _ _ _ _ hrunning (hsame.symm.trans hcycle)]
      | ok a s' =>
        rw [proceed_of_cycle _ _ _ _ hrunning hcycle,
          proceed_of_cycle _ _ _ _ hrunning (hsame.symm.trans hcycle)]
        refine ih fun j hj => ?_
        rw [← proceed_of_cycle _ _ _ _ hrunning hcycle]
        exact h (j + 1) (by omega)

lemma install_self (t : Table) (b : UInt8) (h : Option Handler) : t.install b h b = h := if_pos rfl

lemma install_of_ne (t : Table) {b x : UInt8} (hx : x ≠ b) (h : Option Handler) :
    t.install b h x = t x := if_neg hx

/-! ## Idling -/

lemma opcode_begun (s : State) (c : Config) : (s.begun c).opcode = s.opcode := by
  simp only [State.opcode, machine_begun, Address.ofPointer_toPointer]

lemma opcode_limited (s : State) (limit : Int) (k : Nat) :
    (s.limited limit k).opcode = s.opcode := by
  unfold State.limited
  split <;> rfl

/-- The pointer goes back into the memory once, and then it is there. -/
lemma standing_begun (s : State) (c : Config) (running : Bool) :
    (s.begun c).standing running = s.standing running := by
  simp only [State.standing, machine_begun, Address.ofPointer_toPointer]

/-- A limit changes nothing but whether the machine is running. -/
lemma standing_limited (s : State) (limit : Int) (k : Nat) (running : Bool) :
    (s.limited limit k).standing running = s.standing running := by
  unfold State.limited
  split <;> rfl

lemma machine_begun_limited (s : State) (c : Config) (limit : Int) (k : Nat) :
    ((s.begun c).limited limit k).machine =
      s.standing ((s.begun c).limited limit k).machine.running := by
  unfold State.limited
  split
  · simp only [machine_begun]
    rfl
  · rw [machine_begun]
    rfl

section Idle

variable {t : Table} {c : Config} {depth : Nat}

/-- A cycle without a handler does nothing but read the opcode. -/
lemma cycle_of_none {s : State} (h : t s.opcode = none) :
    cycle t c s = .ok (s.opcode, false) (s.begun c) := by
  rw [cycle_apply, h]
  rfl

lemma proceed_of_none {limit : Int} {j : Nat} {q : Progress} {s : State}
    (hnone : t s.opcode = none) (hrunning : s.machine.running = true) :
    proceed t c depth limit (j + 1) q s =
      proceed t c depth limit j q.idle ((s.begun c).limited limit (q.cycles + 1)) :=
  proceed_of_cycle depth limit j q hrunning (cycle_of_none hnone)

/-- **A machine that idles stays as it is**, whatever the limit, and no handler is called.

**Proof sketch.** By induction on the number of cycles. The first one moves the pointer into the
memory if it was not there, and leaves the opcode under it; a limit may stop the machine. -/
theorem machine_proceed_idle {limit : Int} {j : Nat} {q : Progress} {s : State}
    (hnone : t s.opcode = none) (hrunning : s.machine.running = true) :
    (proceed t c depth limit (j + 1) q s).state.machine =
        s.standing (proceed t c depth limit (j + 1) q s).state.machine.running ∧
      (proceed t c depth limit (j + 1) q s).calls = q.calls ∧
      (proceed t c depth limit (j + 1) q s).steps = q.steps := by
  induction j generalizing q s with
  | zero =>
    rw [proceed_of_none hnone hrunning]
    exact ⟨machine_begun_limited _ _ _ _, rfl, rfl⟩
  | succ j ih =>
    rw [proceed_of_none hnone hrunning]
    cases hgoing : ((s.begun c).limited limit (q.cycles + 1)).machine.running with
    | false =>
      rw [proceed_of_stopped _ _ _ _ hgoing, State.concluded_eq_told, machine_told]
      exact ⟨machine_begun_limited _ _ _ _, rfl, rfl⟩
    | true =>
      have hnone' : t ((s.begun c).limited limit (q.cycles + 1)).opcode = none := by
        rwa [opcode_limited, opcode_begun]
      obtain ⟨hmachine, hcalls, hsteps⟩ := ih (q := q.idle) hnone' hgoing
      rw [standing_limited, standing_begun] at hmachine
      exact ⟨hmachine, hcalls, hsteps⟩

/-- **Without a limit it idles for ever.** -/
theorem proceed_idle_forever {j : Nat} {q : Progress} {s : State} (hnone : t s.opcode = none)
    (hrunning : s.machine.running = true) : (proceed t c depth 0 j q s).Going := by
  induction j generalizing q s with
  | zero => exact ⟨rfl, hrunning⟩
  | succ j ih =>
    rw [proceed_of_none hnone hrunning, State.limited_zero]
    refine ih ?_ ?_
    · rwa [opcode_begun]
    · rwa [machine_begun]

/-- With a limit it idles until the limit is reached. -/
theorem proceed_idle_limit {n f : Nat} {q : Progress} {s : State} (hnone : t s.opcode = none)
    (hrunning : s.machine.running = true) (hn : q.cycles < n) (hf : n < q.cycles + f) :
    (proceed t c depth n f q s).ending = .stopped ∧ (proceed t c depth n f q s).cycles = n ∧
      (proceed t c depth n f q s).state.machine = s.standing false := by
  obtain ⟨j, rfl⟩ : ∃ j, n = q.cycles + (j + 1) := ⟨n - q.cycles - 1, by omega⟩
  obtain ⟨hending, -⟩ := @proceed_idle_forever t c depth (j + 1) q s hnone hrunning
  obtain ⟨hmachine, -, -⟩ := @machine_proceed_idle t c depth 0 j q s hnone hrunning
  have hcycles := cycles_of_outOfFuel hending
  rw [proceed_limit (by omega) (by omega), Run.cut, hending]
  refine ⟨rfl, hcycles, ?_⟩
  dsimp only
  rw [State.concluded_eq_told, machine_told, hmachine]
  rfl

end Idle

/-- A run with a limit is over when the limit is reached. -/
lemma lt_of_going {t : Table} {c : Config} {depth n k : Nat} (hn : 0 < n) {s : State}
    (h : (run t c depth n k s).Going) : k < n := by
  cases k with
  | zero => exact hn
  | succ k =>
    obtain ⟨hending, hrunning⟩ := h
    have hbefore := going_of_outOfFuel (Nat.lt_succ_self k) hending
    have hlast := proceed_add hbefore.1 1
    have hcycles := cycles_of_outOfFuel hbefore.1
    rw [run, hlast] at hending hrunning
    obtain ⟨-, a, s', hcycle⟩ := exists_cycle_of_outOfFuel hending
    rw [proceed_of_cycle _ _ _ _ hbefore.2 hcycle] at hrunning
    by_cases hlt : k + 1 < n
    case pos => exact hlt
    case neg =>
      have hreached : limitReached n (k + 1) = true := limitReached_natCast.2 (by omega)
      have hcount : (Progress.start
          { s with machine := { s.machine with ip := 0 } }).cycles = 0 := rfl
      rw [hcycles, hcount, Nat.zero_add, proceed, State.limited, if_pos hreached] at hrunning
      exact absurd hrunning (by simp)

/-! ## One entry of the table -/

/-- **A table entry has no effect before its opcode is read.**

* Whatever handler is put into the table for an opcode, or none, the run is the same as long as no
  cycle has read that opcode: the states are the same, with all that was logged, and what was counted
  and recorded.
* Without a handler, the first cycle that reads the opcode and all those after it leave the machine
  as it is. Its pointer stands on the opcode, and only a limit changes anything: it stops the machine.
  No handler is called.
* So without a limit the run goes on for ever, and with a limit it ends after as many cycles.

**Proof sketch.** The tables agree on every opcode that is read before. From then on the machine
idles. -/
theorem install_local (t : Table) (c : Config) (depth : Nat) (limit : Int) (b : UInt8) (s : State) :
    (∀ (handler : Option Handler) (k : Nat), (∀ j < k, ¬(run t c depth limit j s).Fetches b) →
      run (t.install b handler) c depth limit k s = run t c depth limit k s) ∧
    ∀ (k : Nat) (found : Run), (∀ j < k, ¬(run t c depth limit j s).Fetches b) →
      run t c depth limit k s = found → found.Fetches b →
      (∀ f, k < f →
        (∃ running, (run (t.install b none) c depth limit f s).state.machine =
          found.state.standing running) ∧
        (run (t.install b none) c depth limit f s).calls = found.calls ∧
        (run (t.install b none) c depth limit f s).steps = found.steps) ∧
      (limit = 0 → ∀ f, (run (t.install b none) c depth limit f s).ending = .outOfFuel) ∧
      ∀ n : Nat, limit = n → 0 < n → ∀ f, n < f →
        (run (t.install b none) c depth limit f s).ending = .stopped ∧
        (run (t.install b none) c depth limit f s).cycles = n ∧
        (run (t.install b none) c depth limit f s).state.machine =
          found.state.standing false := by
  have hsame (handler : Option Handler) (k : Nat)
      (h : ∀ j < k, ¬(run t c depth limit j s).Fetches b) :
      run (t.install b handler) c depth limit k s = run t c depth limit k s :=
    proceed_congr fun j hj hgoing =>
      (install_of_ne t (fun hopcode => h j hj ⟨hgoing, hopcode⟩) handler).symm
  refine ⟨hsame, fun k found hbefore hfound hfetches => ?_⟩
  obtain ⟨⟨hending, hrunning⟩, hopcode⟩ := hfetches
  have hnone : t.install b none found.state.opcode = none := by
    rw [hopcode]
    exact install_self t b none
  have hcycles : found.cycles = 0 + k := by
    rw [← hfound] at hending ⊢
    exact cycles_of_outOfFuel hending
  -- the run without the handler goes on from where the opcode was found
  have hrest (j : Nat) : run (t.install b none) c depth limit (k + j) s =
      proceed (t.install b none) c depth limit j found.toProgress found.state := by
    rw [← hfound, ← hsame none k hbefore] at hending ⊢
    exact proceed_add hending j
  refine ⟨fun f hf => ?_, fun hlimit f => ?_, fun n hlimit hn f hf => ?_⟩
  · obtain ⟨j, rfl⟩ : ∃ j, f = k + (j + 1) := ⟨f - k - 1, by omega⟩
    rw [hrest]
    obtain ⟨hmachine, hcounted⟩ := machine_proceed_idle hnone hrunning
    exact ⟨⟨_, hmachine⟩, hcounted⟩
  · subst hlimit
    have hlong : (run (t.install b none) c depth 0 (k + (f + 1)) s).Going := by
      rw [hrest]
      exact proceed_idle_forever hnone hrunning
    exact (going_of_outOfFuel (show f < k + (f + 1) by omega) hlong.1).1
  · subst hlimit
    have hk : k < n := lt_of_going hn (by rw [hfound]; exact ⟨hending, hrunning⟩)
    obtain ⟨j, rfl⟩ : ∃ j, f = k + j := ⟨f - k, by omega⟩
    rw [hrest]
    exact proceed_idle_limit hnone hrunning (by omega) (by omega)

/-- Without a handler for its last opcode, the program of two instructions that do nothing is found
there after two cycles, and a limit of five ends it after five. -/
theorem install_local_idleTwice :
    (∀ handler, (run (Table.builtin.install 0x00 handler) { verbose := true } 64 5 2 (loaded idleTwice)).state =
      idled 2) ∧
    (run (Table.builtin.install 0x00 none) { verbose := true } 64 5 6 (loaded idleTwice)).ending = .stopped ∧
    (run (Table.builtin.install 0x00 none) { verbose := true } 64 5 6 (loaded idleTwice)).cycles = 5 ∧
    (run (Table.builtin.install 0x00 none) { verbose := true } 64 5 6 (loaded idleTwice)).state.machine =
      (idled 2).standing false := by
  have hfirst : cycle Table.builtin { verbose := true } (loaded idleTwice) = .ok (0x50, true) (idled 1) :=
    @cycle_of_drop idleTwice _ _ (loaded idleTwice) 0 rfl rfl rfl { verbose := true } (by decide)
      (List.forall_mem_nil _)
  have hsecond : cycle Table.builtin { verbose := true } (idled 1) = .ok (0x50, true) (idled 2) :=
    @cycle_of_drop idleTwice _ _ (idled 1) 1 rfl rfl rfl { verbose := true } (by decide) (List.forall_mem_nil _)
  have hrun (f : Nat) : run Table.builtin { verbose := true } 64 5 f (loaded idleTwice) =
      proceed Table.builtin { verbose := true } 64 5 f (Progress.start (loaded idleTwice)) (loaded idleTwice) := rfl
  have hzero : (run Table.builtin { verbose := true } 64 5 0 (loaded idleTwice)).state = loaded idleTwice := rfl
  have hone : (run Table.builtin { verbose := true } 64 5 1 (loaded idleTwice)).state = idled 1 := by
    rw [hrun, proceed_of_cycle _ _ _ _ rfl hfirst]
    rfl
  have htwo : (run Table.builtin { verbose := true } 64 5 2 (loaded idleTwice)).state = idled 2 ∧
      (run Table.builtin { verbose := true } 64 5 2 (loaded idleTwice)).Going := by
    have hlimit : (idled 1).limited 5 1 = idled 1 := rfl
    have hnext := proceed_of_cycle 64 5 0
      ((Progress.start (loaded idleTwice)).after 64 (loaded idleTwice) (0x50, true) (idled 1))
      rfl hsecond
    rw [Progress.cycles_after] at hnext
    have hboth := (proceed_of_cycle 64 5 1 (Progress.start (loaded idleTwice)) rfl hfirst).trans
      ((congrArg _ hlimit).trans hnext)
    rw [hrun, hboth]
    exact ⟨rfl, rfl, rfl⟩
  have hopcode (s : State) (hram : s.machine.ram = Ram.ofBytes idleTwice) :
      s.opcode = idleTwice[(Address.ofPointer s.machine.ip).val]?.getD 0 := by
    rw [State.opcode, hram, Ram.getElem_ofBytes]
  have hbefore : ∀ j < 2, ¬(run Table.builtin { verbose := true } 64 5 j (loaded idleTwice)).Fetches 0x00 := by
    rintro j hj ⟨-, hfetches⟩
    obtain rfl | rfl : j = 0 ∨ j = 1 := by omega
    · rw [hzero, hopcode (loaded idleTwice) rfl] at hfetches
      exact absurd hfetches (by decide)
    · rw [hone, hopcode (idled 1) rfl] at hfetches
      exact absurd hfetches (by decide)
  have hfound : (run Table.builtin { verbose := true } 64 5 2 (loaded idleTwice)).Fetches 0x00 := by
    refine ⟨htwo.2, ?_⟩
    rw [htwo.1, hopcode (idled 2) rfl]
    decide
  obtain ⟨hsame, hidle⟩ := install_local Table.builtin { verbose := true } 64 5 0x00 (loaded idleTwice)
  obtain ⟨-, -, hlimit⟩ := hidle 2 _ hbefore rfl hfound
  obtain ⟨hending, hcycles, hmachine⟩ := hlimit 5 rfl (by decide) 6 (by decide)
  refine ⟨fun handler => ?_, hending, hcycles, hmachine.trans ?_⟩
  · rw [hsame handler 2 hbefore, htwo.1]
  · rw [htwo.1]

end RegisterMachine
