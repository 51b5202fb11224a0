import RegisterMachine.Proofs.Halts
import RegisterMachine.Proofs.Runs

/-!
# What an instruction does not look at

Two places of the machine are seldom looked at: the byte behind the memory, and each slot of the
stack. A program is *blind* to such a place if it does the same whatever stands there, and leaves
there what it found. Under a host that stops at reports, a cycle is blind to the byte behind the
memory unless it reads or writes a single byte at just that address, and to a slot of the stack
unless that slot is the one that it pushes to or pops from.

## Main definitions

* `Alteration`, `State.alter` — a write to one of these places, and the state after it.
* `Blind` — a program that does not look at the place of an alteration, and does not write it.
* `Action.Reaches`, `State.Reaches` — an action, or the next cycle, reads or writes the place of an
  alteration.

## Main results

* `Composed.blind` — a program is blind to what none of its actions reaches.
* `blind_cycle`, `blind_run` — so are cycles and whole runs.
-/

namespace RegisterMachine

open Effect Exec

/-! ## Alterations -/

/-- A write to a place that is seldom looked at. -/
inductive Alteration where
  /-- A write to the byte behind the memory. -/
  | behind (b : UInt8)
  /-- A write to a slot of the stack. -/
  | slot (j : Fin stackSize) (n : Int32)

/-- The machine after an alteration. -/
def Machine.alter (m : Machine) : Alteration → Machine
  | .behind b => { m with behind := b }
  | .slot j n => { m with stack := m.stack.set j.val n j.isLt }

/-- The state after an alteration. -/
def State.alter (s : State) (a : Alteration) : State := { s with machine := s.machine.alter a }

/-- A result with its state changed. -/
def onState {α : Type} (f : State → State) :
    EStateM.Result Halt State α → EStateM.Result Halt State α
  | .ok v s => .ok v (f s)
  | .error h s => .error h (f s)

/-- A program that does the same, from a state, whether or not the state is altered, and keeps the
alteration. -/
def Blind {α : Type} (a : Alteration) (x : Exec α) (s : State) : Prop :=
  x (s.alter a) = onState (·.alter a) (x s)

section Fields

variable (m : Machine) (a : Alteration)

@[simp]
lemma ip_alter : (m.alter a).ip = m.ip := by cases a <;> rfl

@[simp]
lemma ram_alter : (m.alter a).ram = m.ram := by cases a <;> rfl

@[simp]
lemma sp_alter : (m.alter a).sp = m.sp := by cases a <;> rfl

@[simp]
lemma zero_alter : (m.alter a).zero = m.zero := by cases a <;> rfl

@[simp]
lemma running_alter : (m.alter a).running = m.running := by cases a <;> rfl

@[simp]
lemma register?_alter (r : Nat) : (m.alter a).register? r = m.register? r := by cases a <;> rfl

/-- A slot other than the altered one is the same. -/
lemma slot?_alter {i : Int} (h : ∀ j n, a = .slot j n → (j.val : Int) ≠ i) :
    (m.alter a).slot? i = m.slot? i := by
  cases a with
  | behind b => rfl
  | slot j n =>
    have hne := h j n rfl
    unfold Machine.slot?
    split
    case isFalse => rfl
    case isTrue hpos =>
      split
      case isFalse => rfl
      case isTrue hlt =>
        simp only [Machine.alter]
        rw [Vector.getElem_set_ne _ _ (by omega)]

/-- Slots other than the altered one are written as before. -/
lemma setSlot?_alter {i : Int} (h : ∀ j n, a = .slot j n → (j.val : Int) ≠ i) (v : Int32) :
    (m.alter a).setSlot? i v = (m.setSlot? i v).map (·.alter a) := by
  unfold Machine.setSlot?
  split
  case isFalse => rfl
  case isTrue hpos =>
    split
    case isFalse =>
      split
      · cases a <;> rfl
      · rfl
    case isTrue hlt =>
      cases a with
      | behind b => rfl
      | slot j n =>
        have hne := h j n rfl
        simp only [Option.map_some, Machine.alter]
        rw [Vector.set_comm _ _ (by omega)]

/-- Places in the memory are not altered, and the one behind it only by an alteration there. -/
lemma byteAt_alter {p : Place} (h : ∀ b, a = .behind b → p ≠ .behind) :
    (m.alter a).byteAt p = m.byteAt p := by
  cases a with
  | slot j n => cases p <;> rfl
  | behind b =>
    cases p with
    | inside => rfl
    | behind => exact absurd rfl (h b rfl)

lemma setByteAt_alter {p : Place} (h : ∀ b, a = .behind b → p ≠ .behind) (v : UInt8) :
    (m.alter a).setByteAt p v = (m.setByteAt p v).alter a := by
  cases a with
  | slot j n => cases p <;> rfl
  | behind b =>
    cases p with
    | inside => rfl
    | behind => exact absurd rfl (h b rfl)

end Fields

/-! ## Actions -/

/-- An action reads or writes the place of an alteration. -/
def Action.Reaches {α : Type} : Action α → Alteration → Prop
  | .byteAt p, .behind _ | .setByteAt p _, .behind _ => p = .behind
  | .slot i, .slot j _ | .setSlot i _, .slot j _ => i = j.val
  | _, _ => False

section Actions

variable {α : Type} {a : Alteration} {s : State}

/-- Results of which the second is the first, altered. -/
lemma blind_of_related {x : Exec α} (h : Related (fun t t' => t' = t.alter a) (fun _ => False) (x s)
    (x (s.alter a))) : Blind a x s := by
  rw [Blind]
  generalize x s = r, x (s.alter a) = r' at h
  cases h with
  | ok h => rw [h, onState]
  | error h => rw [h, onState]
  | free h => exact h.elim

/-- **An action is blind to what it does not reach.** -/
theorem Action.related_alter (x : Action α) (h : ¬x.Reaches a) (c : Config) (s : State) :
    Related (fun t t' => t' = t.alter a) (fun _ => False) (x.run c s) (x.run c (s.alter a)) := by
  have hentropy : (s.alter a).entropy = s.entropy := rfl
  have hmachine : (s.alter a).machine = s.machine.alter a := rfl
  rw [x.run_apply, x.run_apply, hentropy, hmachine]
  cases x with
  | flag | pointer | memory | stackPointer =>
    rw [Action.outcome, Action.outcome]
    simp only [zero_alter, ip_alter, ram_alter, sp_alter]
    exact .ok rfl
  | jump | advance | stop | setZero | setStackPointer | draw | salvage | explain | showInt
  | showText | announce | copyBlock => exact .ok (by cases a <;> rfl)
  | trap | kill => exact .error rfl
  | register r =>
    rw [Action.outcome, Action.outcome, register?_alter]
    cases s.machine.register? r.toNat with
    | some v => exact .ok rfl
    | none => exact .error rfl
  | setRegister r v =>
    rw [Action.outcome, Action.outcome]
    split
    · exact .ok (by cases a <;> rfl)
    · exact .error rfl
  | byteAt p =>
    have hmiss : ∀ b, a = .behind b → p ≠ .behind := by
      rintro b rfl
      exact h
    rw [Action.outcome, Action.outcome, byteAt_alter _ _ hmiss]
    exact .ok rfl
  | setByteAt p v =>
    have hmiss : ∀ b, a = .behind b → p ≠ .behind := by
      rintro b rfl
      exact h
    rw [Action.outcome, Action.outcome, setByteAt_alter _ _ hmiss]
    exact .ok rfl
  | slot i =>
    have hmiss : ∀ j n, a = .slot j n → (j.val : Int) ≠ i := by
      rintro j n rfl
      exact fun heq => h heq.symm
    rw [Action.outcome, Action.outcome, slot?_alter _ _ hmiss]
    cases s.machine.slot? i with
    | some n => exact .ok rfl
    | none => exact .error rfl
  | setSlot i n =>
    have hmiss : ∀ j n, a = .slot j n → (j.val : Int) ≠ i := by
      rintro j n rfl
      exact fun heq => h heq.symm
    rw [Action.outcome, Action.outcome, setSlot?_alter _ _ hmiss]
    cases s.machine.setSlot? i n with
    | some m => exact .ok rfl
    | none => exact .error rfl
  | command t =>
    rw [Action.outcome, Action.outcome]
    cases c.skipCommands with
    | true => exact .ok rfl
    | false => exact .ok (by cases a <;> rfl)
  | allot count =>
    rw [Action.outcome, Action.outcome]
    split
    · exact .ok rfl
    · exact .error rfl
  | report e =>
    rw [Action.outcome, Action.outcome]
    cases c.policy with
    | resume => exact .ok rfl
    | stop | abort => exact .error rfl

/-- **A program is blind to what none of its actions reaches.** -/
theorem Composed.blind {may : Permit} {c : Config} {x : Config → Exec α} (hx : Composed may c x s)
    (hmay : ∀ {β : Type} {t : State} {b : Action β}, may β t b → ¬b.Reaches a) :
    Blind a (x c) s := by
  refine blind_of_related (hx.related ?_ rfl)
  rintro β b t _ hb rfl
  exact b.related_alter (hmay hb) c t

end Actions

/-! ## Cycles -/

/-- An instruction reads or writes the place of an alteration. -/
def Instruction.Reaches (i : Instruction) (m : Machine) : Alteration → Prop
  | .behind _ => i.address? m = some (ramSize : Int)
  | .slot j _ => i.slot? m = some (j.val : Int)

/-- The next cycle reads or writes the place of an alteration. -/
def State.Reaches (c : Config) (s : State) (a : Alteration) : Prop :=
  ∃ i, s.instruction? c = some i ∧ i.Reaches s.machine a

lemma eq_of_ofInt?_behind {n : Int} (h : Place.ofInt? n = some .behind) : n = ramSize := by
  unfold Place.ofInt? at h
  split at h
  · exact absurd h (by simp)
  · split at h
    case isTrue heq => exact heq
    case isFalse => exact absurd h (by simp)

/-- What an instruction reaches does not depend on where the pointer is. -/
lemma reaches_ip {i : Instruction} {m : Machine} {p : UInt32} {a : Alteration} :
    i.Reaches { m with ip := p } a ↔ i.Reaches m a := Iff.rfl

section Cycles

variable {c : Config} {s : State} {a : Alteration} {α : Type}

/-- Reading the code reaches neither place. -/
lemma Reads.not_reaches {x : Action α} (h : Reads α s x) : ¬x.Reaches a := by
  cases x with
  | byteAt | setByteAt | slot | setSlot => exact h.elim
  | _ => cases a <;> exact id

/-- Under a host that stops at reports, the actions of an instruction reach what the instruction
does. -/
lemma Instruction.Does.reaches {i : Instruction} {m : Machine} {x : Action α}
    (hc : c.policy ≠ .resume) (hdoes : i.Does c m α s x) (h : x.Reaches a) : i.Reaches m a := by
  cases a with
  | behind b =>
    cases x with
    | byteAt p =>
      obtain ⟨n, haddress, hplace⟩ := hdoes hc
      cases h
      rw [eq_of_ofInt?_behind hplace] at haddress
      exact haddress
    | setByteAt p v =>
      obtain ⟨n, haddress, hplace⟩ := hdoes.2 hc
      cases h
      rw [eq_of_ofInt?_behind hplace] at haddress
      exact haddress
    | _ => exact h.elim
  | slot j n =>
    cases x with
    | slot k | setSlot k =>
      cases h
      exact (hdoes.2 hc).1
    | _ => exact h.elim

lemma opcode_alter (s : State) (a : Alteration) : (s.alter a).opcode = s.opcode := by
  cases a <;> rfl

lemma begun_alter (s : State) (c : Config) (a : Alteration) :
    (s.alter a).begun c = (s.begun c).alter a := by
  unfold State.begun State.told
  cases c.verbose with
  | true | false => cases a <;> rfl

/-- The instruction of a cycle is read from the memory. -/
lemma instruction?_alter (c : Config) (s : State) (a : Alteration) :
    (s.alter a).instruction? c = s.instruction? c := by
  rw [State.instruction?, State.instruction?, opcode_alter, begun_alter]
  cases Opcode.ofByte? s.opcode with
  | none => rfl
  | some op =>
    have hblind : Blind a (fetchInstruction c op) (s.begun c) :=
      (composed_fetchInstruction c op _).blind Reads.not_reaches
    rw [Blind] at hblind
    simp only [hblind]
    cases fetchInstruction c op (s.begun c) <;> rfl

/-- **A cycle is blind to what it does not reach.**

**Proof sketch.** The only actions that see an alteration are those that read or write a single byte or
a slot of the stack; and as the host stops at reports, what they read or write is the place that the
instruction reaches. -/
theorem blind_cycle (hc : c.policy ≠ .resume) (h : ¬s.Reaches c a) :
    Blind a (cycle Table.builtin c) s := by
  refine (composed_cycle c s).blind fun {β t x} hacts hreaches => ?_
  cases hacts with
  | reads hreads => exact hreads.not_reaches hreaches
  | announces | skips => cases a <;> exact hreaches
  | @does _ _ s₁ _ i hop hfetch hdoes =>
    have hi := hdoes.reaches hc hreaches
    rw [machine_of_fetchInstruction hfetch, machine_begun] at hi
    refine h ⟨i, ?_, reaches_ip.1 hi⟩
    exact State.instruction?_eq_some_iff.2 ⟨Opcode.ofByte?_eq_some_iff.1 hop, s₁, hfetch⟩

end Cycles

/-! ## Runs -/

/-- A run with its state altered. -/
def Run.alter (r : Run) (a : Alteration) : Run := { r with state := r.state.alter a }

lemma limited_alter (s : State) (a : Alteration) (limit : Int) (k : Nat) :
    (s.alter a).limited limit k = (s.limited limit k).alter a := by
  unfold State.limited
  split
  · cases a <;> rfl
  · rfl

lemma Progress.after_alter (q : Progress) (depth : Nat) (s s' : State) (v : UInt8 × Bool)
    (a : Alteration) :
    q.after depth (s.alter a) v (s'.alter a) = q.after depth s v s' := by
  cases a <;> rfl

lemma concluded_alter (s : State) (a : Alteration) (c : Config) (k : Nat) :
    (s.alter a).concluded c k = (s.concluded c k).alter a := by
  rw [State.concluded_eq_told, State.concluded_eq_told, State.told, State.told]
  split <;> rfl

/-- **A run is blind to what none of its cycles reaches**: it is the same run, counted and recorded
alike, and the alteration is there at its end.

**Proof sketch.** By induction on the fuel, cycle by cycle. -/
theorem blind_proceed {c : Config} (hc : c.policy ≠ .resume) {a : Alteration} {depth : Nat}
    {limit : Int} {fuel : Nat} {q : Progress} {s : State}
    (h : ∀ k < fuel, (proceed Table.builtin c depth limit k q s).Going →
      ¬(proceed Table.builtin c depth limit k q s).state.Reaches c a) :
    proceed Table.builtin c depth limit fuel q (s.alter a) =
      (proceed Table.builtin c depth limit fuel q s).alter a := by
  induction fuel generalizing q s with
  | zero => rfl
  | succ fuel ih =>
    cases hrunning : s.machine.running with
    | false =>
      have hrunning' : (s.alter a).machine.running = false := (running_alter _ a).trans hrunning
      rw [proceed_of_stopped _ _ _ _ hrunning, proceed_of_stopped _ _ _ _ hrunning', Run.alter,
        concluded_alter]
    | true =>
      have hrunning' : (s.alter a).machine.running = true := (running_alter _ a).trans hrunning
      have hblind : Blind a (cycle Table.builtin c) s :=
        blind_cycle hc (h 0 (by omega) ⟨rfl, hrunning⟩)
      rw [Blind] at hblind
      cases hcycle : cycle Table.builtin c s with
      | error e s' =>
        rw [hcycle] at hblind
        rw [proceed_of_error _ _ _ _ hrunning hcycle, proceed_of_error _ _ _ _ hrunning' hblind]
        rfl
      | ok v s' =>
        rw [hcycle] at hblind
        rw [proceed_of_cycle _ _ _ _ hrunning hcycle, proceed_of_cycle _ _ _ _ hrunning' hblind,
          q.after_alter, limited_alter]
        refine ih fun k hk => ?_
        rw [← proceed_of_cycle _ _ _ _ hrunning hcycle]
        exact h (k + 1) (by omega)

/-- So is a run from the beginning of the memory. -/
theorem blind_run {c : Config} (hc : c.policy ≠ .resume) {a : Alteration} {depth : Nat}
    {limit : Int} {fuel : Nat} {s : State}
    (h : ∀ k < fuel, (run Table.builtin c depth limit k s).Going →
      ¬(run Table.builtin c depth limit k s).state.Reaches c a) :
    run Table.builtin c depth limit fuel (s.alter a) =
      (run Table.builtin c depth limit fuel s).alter a := by
  have hstart : ({ s.alter a with machine := { (s.alter a).machine with ip := 0 } } : State) =
      ({ s with machine := { s.machine with ip := 0 } } : State).alter a := by
    cases a <;> rfl
  simp only [run, hstart]
  exact blind_proceed hc h

end RegisterMachine
