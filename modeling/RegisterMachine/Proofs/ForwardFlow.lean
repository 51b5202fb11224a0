import RegisterMachine.Proofs.StackSafety
import RegisterMachine.Proofs.Integers

/-!
# Programs that only go forward

The machine has no test for the end of a program. A program that ends nowhere runs into the zeros
behind it, and a zero is the opcode that stops the machine. So a program whose jumps and calls all
lead forward, to a later line or behind the program, stops by itself, if it neither writes to the
memory nor returns: each cycle goes on at a later line, and there are only so many. The last cycle stops
the machine or reports an error, unless it is ended by a signal.

## Main definitions

* `Listing.IsStart` — an address at which a line begins, or one behind the code.
* `Listing.Entry.Forward` — a line from which the machine only goes forward.
* `Listing.remaining` — how many lines of a code begin at an address or behind it.
* `Stands` — a machine that is about to carry out the line at an address.
* `State.OverflowsBlock` — the next cycle writes more digits than there is room for.

## Main results

* `Stands.step` — a cycle is the last one, or goes forward.
* `Stands.exists_last` — there are no more cycles before the last one than there are lines.
* `Stands.halt_cases` — how the last cycle may end early.
* `run_ends_of_forward` — programs that only go forward stop by themselves.
-/

namespace RegisterMachine

open Effect Exec Listing

/-! ## Forward code -/

namespace Listing

/-- An address at which a line of the code begins, or one behind the code. -/
def IsStart (code : Bytes) (n : Nat) : Prop :=
  (∃ e ∈ entries code, e.address = n) ∨ code.length ≤ n ∧ n < ramSize

/-- A line from which the machine only goes forward, and which does not change the code. -/
structure Entry.Forward (code : Bytes) (e : Entry) : Prop where
  /-- The machine has the registers. -/
  registers : ∀ r ∈ e.line.registers, r.toNat < registerCount
  /-- The line neither writes to the memory nor returns, and runs no command. -/
  operation : ∀ i, e.line = .instruction i →
    i.opcode ∉ [.binary .poke, .ternary .copyBlock, .plain .ret, .unary .shell]
  /-- A jump or a call leads to a later line, or behind the code. -/
  target : ∀ op t, e.line = .instruction (.branch op t) → IsStart code t.toNat ∧ e.address < t.toNat

/-- The number of lines of a code that begin at an address or behind it. -/
def remaining (code : Bytes) (n : Nat) : Nat := (entries code).countP (n ≤ ·.address)

/-- Behind a line there are fewer lines. -/
lemma remaining_lt {code : Bytes} {e : Entry} (he : e ∈ entries code) {n : Nat}
    (hlt : e.address < n) : remaining code n < remaining code e.address := by
  have hmono (l : List Entry) :
      l.countP (n ≤ ·.address) ≤ l.countP (e.address ≤ ·.address) := by
    refine List.countP_mono_left fun e' _ hle => ?_
    simp only [decide_eq_true_eq] at hle ⊢
    omega
  obtain ⟨before, behind, hsplit⟩ := List.append_of_mem he
  have hbefore := hmono before
  have hbehind := hmono behind
  rw [remaining, remaining, hsplit, List.countP_append, List.countP_append,
    List.countP_cons_of_neg (by simpa using hlt), List.countP_cons_of_pos (by simp)]
  omega

lemma remaining_le_length (code : Bytes) (n : Nat) : remaining code n ≤ (entries code).length :=
  List.countP_le_length

/-- Behind a line of complete code is the start of the next one, or the end of the code. -/
lemma isStart_next {code : Bytes} (hcomplete : Complete code) (hfit : code.length < ramSize)
    {e : Entry} (he : e ∈ entries code) :
    ∃ b t, code.drop e.address = b :: t ∧ e.line = (decode b t).1 ∧
      e.address + 1 + (decode b t).2 ≤ code.length ∧
      IsStart code (e.address + 1 + (decode b t).2) := by
  obtain ⟨k, b, t, haddress, hdrop, hline, hle, hnext⟩ := exists_next hcomplete he
  rw [Nat.zero_add] at haddress
  rw [← haddress] at hdrop hle hnext
  refine ⟨b, t, hdrop, hline, hle, ?_⟩
  by_cases hlt : e.address + 1 + (decode b t).2 < code.length
  case pos =>
    obtain ⟨e', he', heq⟩ := hnext hlt
    exact .inl ⟨e', he', by rw [heq, Nat.zero_add]⟩
  case neg => exact .inr ⟨by omega, by omega⟩

end Listing

/-! ## Cycles -/

/-- A machine that is about to carry out the line at an address of some code, or one of the zeros behind
the code. -/
structure Stands (code : Bytes) (n : Nat) (s : State) : Prop where
  ram : s.machine.ram = Ram.ofBytes code
  ip : s.machine.ip = UInt32.ofNat n
  running : s.machine.running = true
  start : IsStart code n

/-- The next cycle is the last one: it stops the machine, or ends early. -/
def State.Finishes (c : Config) (s : State) : Prop :=
  s.Executes [.plain .exit] ∨ ∃ h, s.EndsIn c h

/-- A cycle that stops the machine. -/
lemma cycle_of_exit (c : Config) {s : State} (h : s.Executes [.plain .exit]) :
    ∃ s', cycle Table.builtin c s = .ok (s.opcode, true) s' ∧ s'.machine.running = false := by
  obtain ⟨op, hop, hopcode⟩ := h
  cases List.mem_singleton.1 hop
  have hfetch : fetchInstruction c (.plain .exit) (s.begun c) = .ok (.plain .exit) (s.begun c) := rfl
  exact ⟨_, cycle_of_fetch hopcode hfetch, rfl⟩

/-- The next cycle writes the digits of an integer, and there is no room for them. -/
def State.OverflowsBlock (c : Config) (s : State) : Prop :=
  ∃ r n, s.instruction? c = some (.unary .intToText r) ∧ s.machine.integer? r = some n ∧
    c.block ≤ (Numeral.signed n).length

lemma registers_cut (i : Instruction) : i.cut.registers = i.registers := by
  cases i <;> rfl

/-- A line ends early only as its instruction may. -/
lemma exists_of_perform_error {c : Config} (hc : c.policy ≠ .resume) {l : Line} {a : UInt8 × Bool}
    {s s' : State} {h : Halt} (hrun : (l.perform c >>= fun _ => pure a) s = .error h s') :
    ∃ i, l = .instruction i ∧ i.cut.MayHalt c s.machine h := by
  cases l with
  | data b => cases hrun
  | instruction i =>
    refine ⟨i, rfl, ?_⟩
    rw [Line.perform, bind_assoc, bind_ok (explain_apply s c _)] at hrun
    cases hexecute : execute c i.cut (s.told c (.decoded i.cut)) with
    | ok u s₁ =>
      rw [bind_ok hexecute] at hrun
      cases hrun
    | error h' s₁ =>
      rw [bind_error hexecute] at hrun
      cases hrun
      have hhalt := mayHalt_execute hc hexecute
      rwa [machine_told] at hhalt

section Cycles

variable {code : Bytes} {n : Nat} {s : State}

/-- Behind the code are zeros, and a zero is the opcode that stops the machine. -/
lemma Stands.executes_exit (h : Stands code n s) (hbehind : code.length ≤ n) (hn : n < ramSize) :
    s.Executes [.plain .exit] := by
  refine ⟨.plain .exit, List.mem_singleton_self _, ?_⟩
  have hbyte : code[n % ramSize]? = none := by
    rw [Nat.mod_eq_of_lt hn]
    exact List.getElem?_eq_none hbehind
  rw [s.opcode_eq_operand, operand_ofBytes h.ram, h.ip, ofPointer_ofNat hn, Nat.add_zero, hbyte]
  rfl

/-- The operation under the pointer is the one that the line shows. -/
lemma Stands.line_of_opcode (h : Stands code n s) {b : UInt8} {t : Bytes}
    (hdrop : code.drop n = b :: t) (hn : n < ramSize) {op : Opcode} (hop : s.opcode = op.toByte) :
    ∃ i, (decode b t).1 = .instruction i ∧ i.opcode = op := by
  have hbyte : code[n]? = some b := by
    rw [← Nat.add_zero n, ← List.getElem?_drop, hdrop]
    rfl
  have hb : s.opcode = b := by
    rw [s.opcode_eq_operand, operand_ofBytes h.ram, h.ip, ofPointer_ofNat hn, Nat.add_zero,
      Nat.mod_eq_of_lt hn, hbyte]
    rfl
  rw [← hb, hop, decode_toByte]
  exact ⟨_, rfl, opcode_operands t op⟩

variable (hcomplete : Complete code) (hfit : code.length < ramSize)
  (hforward : ∀ e ∈ entries code, e.Forward code) {c : Config} (hc : c.policy ≠ .resume)

include hcomplete hfit hforward

/-- At a line the cycle carries out the line, with the pointer on its last byte. -/
lemma Stands.exists_perform {e : Entry} (he : e ∈ entries code) (h : Stands code e.address s) :
    ∃ b last s₁, s₁.machine = { s.machine with ip := UInt32.ofNat last } ∧ e.address ≤ last ∧
      IsStart code (last + 1) ∧
      cycle Table.builtin c s = (e.line.perform c >>= fun _ => pure (b, true)) s₁ := by
  obtain ⟨b, t, hdrop, hline, hle, hnext⟩ := isStart_next hcomplete hfit he
  have hregisters := (hforward e he).registers
  rw [hline] at hregisters
  have hend : e.address + 1 + (decode b t).2 ≤ 0xFFFF := Nat.le_of_lt (Nat.lt_of_le_of_lt hle hfit)
  have hcycle := cycle_of_drop h.ram h.ip hdrop c hend hregisters
  rw [← hline] at hcycle
  rw [Nat.add_right_comm] at hnext
  refine ⟨b, e.address + (decode b t).2, _, ?_, Nat.le_add_right _ _, hnext, hcycle⟩
  rw [State.seek, machine_fetched]

include hc

/-- After a line the machine goes on behind the line or at the target that it names, and both are
starts further on. -/
lemma Stands.exists_forward {e : Entry} (he : e ∈ entries code) (h : Stands code e.address s)
    {a : UInt8 × Bool} {s' : State} (hrun : cycle Table.builtin c s = .ok a s') :
    ∃ n, s'.machine.ip = UInt32.ofNat n ∧ IsStart code n ∧ e.address < n := by
  obtain ⟨-, hoperation, htarget⟩ := hforward e he
  obtain ⟨b, last, s₁, hs₁, hle, hnext, hcycle⟩ :=
    h.exists_perform hcomplete hfit hforward (c := c) he
  rw [hcycle] at hrun
  obtain ⟨_, s₂, hperform, hpure⟩ := of_bind_ok hrun
  cases hpure
  have hshell (r : UInt8) (hr : e.line = .instruction (.unary .shell r)) :
      c.skipCommands = false :=
    absurd (by simp [Instruction.opcode]) (hoperation _ hr)
  have hret : e.line ≠ .instruction (.plain .ret) :=
    fun hr => hoperation _ hr (by simp [Instruction.opcode])
  have hmachine : s₁.machine = { s.machine with ip := s₁.machine.ip } := by rw [hs₁]
  have hgoes := line_successor hshell hmachine hperform fun hresume => absurd hresume hc
  rw [hs₁, ofNat_add_one] at hgoes
  obtain hbehind | ⟨op, u, hbranch, htaken⟩ :=
    successor_cases hret s.machine (UInt32.ofNat (last + 1))
  · rw [hbehind, Option.some.injEq] at hgoes
    exact ⟨last + 1, hgoes, hnext, by omega⟩
  · obtain ⟨hstart, hlt⟩ := htarget op u hbranch
    rw [htaken, Option.some.injEq] at hgoes
    have hpointer : u.toUInt32 = UInt32.ofNat u.toNat := by
      apply UInt32.toNat_inj.1
      have hu := u.toNat_lt
      rw [UInt16.toNat_toUInt32, UInt32.toNat_ofNat_of_lt' (by simp [UInt32.size]; omega)]
    exact ⟨u.toNat, hgoes.trans hpointer, hstart, hlt⟩

/-- **A cycle is the last one, or goes forward.**

**Proof sketch.** Behind the code the machine stops. A line goes forward by `Stands.exists_forward`,
and since it does not write to the memory, the code stays as it is. -/
theorem Stands.step (h : Stands code n s) :
    s.Finishes c ∨ ∃ e ∈ entries code, e.address = n ∧
      ∃ a s' n', cycle Table.builtin c s = .ok a s' ∧ Stands code n' s' ∧ n < n' := by
  obtain ⟨e, he, rfl⟩ | ⟨hbehind, hn⟩ := h.start
  case inr => exact .inl (.inl (h.executes_exit hbehind hn))
  by_cases hexit : s.Executes [.plain .exit]
  case pos => exact .inl (.inl hexit)
  cases hrun : cycle Table.builtin c s with
  | error halt s' => exact .inl (.inr ⟨halt, s', hrun⟩)
  | ok a s' =>
    obtain ⟨n, hip, hstart, hlt⟩ := h.exists_forward hcomplete hfit hforward hc he hrun
    obtain ⟨b, t, hdrop, hline, hle, -⟩ := isStart_next hcomplete hfit he
    have hwrites : ¬s.Executes memoryWriters := by
      rintro ⟨op, hop, hopcode⟩
      obtain ⟨i, hi, rfl⟩ := h.line_of_opcode hdrop (by omega) hopcode
      refine (hforward e he).operation i (hline.trans hi) ?_
      show i.opcode ∈ memoryWriters ++ [.plain .ret, .unary .shell]
      exact List.mem_append_left _ hop
    have hram : s'.machine.ram = s.machine.ram :=
      same_of_not_executes (p := .ram) hrun hwrites mem_memoryWriters
    have hrunning : s'.machine.running = s.machine.running :=
      same_of_not_executes (p := .running) hrun hexit fun hmem => by simp [eq_exit hmem]
    exact .inr ⟨e, he, rfl, a, s', n, rfl,
      ⟨hram.trans h.ram, hip, hrunning.trans h.running, hstart⟩, hlt⟩

/-- **There are no more cycles before the last one than there are lines.**

**Proof sketch.** By induction on the number of lines that begin at the pointer or behind it. -/
theorem Stands.exists_last (depth : Nat) (q : Progress) (h : Stands code n s) :
    ∃ k ≤ remaining code n, (proceed Table.builtin c depth 0 k q s).Going ∧
      (∃ n', Stands code n' (proceed Table.builtin c depth 0 k q s).state) ∧
      (proceed Table.builtin c depth 0 k q s).state.Finishes c := by
  induction hm : remaining code n using Nat.strong_induction_on generalizing n s q with
  | h m ih =>
    obtain hlast | ⟨e, he, rfl, a, s', n', hcycle, hstands, hlt⟩ :=
      h.step hcomplete hfit hforward hc
    · exact ⟨0, Nat.zero_le _, ⟨rfl, h.running⟩, ⟨n, h⟩, hlast⟩
    · have hfewer := remaining_lt he hlt
      rw [hm] at hfewer
      obtain ⟨k, hk, hlast⟩ := ih _ hfewer (q.after depth s a s') hstands rfl
      have hrun := proceed_of_cycle depth 0 k q h.running hcycle
      rw [State.limited_zero] at hrun
      rw [← hrun] at hlast
      exact ⟨k + 1, by omega, hlast⟩

/-- **How the last cycle may end early.** It reports an error, or it is ended by a signal, or there is
no room for the digits of an integer. -/
theorem Stands.halt_cases (h : Stands code n s) (hrange : s.machine.InRange) {halt : Halt}
    (hends : s.EndsIn c halt) :
    (∃ e, halt = .reported e) ∨
      (∃ g i, halt = .killed g ∧ s.instruction? c = some i ∧ i.Refused s.machine g) ∨
      halt = .trapped .textBlock ∧ s.OverflowsBlock c := by
  obtain ⟨e, he, rfl⟩ | ⟨hbehind, hn⟩ := h.start
  case inr =>
    obtain ⟨s', hgoes, -⟩ := cycle_of_exit c (h.executes_exit hbehind hn)
    obtain ⟨s'', hends⟩ := hends
    cases hgoes.symm.trans hends
  obtain ⟨hregisters, hoperation, -⟩ := hforward e he
  obtain rfl | ⟨i, hi, hhalt⟩ := exists_mayHalt_of_endsIn hc hends
  case inl => exact .inl ⟨_, rfl⟩
  cases halt with
  | reported e => exact .inl ⟨e, rfl⟩
  | killed g => exact .inr (.inl ⟨g, i, rfl, hi, hhalt⟩)
  | trapped t =>
    cases t with
    | textBlock =>
      obtain ⟨r, v, rfl, hv, hlong⟩ := hhalt
      exact .inr (.inr ⟨rfl, r, v, hi, hv, hlong⟩)
    | stack j =>
      obtain ⟨-, hout⟩ := hhalt
      obtain ⟨hpos, hlt⟩ := hrange
      omega
    | copyRange =>
      -- a line that copies a block is not forward
      obtain ⟨b, t, hdrop, hline, hle, -⟩ := isStart_next hcomplete hfit he
      have hop : s.opcode = i.opcode.toByte := (State.instruction?_eq_some_iff.1 hi).1
      obtain ⟨i', hi', hopcode⟩ := h.line_of_opcode hdrop (by omega) hop
      rw [Instruction.MayHalt] at hhalt
      exact absurd (by simp [hopcode, hhalt]) (hoperation i' (hline.trans hi'))
    | register r =>
      -- the registers of the line are there
      obtain ⟨b, last, s₁, -, -, -, hcycle⟩ := h.exists_perform hcomplete hfit hforward (c := c) he
      obtain ⟨s', hends⟩ := hends
      rw [hcycle] at hends
      obtain ⟨i', hline, hout, r', hr', rfl⟩ := exists_of_perform_error hc hends
      rw [registers_cut] at hr'
      rw [hline] at hregisters
      exact absurd (hregisters r' hr') (Nat.not_lt.2 hout)
    | ram | noText | mixedRegister => exact hhalt.elim

end Cycles

/-! ## Runs -/

section Endings

variable {c : Config} {depth k fuel : Nat} {q : Progress} {s : State}
  (hgoing : (proceed Table.builtin c depth 0 k q s).Going)

include hgoing

/-- A run ends with the cycle that stops the machine. -/
lemma proceed_of_exit
    (hexit : (proceed Table.builtin c depth 0 k q s).state.Executes [.plain .exit])
    (hfuel : k + 2 ≤ fuel) :
    (proceed Table.builtin c depth 0 fuel q s).ending = .stopped ∧
      (proceed Table.builtin c depth 0 fuel q s).cycles = q.cycles + k + 1 := by
  obtain ⟨s', hcycle, hstopped⟩ := cycle_of_exit c hexit
  obtain ⟨j, rfl⟩ : ∃ j, fuel = k + (j + 1 + 1) := ⟨fuel - k - 2, by omega⟩
  obtain ⟨q', hcycles, hlast⟩ := proceed_of_ok depth 0 (j + 1)
    (proceed Table.builtin c depth 0 k q s).toProgress hgoing.2 hcycle
  rw [proceed_add hgoing.1, hlast, State.limited_zero, proceed_of_stopped _ _ _ _ hstopped]
  exact ⟨rfl, by rw [hcycles, cycles_of_outOfFuel hgoing.1]⟩

/-- A run ends with a cycle that ends early. -/
lemma proceed_of_endsIn {halt : Halt}
    (hends : (proceed Table.builtin c depth 0 k q s).state.EndsIn c halt) (hfuel : k + 1 ≤ fuel) :
    (proceed Table.builtin c depth 0 fuel q s).ending = .halted halt := by
  obtain ⟨s', hcycle⟩ := hends
  obtain ⟨j, rfl⟩ : ∃ j, fuel = k + (j + 1) := ⟨fuel - k - 1, by omega⟩
  rw [proceed_add hgoing.1, proceed_of_error _ _ _ _ hgoing.2 hcycle]

end Endings

/-- A new machine stands at the first line. -/
lemma stands_loaded {code : Bytes} (hpos : 0 < code.length) {s : State}
    (hs : s.machine = (loaded code).machine) : Stands code 0 s := by
  obtain ⟨b, t, rfl⟩ := List.exists_cons_of_length_pos hpos
  refine ⟨by rw [hs]; rfl, by rw [hs]; rfl, by rw [hs]; rfl, .inl ?_⟩
  rw [entries, entriesAfter_cons]
  exact ⟨_, List.mem_cons_self, rfl⟩

/-- **Programs that only go forward stop by themselves.** Let a new machine hold a program of fewer bytes
than the memory has, in which every line is complete. Let every line only go forward: its registers are
there, it does not write to the memory, does not return and runs no command, and if it is a jump or a
call, it leads to a later line or behind the program. Then, under a host that stops at reports and
without a limit, there is a last cycle, and there are no more cycles before it than the program has
lines. With enough fuel, the run ends with that cycle:

* Either the cycle stops the machine.
* Or it reports an error.
* Or it is ended by a signal: it divides the least word by minus one, or puts together a text that is
  too long.
* Or it writes the digits of an integer into a block that is too small for them. Where a block has room
  for twelve bytes this does not happen.

**Proof sketch.** By `Stands.exists_last` there is a last cycle. The pointer of the stack is on a slot
by `inRange_run`, so the last cycle ends in one of these ways by `Stands.halt_cases`. -/
theorem run_ends_of_forward {code : Bytes} {s : State}
    (hload : Machine.load? code = some s.machine) (hfit : code.length < ramSize)
    (hcomplete : Complete code) (hforward : ∀ e ∈ entries code, e.Forward code) {c : Config}
    (hc : c.policy ≠ .resume) (depth : Nat) :
    ∃ k ≤ (entries code).length, (run Table.builtin c depth 0 k s).Going ∧
      (((run Table.builtin c depth 0 k s).state.Executes [.plain .exit] ∧
          ∀ fuel, k + 2 ≤ fuel → (run Table.builtin c depth 0 fuel s).ending = .stopped ∧
            (run Table.builtin c depth 0 fuel s).cycles = k + 1) ∨
        (∃ e, ∀ fuel, k + 1 ≤ fuel →
          (run Table.builtin c depth 0 fuel s).ending = .halted (.reported e)) ∨
        (∃ g i, (run Table.builtin c depth 0 k s).state.instruction? c = some i ∧
          i.Refused (run Table.builtin c depth 0 k s).state.machine g ∧
          ∀ fuel, k + 1 ≤ fuel →
            (run Table.builtin c depth 0 fuel s).ending = .halted (.killed g)) ∨
        (c.block < 12 ∧ (run Table.builtin c depth 0 k s).state.OverflowsBlock c ∧
          ∀ fuel, k + 1 ≤ fuel →
            (run Table.builtin c depth 0 fuel s).ending = .halted (.trapped .textBlock))) := by
  obtain ⟨hpos, hmachine⟩ := eq_loaded_of_load? hload
  have hstart : Stands code 0 { s with machine := { s.machine with ip := 0 } } :=
    stands_loaded hpos (by rw [hmachine]; rfl)
  obtain ⟨k, hk, hgoing, ⟨n, hstands⟩, hlast⟩ :=
    hstart.exists_last hcomplete hfit hforward hc depth (Progress.start _)
  have hrange := inRange_run hc (inRange_of_load? hload) hgoing.1
  refine ⟨k, Nat.le_trans hk (remaining_le_length code 0), hgoing, ?_⟩
  obtain hexit | ⟨h, hends⟩ := hlast
  · refine .inl ⟨hexit, fun fuel hfuel => ?_⟩
    obtain ⟨hstopped, hcycles⟩ := proceed_of_exit hgoing hexit hfuel
    exact ⟨hstopped, hcycles.trans (congrArg (· + 1) (Nat.zero_add k))⟩
  have hfinal (fuel : Nat) (hfuel : k + 1 ≤ fuel) :
      (run Table.builtin c depth 0 fuel s).ending = .halted h := proceed_of_endsIn hgoing hends hfuel
  refine .inr ?_
  obtain ⟨e, rfl⟩ | ⟨g, i, rfl, hi, hrefused⟩ | ⟨rfl, hblock⟩ :=
    hstands.halt_cases hcomplete hfit hforward hc hrange hends
  · exact .inl ⟨e, hfinal⟩
  · exact .inr (.inl ⟨g, i, hi, hrefused, hfinal⟩)
  · obtain ⟨r, v, -, -, hlong⟩ := id hblock
    have hdigits := Numeral.length_signed_le v
    exact .inr (.inr ⟨by omega, hblock, hfinal⟩)

/-- A line that is no jump or call goes on behind itself. -/
lemma Listing.forward_of_ne_branch {code : Bytes} {n : Nat} {i : Instruction}
    (hregisters : i.registers.all (·.toNat < registerCount) = true)
    (hop : i.opcode ∉ [.binary .poke, .ternary .copyBlock, .plain .ret, .unary .shell])
    (hbranch : ∀ op t, i ≠ .branch op t) : (⟨n, .instruction i⟩ : Entry).Forward code where
  registers r hr := by simpa using List.all_eq_true.1 hregisters r hr
  operation j hj := by
    cases hj
    exact hop
  target op t hj := absurd (Line.instruction.inj hj) (hbranch op t)

/-- A program that stores a number, jumps over a byte of data, and calls an address behind itself. -/
def leaping : Bytes :=
  [(Opcode.immediate .store).toByte, 1, 2, 0, (Opcode.branch .jumpNonzero).toByte, 8, 0, 0xFF,
    (Opcode.branch .call).toByte, 11, 0]

lemma entries_leaping : entries leaping =
    [⟨0, .instruction (.immediate .store 1 2)⟩, ⟨4, .instruction (.branch .jumpNonzero 8)⟩,
      ⟨7, .data 0xFF⟩, ⟨8, .instruction (.branch .call 11)⟩] := by
  have hcall : entriesAfter [] 8 [0x73, 11, 0] = [⟨8, .instruction (.branch .call 11)⟩] :=
    (entriesAfter_cons _ _ _).trans (congrArg _ (entriesAfter_nil [] 11))
  have hdata : entriesAfter [] 7 [0xFF, 0x73, 11, 0] = ⟨7, .data 0xFF⟩ :: _ :=
    (entriesAfter_cons _ _ _).trans (congrArg _ hcall)
  have hjump : entriesAfter [] 4 [0x12, 8, 0, 0xFF, 0x73, 11, 0] =
      ⟨4, .instruction (.branch .jumpNonzero 8)⟩ :: _ :=
    (entriesAfter_cons _ _ _).trans (congrArg _ hdata)
  exact (entriesAfter_cons _ _ _).trans (congrArg _ hjump)

lemma forward_leaping : ∀ e ∈ entries leaping, e.Forward leaping := by
  have hcall : (⟨8, .instruction (.branch .call 11)⟩ : Entry) ∈ entries leaping := by
    rw [entries_leaping]
    simp
  intro e he
  rw [entries_leaping] at he
  simp only [List.mem_cons, List.not_mem_nil, or_false] at he
  rcases he with rfl | rfl | rfl | rfl
  · exact forward_of_ne_branch (by decide) (by decide) nofun
  · refine ⟨List.forall_mem_nil _, by rintro _ ⟨⟩; decide, ?_⟩
    rintro _ _ ⟨⟩
    exact ⟨.inl ⟨_, hcall, rfl⟩, by decide⟩
  · exact ⟨List.forall_mem_nil _, by rintro _ ⟨⟩, by rintro _ _ ⟨⟩⟩
  · refine ⟨List.forall_mem_nil _, by rintro _ ⟨⟩; decide, ?_⟩
    rintro _ _ ⟨⟩
    exact ⟨.inr ⟨by decide, by decide⟩, by decide⟩

/-- The program has no instruction that ends it, and its run ends. -/
theorem run_ends_of_forward_leaping :
    Machine.load? leaping = some (loaded leaping).machine ∧ (entries leaping).length = 4 ∧
      Complete leaping ∧ (∀ e ∈ entries leaping, e.Forward leaping) ∧
      ∃ k ≤ 4, ∃ ending, ending ≠ .outOfFuel ∧
        ∀ fuel, k + 2 ≤ fuel → (run Table.builtin {} 0 0 fuel (loaded leaping)).ending = ending := by
  have hcomplete : Complete leaping :=
    .cons (by decide) (.cons (by decide) (.cons (by decide) (.cons (by decide) .nil)))
  obtain ⟨k, hk, -, hends⟩ := @run_ends_of_forward leaping (loaded leaping) rfl (by decide) hcomplete
    forward_leaping {} (by decide) 0
  have hending : ∃ ending : Ending, ending ≠ .outOfFuel ∧ ∀ fuel, k + 2 ≤ fuel →
      (run Table.builtin {} 0 0 fuel (loaded leaping)).ending = ending := by
    obtain ⟨-, hstops⟩ | ⟨e, hreports⟩ | ⟨g, i, -, -, hkilled⟩ | ⟨hsmall, -⟩ := hends
    · exact ⟨.stopped, nofun, fun fuel hfuel => (hstops fuel hfuel).1⟩
    · exact ⟨.halted (.reported e), nofun, fun fuel hfuel => hreports fuel (by omega)⟩
    · exact ⟨.halted (.killed g), nofun, fun fuel hfuel => hkilled fuel (by omega)⟩
    · exact absurd hsmall (by decide)
  rw [entries_leaping] at hk
  exact ⟨rfl, by rw [entries_leaping]; rfl, hcomplete, forward_leaping, k, hk, hending⟩

lemma entries_divideExtremes : entries divideExtremes =
    [⟨0, .instruction (.immediate .store 1 0x8000)⟩, ⟨4, .instruction (.ternary (.arith .mul) 1 1 1)⟩,
      ⟨8, .instruction (.ternary (.arith .add) 1 1 1)⟩, ⟨12, .instruction (.unary .dec 2)⟩,
      ⟨14, .instruction (.ternary .div 0 1 2)⟩, ⟨18, .instruction (.plain .exit)⟩] := by
  have hexit : entriesAfter [] 18 [0x00] = [⟨18, .instruction (.plain .exit)⟩] :=
    (entriesAfter_cons _ _ _).trans (congrArg _ (entriesAfter_nil [] 19))
  have hdiv : entriesAfter [] 14 [0x24, 0, 1, 2, 0x00] =
      ⟨14, .instruction (.ternary .div 0 1 2)⟩ :: _ :=
    (entriesAfter_cons _ _ _).trans (congrArg _ hexit)
  have hdec : entriesAfter [] 12 [0x26, 2, 0x24, 0, 1, 2, 0x00] =
      ⟨12, .instruction (.unary .dec 2)⟩ :: _ :=
    (entriesAfter_cons _ _ _).trans (congrArg _ hdiv)
  have hadd : entriesAfter [] 8 [0x21, 1, 1, 1, 0x26, 2, 0x24, 0, 1, 2, 0x00] =
      ⟨8, .instruction (.ternary (.arith .add) 1 1 1)⟩ :: _ :=
    (entriesAfter_cons _ _ _).trans (congrArg _ hdec)
  have hmul : entriesAfter [] 4 [0x23, 1, 1, 1, 0x21, 1, 1, 1, 0x26, 2, 0x24, 0, 1, 2, 0x00] =
      ⟨4, .instruction (.ternary (.arith .mul) 1 1 1)⟩ :: _ :=
    (entriesAfter_cons _ _ _).trans (congrArg _ hadd)
  exact (entriesAfter_cons _ _ _).trans (congrArg _ hmul)

lemma forward_divideExtremes : ∀ e ∈ entries divideExtremes, e.Forward divideExtremes := by
  intro e he
  rw [entries_divideExtremes] at he
  simp only [List.mem_cons, List.not_mem_nil, or_false] at he
  rcases he with rfl | rfl | rfl | rfl | rfl | rfl <;>
    exact forward_of_ne_branch (by decide) (by decide) nofun

/-- A program that only goes forward need not stop the machine or report an error: the program that
divides the least word by minus one has no jumps at all, and its run is ended by a signal. -/
theorem ending_forward_divideExtremes :
    Machine.load? divideExtremes = some (loaded divideExtremes).machine ∧
      divideExtremes.length < ramSize ∧ Complete divideExtremes ∧
      (∀ e ∈ entries divideExtremes, e.Forward divideExtremes) ∧
      ∀ fuel, 5 ≤ fuel → (run Table.builtin {} 0 0 fuel (loaded divideExtremes)).ending =
        .halted (.killed .arithmetic) := by
  have hcomplete : Complete divideExtremes :=
    .cons (by decide) (.cons (by decide) (.cons (by decide) (.cons (by decide) (.cons (by decide)
      (.cons (by decide) .nil)))))
  refine ⟨rfl, by decide, hcomplete, forward_divideExtremes, fun fuel hfuel => ?_⟩
  obtain ⟨rest, rfl⟩ : ∃ rest, fuel = rest + 1 + 4 := ⟨fuel - 5, by omega⟩
  obtain ⟨q, hready⟩ :=
    proceed_divideExtremes 0 (rest + 1) (Progress.start (loaded divideExtremes))
  obtain ⟨s', hcycle⟩ := endsIn_atExtremes
  have hrun : run Table.builtin {} 0 0 (rest + 1 + 4) (loaded divideExtremes) = _ := hready
  rw [hrun, proceed_of_error _ _ _ _ rfl hcycle]

end RegisterMachine
