import RegisterMachine.Proofs.Entries
import RegisterMachine.Proofs.Composition

/-!
# Listing and machine read the same instructions

A listing and the machine take code apart independently of each other. Wherever a line of the listing
begins, the machine reads the instruction that the line shows, with the same registers, words and
text, and goes on behind the last byte of the line, unless the instruction says otherwise.

## Main definitions

* `NoReport` — nothing was reported between two states.
* `Listing.Line.successor` — where the machine goes on after a line.

## Main results

* `execute_successor` — where the machine goes on after an instruction.
* `cycle_entry` — a cycle carries out the line of the listing at the pointer.
-/

namespace RegisterMachine

open Effect Exec Listing

/-! ## Where the machine goes on -/

/-- Nothing was reported between two states. -/
def NoReport (s s' : State) : Prop := ∀ e, Event.reported e ∉ s'.log.toList.drop s.log.size

/-- The later of two states saw no more reports than the earlier one. -/
lemma NoReport.of_le {s s' s'' : State} (h : NoReport s s'') (hle : s.log.size ≤ s'.log.size) :
    NoReport s' s'' := by
  intro e he
  have hdrop : s''.log.toList.drop s'.log.size =
      (s''.log.toList.drop s.log.size).drop (s'.log.size - s.log.size) := by
    rw [List.drop_drop, Nat.add_sub_cancel' hle]
  rw [hdrop] at he
  exact h e (List.mem_of_mem_drop he)

/-- After a report that the host survives it is in the log. -/
lemma not_noReport {c : Config} {e : Error} {s s' : State} (h : report c e s = .ok () s') :
    ¬NoReport s s' := by
  unfold report at h
  cases hp : c.policy with
  | resume =>
    rw [hp] at h
    cases h
    exact fun hreport => hreport e (by simp)
  | stop | abort =>
    rw [hp] at h
    exact absurd h throw_ne_ok

/-- Where the machine goes on after a line, given the machine before it and the pointer behind the
line. -/
def Listing.Line.successor (m : Machine) (behind : UInt32) : Line → Option UInt32
  | instruction i => i.successor m behind
  | data _ => some behind

/-- **Where the machine goes on after an instruction** that reports nothing.

**Proof sketch.** Up to the last action of the instruction the pointer has not been moved, and the last
action moves it to the successor, unless it reports something. -/
theorem execute_successor {c : Config} {i : Instruction}
    (hi : ∀ r, i = .unary .shell r → c.skipCommands = false) {s s' : State}
    (h : execute c i s = .ok () s') (hreport : c.policy = .resume → NoReport s s') :
    some s'.machine.ip = i.successor s.machine (s.machine.ip + 1) := by
  obtain ⟨s₁, a, hends, hdoes, hlast, hip, hlog⟩ := (completes_execute c i s).exists_last h
  cases hends with
  | jump p =>
    cases hlast
    exact hdoes.symm
  | advance =>
    cases hlast
    exact (congrArg (some <| · + 1) hip).trans hdoes.symm
  | command t =>
    cases i with
    | unary op r =>
      cases hdoes
      rw [Action.run, hi r rfl] at hlast
      cases hlast
      exact congrArg (some <| · + 1) hip
    | plain | binary | ternary | branch | immediate | literal => cases hdoes
  | report e =>
    exact absurd ((hreport (of_report hlast).1).of_le hlog) (not_noReport hlast)
  | trap | kill => exact absurd hlast throw_ne_ok

/-- Where the machine goes on depends neither on its pointer nor on what follows a zero byte of a
text. -/
lemma successor_cut (i : Instruction) (m : Machine) (p behind : UInt32) :
    i.cut.successor { m with ip := p } behind = i.successor m behind := by
  cases i with
  | plain op => cases op <;> rfl
  | branch op t => cases op <;> rfl
  | unary | binary | ternary | immediate | literal => rfl

/-- A line leads to the one behind it, or to the target that it names. -/
lemma Listing.successor_cases {l : Line} (hl : l ≠ .instruction (.plain .ret)) (m : Machine)
    (behind : UInt32) :
    l.successor m behind = some behind ∨
      ∃ op t, l = .instruction (.branch op t) ∧ l.successor m behind = some t.toUInt32 := by
  cases l with
  | data b => exact .inl rfl
  | instruction i =>
    cases i with
    | unary | binary | ternary | immediate | literal => exact .inl rfl
    | plain op =>
      cases op with
      | exit | nop => exact .inl rfl
      | ret => exact absurd rfl hl
    | branch op t =>
      cases op with
      | jump | call => exact .inr ⟨_, t, rfl, rfl⟩
      | jumpZero =>
        have hgoes : (Line.instruction (.branch .jumpZero t)).successor m behind =
            some (if m.zero then t.toUInt32 else behind) := rfl
        rw [hgoes]
        cases m.zero with
        | true => exact .inr ⟨_, t, rfl, rfl⟩
        | false => exact .inl rfl
      | jumpNonzero =>
        have hgoes : (Line.instruction (.branch .jumpNonzero t)).successor m behind =
            some (if m.zero then behind else t.toUInt32) := rfl
        rw [hgoes]
        cases m.zero with
        | true => exact .inl rfl
        | false => exact .inr ⟨_, t, rfl, rfl⟩

/-- Where the machine goes on after it has carried out a line and reported nothing. -/
lemma line_successor {c : Config} {l : Line}
    (hl : ∀ r, l = .instruction (.unary .shell r) → c.skipCommands = false) {s s' : State}
    {m : Machine} (hm : s.machine = { m with ip := s.machine.ip }) (h : l.perform c s = .ok () s')
    (hreport : c.policy = .resume → NoReport s s') :
    some s'.machine.ip = l.successor m (s.machine.ip + 1) := by
  cases l with
  | data b =>
    obtain ⟨m', s₁, hmachine, h⟩ := of_bind_ok h
    cases hmachine
    obtain ⟨_, s₂, hemit, h⟩ := of_bind_ok h
    cases hemit
    cases h
    rfl
  | instruction i =>
    obtain ⟨_, s₁, hexplain, h⟩ := of_bind_ok h
    rw [explain_apply] at hexplain
    cases hexplain
    have hcut (r : UInt8) (hi : i.cut = .unary .shell r) : c.skipCommands = false := by
      cases i with
      | unary op r' => exact hl r (congrArg Line.instruction hi)
      | plain | binary | ternary | branch | immediate | literal => cases hi
    have hnext := execute_successor hcut h fun hresume =>
      (hreport hresume).of_le (log_size_le_told s c _)
    rw [machine_told] at hnext
    rw [hnext, Line.successor, ← successor_cut i m s.machine.ip, ← hm]

lemma perform_successor {c : Config} (hc : c.skipCommands = false) {l : Line} {s s' : State}
    {m : Machine} (hm : s.machine = { m with ip := s.machine.ip }) (h : l.perform c s = .ok () s')
    (hreport : NoReport s s') :
    some s'.machine.ip = l.successor m (s.machine.ip + 1) :=
  line_successor (fun _ _ => hc) hm h fun _ => hreport

/-- **Listing and machine read the same instructions.** Let the pointer of a machine stand on the
first byte of a line of the listing of its code, and let the line lie within the memory. Then one
cycle carries out the instruction that the line shows, with the registers and words of the line and
with the text of the line up to its first zero byte. If nothing is reported, the machine goes on
behind the last byte of the line, or at the address that the line shows if it is a call or a jump that
is taken, or at the integer on top of the stack if it is a return.

**Proof sketch.** The bytes of the memory from the address of the line on are those from which the
line was decoded, and zeros behind the end of the code; so the machine reads the operands that the
listing shows. Every instruction that names no other place ends by moving the pointer on by one from
the last byte that was read. -/
theorem cycle_entry {code : Bytes} {e : Entry} (he : e ∈ entries code)
    (hfit : e.address + span code e.address ≤ 0xFFFF) {c : Config} (hc : c.skipCommands = false)
    {s : State} (hram : s.machine.ram = Ram.ofBytes code)
    (hip : s.machine.ip = UInt32.ofNat e.address)
    (hregs : ∀ r ∈ e.line.registers, r.toNat < registerCount) :
    ∃ b, code[e.address]? = some b ∧
      cycle Table.builtin c s = (e.line.perform c >>= fun _ => pure (b, true))
        ((s.fetched c e.address b).seek (e.address + span code e.address - 1)) ∧
      ∀ r s', cycle Table.builtin c s = .ok r s' → NoReport s s' →
        some s'.machine.ip =
          e.line.successor s.machine (UInt32.ofNat (e.address + span code e.address)) := by
  obtain ⟨b, t, hcode, hline, hspan⟩ := exists_of_mem_entries he
  rw [hline] at hregs
  rw [hspan, ← Nat.add_assoc] at hfit
  have hlast : e.address + span code e.address - 1 = e.address + (decode b t).2 := by
    rw [hspan]
    omega
  have hcycle := cycle_of_drop hram hip hcode c hfit hregs
  have hbyte : code[e.address]? = some b := by
    rw [← Nat.add_zero e.address, ← List.getElem?_drop, hcode]
    rfl
  rw [← hline, ← hlast] at hcycle
  refine ⟨b, hbyte, hcycle, fun r s' hrun hreport => ?_⟩
  rw [hcycle] at hrun
  obtain ⟨_, s₁, hperform, hpure⟩ := of_bind_ok hrun
  cases hpure
  set s₂ := (s.fetched c e.address b).seek (e.address + span code e.address - 1) with hs₂
  have hmachine : s₂.machine = { s.machine with ip := s₂.machine.ip } := by
    rw [hs₂, State.seek, machine_fetched]
  have hlog : s.log.size ≤ s₂.log.size := log_size_le_told s c _
  have hnext := perform_successor hc hmachine hperform (hreport.of_le hlog)
  have hbehind : UInt32.ofNat (e.address + span code e.address - 1) + 1 =
      UInt32.ofNat (e.address + span code e.address) := by
    rw [ofNat_add_one, show e.address + span code e.address - 1 + 1 =
      e.address + span code e.address by omega]
  rw [hnext, ← hbehind]
  rfl

/-- A text constant that is stored, cut short by the end of the code. -/
def truncatedStore : Bytes := [(Opcode.literal .store).toByte, 3, 5, 0, 0x68, 0x69]

theorem cycle_entry_truncatedStore :
    (⟨0, .instruction (.literal .store 3 [0x68, 0x69])⟩ : Entry) ∈ entries truncatedStore ∧
      ∃ s', cycle Table.builtin {} (loaded truncatedStore) = .ok (0x30, true) s' ∧
        s'.machine.ip = 9 ∧ s'.machine.registers[3] = .text (.ofBytes [0x68, 0x69]) := by
  have hmem : (⟨0, .instruction (.literal .store 3 [0x68, 0x69])⟩ : Entry) ∈
      entries truncatedStore := by
    rw [entries, truncatedStore, entriesAfter_cons]
    exact List.mem_cons_self
  obtain ⟨b, hb, hcycle, hnext⟩ := @cycle_entry truncatedStore _ hmem (by decide) {} rfl
    (loaded truncatedStore) rfl rfl (List.forall_mem_singleton.2 (by decide))
  cases hb
  refine ⟨hmem, _, hcycle, ?_, rfl⟩
  have hip := hnext _ _ hcycle fun _ => List.not_mem_nil
  exact Option.some.inj hip

end RegisterMachine
