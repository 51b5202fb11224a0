import RegisterMachine.Run
import RegisterMachine.Proofs.Effects

/-!
# Actions

Whatever the machine does is put together from a few single effects, the *actions*. What an action
does depends on the machine and on what the host comes up with, and never on the log: it gives a
value, changes the machine and says something, or it ends the program as it stands.

A program over a configuration is *composed* of actions if each step of it is one. The steps are
followed from a state on, so that what is known about an action may depend on the state in which it
is carried out. From what the actions may do follows what the program may do: what every action keeps
the program keeps, a program that ends early ends in one of its actions, and what holds between two
states before and after every action holds between the ends of two runs.

## Main definitions

* `Action`, `Action.run` — the single effects.
* `Action.outcome` — what an action does, as a function of the machine and the host.
* `Composed` — programs put together from actions.
* `Completes` — programs that move the pointer with their last action only.
* `State.told`, `State.printed` — a state in which something was explained, and what was printed.
* `Related` — two results with the same value, or the same early end, and related states.

## Main results

* `Action.run_apply` — what an action does to a state is its outcome.
* `Composed.reached_of` — what every action keeps a program keeps.
* `Composed.exists_of_error` — a program that ends early ends in one of its actions.
* `Composed.related` — from related states, under two configurations, a program does the same.
* `Composed.apply_eq` — the log is never looked at.
* `Completes.exists_last` — where the pointer is moved.
-/

namespace RegisterMachine

open Effect Exec

/-- The single effects of which all that the machine does is put together. -/
inductive Action : Type → Type 1 where
  | register (r : UInt8) : Action Value
  | setRegister (r : UInt8) (v : Value) : Action Unit
  | flag : Action Bool
  | setZero (z : Bool) : Action Unit
  | pointer : Action UInt32
  | jump (p : UInt32) : Action Unit
  | advance : Action Unit
  | stop : Action Unit
  | memory : Action Ram
  | byteAt (p : Place) : Action UInt8
  | setByteAt (p : Place) (b : UInt8) : Action Unit
  | copyBlock (dest source count : Nat) : Action Unit
  | stackPointer : Action Int
  | setStackPointer (i : Int) : Action Unit
  | slot (i : Int) : Action Int32
  | setSlot (i : Int) (n : Int32) : Action Unit
  | draw : Action Nat
  | salvage : Action Value.Text
  | explain (e : Event) : Action Unit
  | showInt (r : UInt8) (n : Int32) : Action Unit
  | showText (r : UInt8) (t : Option Bytes) : Action Unit
  /-- It is announced that an opcode has no meaning. -/
  | announce (p : UInt32) (b : UInt8) : Action Unit
  /-- A command is run, or left out. -/
  | command (t : Option Bytes) : Action Unit
  | allot (count : Nat) : Action Unit
  | report (e : Error) : Action Unit
  | trap {α : Type} (t : Trap) : Action α
  | kill {α : Type} (g : Signal) : Action α

/-- What an action does, in the words of the machine. -/
def Action.run (c : Config) : {α : Type} → Action α → Exec α
  | _, .register r => Exec.register r
  | _, .setRegister r v => Exec.setRegister r v
  | _, .flag => Exec.flag
  | _, .setZero z => Exec.setZero z
  | _, .pointer => Exec.pointer
  | _, .jump p => Exec.jump p
  | _, .advance => Exec.advance
  | _, .stop => update fun m => { m with running := false }
  | _, .memory => Exec.memory
  | _, .byteAt p => Exec.byteAt p
  | _, .setByteAt p b => Exec.setByteAt p b
  | _, .copyBlock dest source count => Exec.copyBlock dest source count
  | _, .stackPointer => Exec.stackPointer
  | _, .setStackPointer i => Exec.setStackPointer i
  | _, .slot i => Exec.slot i
  | _, .setSlot i n => Exec.setSlot i n
  | _, .draw => Exec.draw
  | _, .salvage => Exec.salvage
  | _, .explain e => Exec.explain c e
  | _, .showInt r n => emit (.showInt c.verbose r n)
  | _, .showText r t => emit (.showText c.verbose r t)
  | _, .announce p b => emit (.unknown p b)
  | _, .command t =>
    if c.skipCommands then emit (.skipped t)
    else do
      emit (.command t)
      Exec.advance
  | _, .allot count => Exec.allot c count
  | _, .report e => Exec.report c e
  | _, .trap t => Exec.trap t
  | _, .kill g => Exec.kill g

/-! ## Answers -/

/-- What comes of an action that gives a value. -/
structure Answer (α : Type) where
  /-- The value. -/
  value : α
  /-- The machine after it. -/
  machine : Machine
  /-- What the host will come up with after it. -/
  entropy : Entropy
  /-- What is said. -/
  said : Array Event := #[]

/-- What an action does, as a function of the machine and of what the host comes up with. -/
def Action.outcome (c : Config) (m : Machine) (e : Entropy) :
    {α : Type} → Action α → Except Halt (Answer α)
  | _, .register r =>
    match m.register? r.toNat with
    | some v => .ok ⟨v, m, e, #[]⟩
    | none => .error (.trapped (.register r.toNat))
  | _, .setRegister r v =>
    if h : r.toNat < registerCount then .ok ⟨(), m.setRegister ⟨r.toNat, h⟩ v, e, #[]⟩
    else .error (.trapped (.register r.toNat))
  | _, .flag => .ok ⟨m.zero, m, e, #[]⟩
  | _, .setZero z => .ok ⟨(), { m with zero := z }, e, #[]⟩
  | _, .pointer => .ok ⟨m.ip, m, e, #[]⟩
  | _, .jump p => .ok ⟨(), { m with ip := p }, e, #[]⟩
  | _, .advance => .ok ⟨(), { m with ip := m.ip + 1 }, e, #[]⟩
  | _, .stop => .ok ⟨(), { m with running := false }, e, #[]⟩
  | _, .memory => .ok ⟨m.ram, m, e, #[]⟩
  | _, .byteAt p => .ok ⟨m.byteAt p, m, e, #[]⟩
  | _, .setByteAt p b => .ok ⟨(), m.setByteAt p b, e, #[]⟩
  | _, .copyBlock dest source count =>
    .ok ⟨(), { m with ram := Ram.copy dest source count m.ram }, e, #[]⟩
  | _, .stackPointer => .ok ⟨m.sp, m, e, #[]⟩
  | _, .setStackPointer i => .ok ⟨(), { m with sp := i }, e, #[]⟩
  | _, .slot i =>
    match m.slot? i with
    | some n => .ok ⟨n, m, e, #[]⟩
    | none => .error (.trapped (.stack i))
  | _, .setSlot i n =>
    match m.setSlot? i n with
    | some m' => .ok ⟨(), m', e, #[]⟩
    | none => .error (.trapped (.stack i))
  | _, .draw => .ok ⟨e.numbers.headD 0, m, { e with numbers := e.numbers.tail }, #[]⟩
  | _, .salvage =>
    .ok ⟨e.debris.headD (.ofBytes []), m, { e with debris := e.debris.tail }, #[]⟩
  | _, .explain ev => .ok ⟨(), m, e, if c.verbose then #[ev] else #[]⟩
  | _, .showInt r n => .ok ⟨(), m, e, #[.showInt c.verbose r n]⟩
  | _, .showText r t => .ok ⟨(), m, e, #[.showText c.verbose r t]⟩
  | _, .announce p b => .ok ⟨(), m, e, #[.unknown p b]⟩
  | _, .command t =>
    if c.skipCommands then .ok ⟨(), m, e, #[.skipped t]⟩
    else .ok ⟨(), { m with ip := m.ip + 1 }, e, #[.command t]⟩
  | _, .allot count =>
    if count < c.block then .ok ⟨(), m, e, #[]⟩ else .error (.trapped .textBlock)
  | _, .report err =>
    match c.policy with
    | .resume => .ok ⟨(), m, e, #[.reported err]⟩
    | .stop | .abort => .error (.reported err)
  | _, .trap t => .error (.trapped t)
  | _, .kill g => .error (.killed g)

/-- The result of an outcome from a state: what is said comes behind the log, and an early end leaves
the state as it is. -/
def State.settle {α : Type} (s : State) :
    Except Halt (Answer α) → EStateM.Result Halt State α
  | .ok o => .ok o.value ⟨o.machine, s.log ++ o.said, o.entropy⟩
  | .error h => .error h s

/-- The state of a result. -/
def reached {α : Type} : EStateM.Result Halt State α → State
  | .ok _ s => s
  | .error _ s => s

lemma settle_silent {α : Type} (s : State) (a : α) (m : Machine) (e : Entropy) :
    s.settle (.ok ⟨a, m, e, #[]⟩) = .ok a { s with machine := m, entropy := e } := by
  rw [State.settle, Array.append_empty]

lemma settle_said {α : Type} (s : State) (a : α) (m : Machine) (e : Entropy) (ev : Event) :
    s.settle (.ok ⟨a, m, e, #[ev]⟩) =
      .ok a { s with machine := m, entropy := e, log := s.log.push ev } := by
  rw [State.settle, Array.push_eq_append]

lemma machine_apply (s : State) : Exec.machine s = .ok s.machine s := rfl

lemma update_apply (f : Machine → Machine) (s : State) :
    Exec.update f s = .ok () { s with machine := f s.machine } := rfl

lemma pointer_apply (s : State) : Exec.pointer s = .ok s.machine.ip s := rfl

lemma memory_apply (s : State) : Exec.memory s = .ok s.machine.ram s := rfl

/-- A state in which something has been explained, if explanations are wanted. -/
def State.told (s : State) (c : Config) (e : Event) : State :=
  if c.verbose then { s with log := s.log.push e } else s

section Told

variable (s : State) (c : Config) (e : Event)

@[simp]
lemma machine_told : (s.told c e).machine = s.machine := by
  rw [State.told]
  split <;> rfl

@[simp]
lemma entropy_told : (s.told c e).entropy = s.entropy := by
  rw [State.told]
  split <;> rfl

lemma log_size_le_told : s.log.size ≤ (s.told c e).log.size := by
  rw [State.told]
  split
  · rw [Array.size_push]
    omega
  · exact Nat.le_refl _

variable {s e} in
lemma mem_log_told {e' : Event} (he : e' ∈ s.log) : e' ∈ (s.told c e).log := by
  rw [State.told]
  split
  · exact Array.mem_push_of_mem _ he
  · exact he

variable {s c e} in
lemma mem_log_of_mem_told {e' : Event} (hne : e' ≠ e) (he : e' ∈ (s.told c e).log) : e' ∈ s.log := by
  rw [State.told] at he
  split at he
  · exact (Array.mem_push.1 he).resolve_right hne
  · exact he

lemma explain_apply : Exec.explain c e s = .ok () (s.told c e) := by
  rw [Exec.explain, State.told]
  split <;> rfl

variable {c} in
/-- Without explanations nothing is said. -/
lemma told_of_terse (hc : c.verbose = false) : s.told c e = s := by
  rw [State.told, hc]
  rfl

end Told

/-- What has been printed so far. -/
def State.printed (s : State) : Bytes := Event.renderAll s.log 0 s.log.size

/-- What is printed with one more event. -/
lemma printed_push (s : State) (e : Event) :
    State.printed { s with log := s.log.push e } = s.printed ++ e.render := by
  have hall : ∀ s : State, s.printed = s.log.toList.flatMap Event.render := by
    intro s
    rw [State.printed, Event.renderAll, Array.extract_size]
  rw [hall, hall, Array.toList_push, List.flatMap_append, List.flatMap_singleton]

/-- A slot that is written is part of the stack, or the stack pointer. -/
lemma eq_of_setSlot? {m m' : Machine} {i : Int} {n : Int32} (h : m.setSlot? i n = some m') :
    m' = { m with stack := m'.stack, sp := m'.sp } := by
  unfold Machine.setSlot? at h
  split at h
  case isFalse => cases h
  case isTrue =>
    split at h
    case isTrue =>
      cases h
      rfl
    case isFalse =>
      split at h
      case isTrue =>
        cases h
        rfl
      case isFalse => cases h

lemma register_apply (r : UInt8) (s : State) :
    Exec.register r s = match s.machine.register? r.toNat with
      | some v => .ok v s
      | none => .error (.trapped (.register r.toNat)) s := by
  rw [Exec.register, bind_ok (machine_apply s)]
  cases s.machine.register? r.toNat <;> rfl

lemma setRegister_apply (r : UInt8) (v : Value) (s : State) :
    Exec.setRegister r v s = if h : r.toNat < registerCount
      then .ok () { s with machine := s.machine.setRegister ⟨r.toNat, h⟩ v }
      else .error (.trapped (.register r.toNat)) s := by
  unfold Exec.setRegister
  split <;> rfl

lemma slot_apply (i : Int) (s : State) :
    Exec.slot i s = match s.machine.slot? i with
      | some n => .ok n s
      | none => .error (.trapped (.stack i)) s := by
  rw [Exec.slot, bind_ok (machine_apply s)]
  cases s.machine.slot? i <;> rfl

lemma setSlot_apply (i : Int) (n : Int32) (s : State) :
    Exec.setSlot i n s = match s.machine.setSlot? i n with
      | some m => .ok () { s with machine := m }
      | none => .error (.trapped (.stack i)) s := by
  rw [Exec.setSlot, bind_ok (machine_apply s)]
  cases s.machine.setSlot? i n <;> rfl

/-- **What an action does to a state is its outcome.** -/
theorem Action.run_apply {α : Type} (a : Action α) (c : Config) (s : State) :
    a.run c s = s.settle (a.outcome c s.machine s.entropy) := by
  cases a with
  | flag | setZero | pointer | jump | advance | stop | memory | byteAt | setByteAt | copyBlock
  | stackPointer | setStackPointer | draw | salvage =>
    exact (settle_silent s _ _ _).symm
  | trap | kill => rfl
  | showInt | showText | announce => exact (settle_said s () _ _ _).symm
  | register r =>
    rw [Action.run, register_apply, Action.outcome]
    cases s.machine.register? r.toNat with
    | some v => exact (settle_silent s v _ _).symm
    | none => rfl
  | setRegister r v =>
    rw [Action.run, setRegister_apply, Action.outcome]
    split
    · exact (settle_silent s () _ _).symm
    · rfl
  | slot i =>
    rw [Action.run, slot_apply, Action.outcome]
    cases s.machine.slot? i with
    | some n => exact (settle_silent s n _ _).symm
    | none => rfl
  | setSlot i n =>
    rw [Action.run, setSlot_apply, Action.outcome]
    cases s.machine.setSlot? i n with
    | some m => exact (settle_silent s () m _).symm
    | none => rfl
  | explain e =>
    rw [Action.run, Exec.explain, Action.outcome]
    cases c.verbose with
    | true => exact (settle_said s () _ _ e).symm
    | false => exact (settle_silent s () _ _).symm
  | command t =>
    rw [Action.run, Action.outcome]
    cases c.skipCommands with
    | true => exact (settle_said s () _ _ _).symm
    | false => exact (settle_said s () _ _ _).symm
  | allot count =>
    rw [Action.run, Exec.allot, Action.outcome]
    split
    · exact (settle_silent s () _ _).symm
    · rfl
  | report e =>
    rw [Action.run, Exec.report, Action.outcome]
    cases c.policy with
    | resume => exact (settle_said s () _ _ _).symm
    | stop | abort => rfl

/-- An action that ends early leaves the state as it is. -/
lemma Action.of_run_error {α : Type} {a : Action α} {c : Config} {s s' : State} {h : Halt}
    (hrun : a.run c s = .error h s') : a.outcome c s.machine s.entropy = .error h ∧ s' = s := by
  rw [Action.run_apply] at hrun
  cases houtcome : a.outcome c s.machine s.entropy with
  | error e =>
    rw [houtcome] at hrun
    cases hrun
    exact ⟨rfl, rfl⟩
  | ok o =>
    rw [houtcome] at hrun
    cases hrun

/-! ## Programs that are composed of actions -/

/-- Which actions may be carried out in a state. -/
abbrev Permit := ∀ α : Type, State → Action α → Prop

/-- **Programs put together from actions**, followed from a state on: each action that is carried out
may be carried out in the state in which it is. -/
inductive Composed (may : Permit) (c : Config) :
    {α : Type} → (Config → Exec α) → State → Prop where
  | pure {α : Type} (a : α) (s : State) : Composed may c (fun _ => Pure.pure a) s
  | act {α : Type} {a : Action α} {s : State} (h : may _ s a) : Composed may c (fun c => a.run c) s
  | bind {α β : Type} {x : Config → Exec α} {f : α → Config → Exec β} {s : State}
    (hx : Composed may c x s) (hf : ∀ a s', x c s = .ok a s' → Composed may c (f a) s') :
    Composed may c (fun c => x c >>= fun a => f a c) s

section Composed

variable {may : Permit} {c : Config} {α : Type}
  {x y : Config → Exec α} {s : State}

lemma Composed.ite {p : Prop} [Decidable p] (hx : p → Composed may c x s)
    (hy : ¬p → Composed may c y s) : Composed may c (fun c => if p then x c else y c) s := by
  by_cases hp : p
  · simp only [if_pos hp]
    exact hx hp
  · simp only [if_neg hp]
    exact hy hp

/-- A check that may report something before the rest. -/
lemma Composed.check {p : Prop} [Decidable p] {e : Error} (he : p → may _ s (.report e))
    (hrest : ∀ s', (p → report c e s = .ok () s') → (¬p → s' = s) → Composed may c x s') :
    Composed may c (fun c => if p then report c e >>= fun _ => x c else x c) s := by
  refine .ite (fun hp => ?_) fun hp => hrest s (fun hp' => absurd hp' hp) fun _ => rfl
  exact .bind (.act (a := .report e) (he hp)) fun _ s' hreport =>
    hrest s' (fun _ => hreport) fun hp' => absurd hp hp'

/-- What may be done more freely may be done. -/
theorem Composed.mono {may' : Permit}
    (h : ∀ {α : Type} (s : State) (a : Action α), may α s a → may' α s a) (hx : Composed may c x s) :
    Composed may' c x s := by
  induction hx with
  | pure a s => exact .pure a s
  | act ha => exact .act (h _ _ ha)
  | bind _ _ ihx ihf => exact .bind ihx ihf

/-- **What every action keeps a program keeps**, whether it gives a result or ends early.

**Proof sketch.** By induction on the composition. -/
theorem Composed.reached_of (inv : State → Prop)
    (h : ∀ {α : Type} (s : State) (a : Action α), may α s a → inv s → inv (reached (a.run c s)))
    (hx : Composed may c x s) (hs : inv s) : inv (reached (x c s)) := by
  induction hx with
  | pure a s => exact hs
  | act ha => exact h _ _ ha hs
  | @bind _ _ x f s _ _ ihx ihf =>
    have hfirst := ihx hs
    dsimp only
    cases hrun : x c s with
    | ok a s' =>
      rw [hrun] at hfirst
      rw [bind_ok hrun]
      exact ihf a s' hrun hfirst
    | error e s' =>
      rw [hrun] at hfirst
      rw [bind_error hrun]
      exact hfirst

/-- **A program that ends early ends in one of its actions**, in the state in which that is carried
out. -/
theorem Composed.exists_of_error {e : Halt} {s' : State} (hx : Composed may c x s)
    (h : x c s = .error e s') :
    ∃ (β : Type) (a : Action β), may β s' a ∧ a.outcome c s'.machine s'.entropy = .error e := by
  induction hx with
  | pure a s => cases h
  | @act _ a s ha =>
    obtain ⟨houtcome, rfl⟩ := Action.of_run_error h
    exact ⟨_, a, ha, houtcome⟩
  | @bind _ _ x f s _ _ ihx ihf =>
    dsimp only at h
    cases hrun : x c s with
    | ok a s₁ =>
      rw [bind_ok hrun] at h
      exact ihf a s₁ hrun h
    | error e₁ s₁ =>
      rw [bind_error hrun] at h
      cases h
      exact ihx hrun

end Composed

/-! ## Two runs -/

/-- Two results that agree: both give the same value, or both end early in the same way, and the states
are related. Nothing is said if the first ends in a way that is left free. -/
inductive Related (rel : State → State → Prop) (free : Halt → Prop) {α : Type} :
    EStateM.Result Halt State α → EStateM.Result Halt State α → Prop where
  | ok {a : α} {s s' : State} (h : rel s s') : Related rel free (.ok a s) (.ok a s')
  | error {e : Halt} {s s' : State} (h : rel s s') : Related rel free (.error e s) (.error e s')
  | free {e : Halt} {s : State} {r : EStateM.Result Halt State α} (h : free e) :
    Related rel free (.error e s) r

section Related

variable {rel : State → State → Prop} {free : Halt → Prop} {α β : Type}

lemma Related.bind {x x' : Exec α} {f f' : α → Exec β} {s s' : State}
    (hx : Related rel free (x s) (x' s'))
    (hf : ∀ a s₁ s₁', x s = .ok a s₁ → rel s₁ s₁' → Related rel free (f a s₁) (f' a s₁')) :
    Related rel free ((x >>= f) s) ((x' >>= f') s') := by
  generalize hrun : x s = r at hx
  generalize hrun' : x' s' = r' at hx
  cases hx with
  | ok h =>
    rw [bind_ok hrun, bind_ok hrun']
    exact hf _ _ _ hrun h
  | error h =>
    rw [bind_error hrun, bind_error hrun']
    exact .error h
  | free h =>
    rw [bind_error hrun]
    exact .free h

/-- Results that agree in the state as well are the same. -/
lemma Related.eq {r r' : EStateM.Result Halt State α} (h : Related Eq (fun _ => False) r r') :
    r = r' := by
  cases h with
  | ok h => rw [h]
  | error h => rw [h]
  | free h => exact h.elim

/-- **Two runs of a program agree if they do in each action.** The configurations need not be the same.

**Proof sketch.** By induction on the composition. Both runs carry out the same action, which gives the
same value in both, so they go on in the same way. -/
theorem Composed.related {may : Permit} {c c' : Config}
    {x : Config → Exec α} {s s' : State}
    (h : ∀ {α : Type} (a : Action α) (s s' : State), may α s a → rel s s' →
      Related rel free (a.run c s) (a.run c' s'))
    (hx : Composed may c x s) (hs : rel s s') : Related rel free (x c s) (x c' s') := by
  induction hx generalizing s' with
  | pure a s => exact .ok hs
  | act ha => exact h _ _ _ ha hs
  | bind _ _ ihx ihf => exact (ihx hs).bind fun a s₁ s₁' hrun hs₁ => ihf a s₁ hrun hs₁

end Related

/-! ## The log -/

/-- A state with nothing in its log. -/
def State.unlogged (s : State) : State := { s with log := #[] }

/-- A result with events in front of its log. -/
def logged {α : Type} (l : Array Event) :
    EStateM.Result Halt State α → EStateM.Result Halt State α
  | .ok a s => .ok a { s with log := l ++ s.log }
  | .error h s => .error h { s with log := l ++ s.log }

section Log

variable {may : Permit} {c : Config} {α : Type} {x : Config → Exec α} {s : State}

/-- **The log is never looked at.** What a program does depends on the machine and on what the host
comes up with, and what it says comes behind the log that it found.

**Proof sketch.** Follow the program with its log and without. -/
theorem Composed.apply_eq (hx : Composed may c x s) : x c s = logged s.log (x c s.unlogged) := by
  have hrelated : Related (fun t t' => t = { t' with log := s.log ++ t'.log }) (fun _ => False)
      (x c s) (x c s.unlogged) := by
    refine hx.related ?_ (by rw [State.unlogged, Array.append_empty])
    rintro _ a _ t - rfl
    rw [a.run_apply, a.run_apply]
    cases a.outcome c t.machine t.entropy with
    | ok o => exact .ok (by rw [Array.append_assoc])
    | error e => exact .error rfl
  generalize x c s = r, x c s.unlogged = r' at hrelated
  cases hrelated with
  | ok h => rw [h, logged]
  | error h => rw [h, logged]
  | free h => exact h.elim

/-- A program takes nothing from the log. -/
theorem Composed.exists_log_eq (hx : Composed may c x s) :
    ∃ said, (reached (x c s)).log = s.log ++ said := by
  rw [hx.apply_eq]
  cases x c s.unlogged with
  | ok a s' | error h s' => exact ⟨s'.log, rfl⟩

lemma Composed.mem_log (hx : Composed may c x s) {e : Event} (he : e ∈ s.log) :
    e ∈ (reached (x c s)).log := by
  obtain ⟨said, hsaid⟩ := hx.exists_log_eq
  rw [hsaid]
  exact Array.mem_append_left _ he

/-- The events of the log that a program leaves are those that it found and those that it added, and
what it added is of its kind. -/
theorem Composed.kind_of_mem_log (kind : Event → Prop) (hx : Composed may c x s)
    (hkind : ∀ {β : Type} {t : State} {a : Action β} {o : Answer β}, may β t a →
      a.outcome c t.machine t.entropy = .ok o → ∀ e ∈ o.said, kind e)
    {e : Event} (he : e ∈ (reached (x c s)).log) : e ∈ s.log ∨ kind e := by
  refine hx.reached_of (fun t => ∀ e ∈ t.log, e ∈ s.log ∨ kind e) ?_ (fun _ => .inl) e he
  intro β t a ha hold e he
  rw [a.run_apply] at he
  cases houtcome : a.outcome c t.machine t.entropy with
  | error h =>
    rw [houtcome] at he
    exact hold e he
  | ok o =>
    rw [houtcome] at he
    obtain he | he := Array.mem_append.1 he
    · exact hold e he
    · exact .inr (hkind ha houtcome e he)

end Log

/-! ## Programs that move the pointer last -/

/-- An action that moves the pointer. -/
def Action.Moves {α : Type} : Action α → Prop
  | .jump _ | .advance | .command _ => True
  | _ => False

/-- An action with which an instruction may be over. -/
inductive Action.Ends : Action Unit → Prop where
  | jump (p : UInt32) : Ends (.jump p)
  | advance : Ends .advance
  | command (t : Option Bytes) : Ends (.command t)
  | report (e : Error) : Ends (.report e)
  | trap (t : Trap) : Ends (.trap t)
  | kill (g : Signal) : Ends (.kill g)

/-- What may be done, but for moving the pointer. -/
def Permit.still (may : Permit) : Permit := fun α s a => ¬a.Moves ∧ may α s a

/-- **Programs that end with an action that completes an instruction**, and move the pointer in no
other. -/
inductive Completes (may : Permit) (c : Config) :
    (Config → Exec Unit) → State → Prop where
  | last {a : Action Unit} {s : State} (hends : a.Ends) (h : may _ s a) :
    Completes may c (fun c => a.run c) s
  | bind {α : Type} {x : Config → Exec α} {f : α → Config → Exec Unit} {s : State}
    (hx : Composed may.still c x s)
    (hf : ∀ a s', x c s = .ok a s' → Completes may c (f a) s') :
    Completes may c (fun c => x c >>= fun a => f a c) s

section Completes

variable {may : Permit} {c : Config} {x y : Config → Exec Unit}
  {s : State}

lemma Completes.ite {p : Prop} [Decidable p] (hx : p → Completes may c x s)
    (hy : ¬p → Completes may c y s) : Completes may c (fun c => if p then x c else y c) s := by
  by_cases hp : p
  · simp only [if_pos hp]
    exact hx hp
  · simp only [if_neg hp]
    exact hy hp

/-- A check that may report something before the rest. -/
lemma Completes.check {p : Prop} [Decidable p] {e : Error} (he : p → may _ s (.report e))
    (hrest : ∀ s', (p → report c e s = .ok () s') → (¬p → s' = s) → Completes may c x s') :
    Completes may c (fun c => if p then report c e >>= fun _ => x c else x c) s := by
  refine .ite (fun hp => ?_) fun hp => hrest s (fun hp' => absurd hp' hp) fun _ => rfl
  exact .bind (.act (a := .report e) ⟨id, he hp⟩) fun _ s' hreport =>
    hrest s' (fun _ => hreport) fun hp' => absurd hp hp'

/-- An action that does not move the pointer leaves it where it is. -/
lemma Action.ip_of_not_moves {α : Type} {a : Action α} (ha : ¬a.Moves) (c : Config) (s : State) :
    (reached (a.run c s)).machine.ip = s.machine.ip := by
  rw [Action.run_apply]
  cases a with
  | jump | advance | command => exact absurd trivial ha
  | register | setRegister | slot | allot | report =>
    rw [Action.outcome]
    split <;> rfl
  | setByteAt p => cases p <;> rfl
  | setSlot i n =>
    rw [Action.outcome]
    cases hslot : s.machine.setSlot? i n with
    | none => rfl
    | some m =>
      rw [eq_of_setSlot? hslot]
      rfl
  | _ => rfl

/-- The log only grows. -/
lemma Action.exists_log_eq {α : Type} (a : Action α) (c : Config) (s : State) :
    ∃ said, (reached (a.run c s)).log = s.log ++ said := by
  rw [Action.run_apply]
  cases a.outcome c s.machine s.entropy with
  | ok o => exact ⟨o.said, rfl⟩
  | error e => exact ⟨#[], Array.append_empty.symm⟩

theorem Completes.composed (hx : Completes may c x s) : Composed may c x s := by
  induction hx with
  | last _ h => exact .act h
  | bind hx _ ih => exact .bind (hx.mono fun _ _ h => h.2) ih

/-- **Where the pointer is moved.** A program that is over has carried out a last action, and before that
the pointer was where it was at the beginning. -/
theorem Completes.exists_last {s' : State} (hx : Completes may c x s) (h : x c s = .ok () s') :
    ∃ (s₁ : State) (a : Action Unit), a.Ends ∧ may Unit s₁ a ∧ a.run c s₁ = .ok () s' ∧
      s₁.machine.ip = s.machine.ip ∧ s.log.size ≤ s₁.log.size := by
  induction hx with
  | @last a s hends ha => exact ⟨s, a, hends, ha, h, rfl, Nat.le_refl _⟩
  | @bind _ x f s hx _ ih =>
    obtain ⟨v, s₁, hrun, hrest⟩ := of_bind_ok h
    obtain ⟨s₂, a, hends, ha, hlast, hip, hlog⟩ := ih v s₁ hrun hrest
    have hkept : s₁.machine.ip = s.machine.ip ∧ s.log.size ≤ s₁.log.size := by
      have hreached := hx.reached_of
        (fun t => t.machine.ip = s.machine.ip ∧ s.log.size ≤ t.log.size) ?_ ⟨rfl, Nat.le_refl _⟩
      · rwa [hrun] at hreached
      · rintro _ t b ⟨hsteady, -⟩ ⟨htip, htlog⟩
        obtain ⟨said, hsaid⟩ := b.exists_log_eq c t
        refine ⟨(Action.ip_of_not_moves hsteady c t).trans htip, ?_⟩
        rw [hsaid, Array.size_append]
        omega
    exact ⟨s₂, a, hends, ha, hlast, hip.trans hkept.1, Nat.le_trans hkept.2 hlog⟩

end Completes

end RegisterMachine
