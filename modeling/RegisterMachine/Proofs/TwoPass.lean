import RegisterMachine.Proofs.Drafting
import RegisterMachine.Proofs.Program

/-!
# Assembly in two passes

The usual way to assemble a program takes two passes: the first adds up the sizes of the lines and
so finds the address of every label, the second puts the encodings of the lines one behind the
other with these addresses in them. The assembler takes one pass and fills in the addresses
afterwards. Both give the same code.

## Main definitions

* `Source.Code.encode`, `Source.Line.encode` — the bytes of a line, given the addresses of labels.
* `Source.address` — the address of a label: the sizes of the lines before it.
* `Source.image` — the code of a program.
* `Source.places` — where the addresses of labels stand in the code.

## Main results

* `Source.statements_apply` — what the first pass leaves.
* `Source.fillAll_places` — filling in turns it into the image.
* `Source.assemble_text` — the assembler computes the image, and the filling in touches nothing but
  the addresses.
-/

namespace RegisterMachine.Source

open Draft Effect

/-! ## Encodings -/

/-- The byte of a register. -/
def registerByte (r : Register) : UInt8 := UInt8.ofNat r.value

/-- The word of an operand, given the addresses of labels. -/
def Operand.word (address : Name → Nat) : Operand → UInt16
  | number n => UInt16.ofNat n.value
  | label name => UInt16.ofNat (address name)

/-- The instruction that is meant, given the addresses of labels. -/
def Instr.resolve (address : Name → Nat) : Instr → Instruction
  | plain op => .plain op
  | unary op r => .unary op (registerByte r)
  | binary op a b => .binary op (registerByte a) (registerByte b)
  | ternary op d a b => .ternary op (registerByte d) (registerByte a) (registerByte b)
  | goto t => .branch .jump (t.word address)
  | branch op t => .branch op (t.word address)
  | store r v => .immediate .store (registerByte r) (v.word address)
  | compare r n => .immediate .compare (registerByte r) (UInt16.ofNat n.value)
  | literal op r t => .literal op (registerByte r) (literalBytes op t)

/-- The byte before the number of a service. -/
def serviceByte : UInt8 := 0x52

/-- The bytes of a line of code, given the addresses of labels. -/
def Code.encode (address : Name → Nat) : Code → Bytes
  | instr i => (i.resolve address).encode
  | service n => [serviceByte, UInt8.ofNat n.value]
  | data _ first rest => (first :: rest).map fun n => UInt8.ofNat n.value

/-- The bytes of a line, given the addresses of labels. -/
def Line.encode (address : Name → Nat) : Line → Bytes
  | label _ => []
  | code _ c => c.encode address

/-- The number of bytes of a line of code. It does not depend on the addresses of labels. -/
def Code.size (c : Code) : Nat := (c.encode fun _ => 0).length

/-- The number of bytes of a line. -/
def Line.size (l : Line) : Nat := (l.encode fun _ => 0).length

/-- The number of bytes of lines. -/
def size (p : List Line) : Nat := (p.map Line.size).sum

lemma size_append (p q : List Line) : size (p ++ q) = size p + size q := by
  simp [size]

/-! ## Labels -/

/-- The label of an operand, if it is one. -/
def Operand.label? : Operand → Option Name
  | number _ => none
  | label name => some name

/-- The label that an instruction refers to. -/
def Instr.reference? : Instr → Option Name
  | goto t => t.label?
  | branch _ t => t.label?
  | store _ v => v.label?
  | _ => none

/-- The label that a line refers to. -/
def Line.reference? : Line → Option Name
  | code _ (.instr i) => i.reference?
  | _ => none

/-- The label that a line defines. -/
def Line.label? : Line → Option Name
  | label name => some name
  | code _ _ => none

/-- The labels that a program defines, in order. -/
def labels (p : List Line) : List Name := p.filterMap Line.label?

/-- The labels that a program refers to, in order. -/
def references (p : List Line) : List Name := p.filterMap Line.reference?

/-- A program whose labels are unique, and which refers to no other ones. -/
structure Closed (p : List Line) : Prop where
  /-- No label is defined twice. -/
  unique : (labels p).Nodup
  /-- Every label that is referred to is defined. -/
  defined : ∀ name ∈ references p, name ∈ labels p

instance (p : List Line) : Decidable (Closed p) :=
  decidable_of_iff ((labels p).Nodup ∧ ∀ name ∈ references p, name ∈ labels p)
    ⟨fun h => ⟨h.1, h.2⟩, fun h => ⟨h.unique, h.defined⟩⟩

/-- The address of a label: the sizes of all lines before its definition. -/
def address (p : List Line) (name : Name) : Nat :=
  size (p.takeWhile fun l => l.label? ≠ some name)

/-- The code of a program: the encodings of its lines, one behind the other. -/
def image (p : List Line) : Bytes := p.flatMap (Line.encode (address p))

/-- Where the addresses of labels stand in the code, if it begins at `start`: each is the last two
bytes of its line. -/
def places (start : Nat) : List Line → List (Nat × Name)
  | [] => []
  | l :: p =>
    (l.reference?.toList.map fun name => (start + l.size - 2, name)) ++ places (start + l.size) p

/-- Where the labels stand, if the code begins at `start`. -/
def labelPlaces (start : Nat) : List Line → List (Name × Nat)
  | [] => []
  | l :: p => (l.label?.toList.map fun name => (name, start)) ++ labelPlaces (start + l.size) p

/-! ## Lines and the addresses in them -/

/-- A register fits into its byte. -/
lemma toNat_registerByte (r : Register) : (registerByte r).toNat = r.value :=
  toNat_ofNat_byte (Nat.lt_succ_of_le r.le_bound)

/-- A written number fits into a word. -/
lemma toNat_word (n : Number 65535) : (UInt16.ofNat n.value).toNat = n.value := by
  have := n.value_le
  rw [UInt16.toNat_ofNat']
  omega

/-- The encoding of a line that refers to no label does not depend on addresses. -/
lemma Line.encode_of_reference?_none {l : Line} (h : l.reference? = none) (f g : Name → Nat) :
    l.encode f = l.encode g := by
  have hword : ∀ o : Operand, o.label? = none → o.word f = o.word g := by
    intro o ho
    cases o with
    | number n => rfl
    | label name => simp [Operand.label?] at ho
  cases l with
  | label name => rfl
  | code gap c =>
    cases c with
    | instr i =>
      cases i with
      | goto t => simp only [encode, Code.encode, Instr.resolve, hword t h]
      | branch op t => simp only [encode, Code.encode, Instr.resolve, hword t h]
      | store r v => simp only [encode, Code.encode, Instr.resolve, hword v h]
      | plain | unary | binary | ternary | compare | literal => rfl
    | service n => rfl
    | data name first rest => rfl

/-- An operand that is a label. -/
lemma Operand.eq_label {o : Operand} {name : Name} (h : o.label? = some name) : o = label name := by
  cases o with
  | number n => simp [label?] at h
  | label m => rw [← Option.some.inj h]

/-- **A line that refers to a label ends with the address of the label.** Its statement writes the
bytes before the address, leaves two zeros and keeps the place in mind. -/
lemma Line.exists_front {l : Line} {name : Name} (h : l.reference? = some name) :
    ∃ front, l.size = front.length + 2 ∧
      (∀ f : Name → Nat, l.encode f = front ++ Instruction.wordBytes (UInt16.ofNat (f name))) ∧
      ∀ d, Draft.statement l.statement d = .ok () (d.extend (front ++ [0, 0]) (front.length + 2) []
        [(d.offset + front.length, name.text)]) := by
  cases l with
  | label m => simp [reference?] at h
  | code gap c =>
    cases c with
    | instr i =>
      cases i with
      | goto t =>
        obtain rfl := Operand.eq_label h
        exact ⟨[(Opcode.branch .jump).toByte], rfl, fun _ => rfl, putWord_label [_] name.text⟩
      | branch op t =>
        obtain rfl := Operand.eq_label h
        exact ⟨[(Opcode.branch op).toByte], rfl, fun _ => rfl, putWord_label [_] name.text⟩
      | store r v =>
        obtain rfl := Operand.eq_label h
        refine ⟨[(Opcode.immediate .store).toByte, registerByte r], rfl, fun _ => rfl, fun d => ?_⟩
        have hput := putWord_label [(Opcode.immediate .store).toByte, registerByte r] name.text d
        simp only [quantities, List.map_cons, List.map_nil, toNat_registerByte] at hput
        exact hput
      | plain | unary | binary | ternary | compare | literal => simp [reference?, Instr.reference?] at h
    | service n => simp [reference?] at h
    | data n first rest => simp [reference?] at h

/-- The length of an encoding is the size of the line, whatever the addresses. -/
lemma Line.length_encode (l : Line) (f : Name → Nat) : (l.encode f).length = l.size := by
  cases h : l.reference? with
  | none => rw [size, encode_of_reference?_none h f]
  | some name =>
    obtain ⟨front, hsize, hfront, -⟩ := exists_front h
    rw [hsize, hfront]
    exact List.length_append

/-! ## The first pass -/

/-- The name of a label is never taken for a number. -/
lemma looksNumeric_name (name : Name) : looksNumeric name.text = false := by
  obtain ⟨b, u, ht, hb⟩ := name.exists_cons
  have hs : ∀ b : UInt8, isNameStart b = true → isDigit b = false ∧ lowerCase b ≠ byte '0' :=
    forall_byte (by decide +kernel)
  have hbegin : Quantity.beginsWith "0x" name.text = false := by
    rw [Quantity.beginsWith, beq_eq_false_iff_ne, ht]
    intro heq
    exact (hs b hb).2 (List.cons.inj heq).1
  have hdigits : name.text.all isDigit = false := by simp [ht, (hs b hb).1]
  simp [looksNumeric, hbegin, hdigits]

/-- A new label is noted with the number of characters before it, and nothing is remarked. -/
lemma defineLabel_new {name : Name} {d : Draft} (h : d.labels.lookup name.text = none) :
    defineLabel name.text d = .ok () (d.extend [] 0 [(name.text, d.offset)] []) := by
  have hnew : ((d.labels.lookup name.text).getD 0 != 0) = false := by rw [h]; rfl
  have hrun : defineLabel name.text d =
      .ok () { d with labels := (name.text, d.offset) :: d.labels } := by
    have hget : (get : Drafting Draft) d = .ok d d := rfl
    unfold defineLabel
    rw [bind_ok hget, hnew, looksNumeric_name]
    rfl
  rw [hrun]
  simp [extend]

/-- An instruction that refers to no label has the statement of its bytes. -/
lemma Instr.statement_resolve {i : Instr} (h : i.reference? = none) (f : Name → Nat) :
    (i.resolve f).statement = i.statement := by
  have htarget : ∀ o : Operand, o.label? = none →
      Target.number (.ofNat (o.word f).toNat) = o.target := by
    intro o ho
    cases o with
    | number n => rw [Operand.word, toNat_word, Operand.target]
    | label name => simp [Operand.label?] at ho
  cases i with
  | plain op => rfl
  | unary | binary | ternary | literal =>
    simp only [resolve, Instruction.statement, statement, toNat_registerByte, registerQuantity]
  | goto t => simp only [resolve, Instruction.statement, statement, htarget t h]
  | branch op t => simp only [resolve, Instruction.statement, statement, htarget t h]
  | store r v =>
    simp only [resolve, Instruction.statement, statement, toNat_registerByte, registerQuantity,
      htarget v h]
  | compare r n =>
    simp only [resolve, Instruction.statement, statement, toNat_registerByte, registerQuantity,
      toNat_word]

/-- What a line adds to a draft if it refers to no label. -/
lemma Line.statement_of_reference?_none {l : Line} (h : l.reference? = none)
    (hsize : l.size < 65536) {d : Draft}
    (hnew : ∀ name ∈ l.label?, d.labels.lookup name.text = none) :
    Draft.statement l.statement d = .ok () (d.extend (l.encode fun _ => 0) l.size
      (l.label?.toList.map fun name => (name.text, d.offset)) []) := by
  cases l with
  | label name => exact defineLabel_new (hnew name rfl)
  | code gap c =>
    cases c with
    | instr i =>
      rw [Line.statement, Code.statement, ← i.statement_resolve h fun _ => 0]
      exact statement_instruction hsize d
    | service n =>
      have hn := n.value_le
      refine @putAll_ofNat [0x52, n.value] ?_ d
      simp only [List.mem_cons, List.not_mem_nil, or_false]
      rintro m (rfl | rfl) <;> omega
    | data name first rest =>
      have hitem : ∀ n : Number 255, n.item.value = .ofNat n.value ∧ n.item.byte = .ofNat n.value := by
        intro n
        cases n <;> exact ⟨rfl, rfl⟩
      have hput := @putItems_ofNat ((first :: rest).map Number.item)
        ((first :: rest).map Number.value) ?_ ?_ ?_ d
      · rw [List.map_map, List.length_map] at hput
        have hlength : (Line.code gap (.data name first rest)).size = (first :: rest).length :=
          List.length_map _
        rw [hlength]
        exact hput
      · intro n hn
        obtain ⟨m, -, rfl⟩ := List.mem_map.1 hn
        exact Nat.lt_succ_of_le m.value_le
      · rw [List.map_map, List.map_map]
        exact List.map_congr_left fun n _ => (hitem n).1
      · rw [List.map_map, List.map_map]
        exact List.map_congr_left fun n _ => (hitem n).2

/-- A draft after the lines of a program. -/
def drafted (p : List Line) (d : Draft) : Draft :=
  d.extend (p.flatMap (Line.encode fun _ => 0)) (size p)
    ((labelPlaces d.offset p).reverse.map fun q => (q.1.text, q.2))
    ((places d.offset p).map fun q => (q.1, q.2.text))

/-- **What a line adds to a draft**: its bytes with zeros for the address of a label, the label that
it defines and the place of the label that it refers to. -/
lemma Line.statement_apply {l : Line} (hsize : l.size < 65536) {d : Draft}
    (hnew : ∀ name ∈ l.label?, d.labels.lookup name.text = none) :
    Draft.statement l.statement d = .ok () (drafted [l] d) := by
  have hbytes : [l].flatMap (Line.encode fun _ => 0) = l.encode fun _ => 0 := by simp
  have htotal : Source.size [l] = l.size := by simp [Source.size]
  cases href : l.reference? with
  | none =>
    rw [l.statement_of_reference?_none href hsize hnew, drafted, hbytes, htotal]
    cases hl : l.label? <;> simp [labelPlaces, places, href, hl]
  | some name =>
    obtain ⟨front, hlength, hfront, hrun⟩ := exists_front href
    have hl : l.label? = none := by
      cases l with
      | label m => simp [reference?] at href
      | code gap c => rfl
    rw [hrun, drafted, hbytes, htotal, hfront, hlength]
    simp only [labelPlaces, places, href, hl, hlength]
    rfl

/-- Two names with the same text are the same. -/
lemma Name.text_inj {m n : Name} : m.text = n.text ↔ m = n := by
  constructor
  · intro h
    cases m
    cases n
    simpa using h
  · rintro rfl
    rfl

/-- The lines of a program one after the other. -/
lemma drafted_cons (l : Line) (p : List Line) (d : Draft) :
    drafted p (drafted [l] d) = drafted (l :: p) d := by
  have hoffset : (drafted [l] d).offset = d.offset + l.size := by simp [drafted, extend, size]
  rw [drafted, hoffset, drafted, extend_extend, drafted]
  simp [labelPlaces, places, size]

/-- **What the first pass leaves.** The lines of a program add their bytes with zeros for the
addresses, the labels with their places, and the places of the references.

**Proof sketch.** By induction on the program. The counter of the draft always is the address of
the next line, and a label that was new stays new until its own line is met. -/
lemma statements_apply {p : List Line} (hunique : (labels p).Nodup) (hsize : size p < 65536)
    {d : Draft} (hnew : ∀ name ∈ labels p, d.labels.lookup name.text = none) :
    statements (p.map Line.statement) d = .ok () (drafted p d) := by
  induction p generalizing d with
  | nil =>
    have hnil : drafted [] d = d := d.extend_nil
    rw [hnil]
    rfl
  | cons l p ih =>
    have hsplit : size (l :: p) = l.size + size p := by simp [size]
    have hlabels : labels (l :: p) = l.label?.toList ++ labels p := by
      cases h : l.label? <;> simp [labels, h]
    rw [hlabels] at hunique hnew
    have hline := l.statement_apply (by omega) fun name hname =>
      hnew name (List.mem_append_left _ (by simpa using hname))
    rw [List.map_cons, statements_cons_of_ok hline,
      ih (List.nodup_append.1 hunique).2.1 (by omega), drafted_cons]
    -- the only label that came in is the one of this line, and no later line has it
    intro name hname
    have hold := hnew name (List.mem_append_right _ hname)
    cases hl : l.label? with
    | none => simpa [drafted, extend, labelPlaces, hl] using hold
    | some m =>
      have hne : name ≠ m := by
        rintro rfl
        exact (List.nodup_append.1 hunique).2.2 name (by simp [hl]) name hname rfl
      have htext : (name.text == m.text) = false := by simpa [Name.text_inj] using hne
      simp [drafted, extend, labelPlaces, hl, List.lookup_cons, htext, hold]

/-- The address of a label behind a line that does not define it. -/
lemma address_cons {l : Line} {name : Name} (h : l.label? ≠ some name) (p : List Line) :
    address (l :: p) name = l.size + address p name := by
  simp [address, h, size]

/-- A label that no line defines has no place. -/
lemma lookup_labelPlaces_none {p : List Line} {name : Name} (h : name ∉ labels p) (start : Nat) :
    ((labelPlaces start p).reverse.map fun q => (q.1.text, q.2)).lookup name.text = none := by
  induction p generalizing start with
  | nil => rfl
  | cons l p ih =>
    cases hl : l.label? with
    | none =>
      have hp : name ∉ labels p := by simpa [labels, hl] using h
      simpa [labelPlaces, hl] using ih hp (start + l.size)
    | some m =>
      obtain ⟨hm, hp⟩ : ¬name = m ∧ name ∉ labels p := by simpa [labels, hl] using h
      have htext : (name.text == m.text) = false := by simpa [Name.text_inj] using hm
      rw [labelPlaces, hl, List.reverse_append, List.map_append, List.lookup_append, ih hp]
      simp [List.lookup_cons, htext]

/-- **A label is noted with its address.**

**Proof sketch.** By induction on the program. The table is kept latest first, so the entries of
the later lines come first; they do not have the label of this line, since labels are unique. -/
lemma lookup_labelPlaces {p : List Line} {name : Name} (hunique : (labels p).Nodup)
    (h : name ∈ labels p) (start : Nat) :
    ((labelPlaces start p).reverse.map fun q => (q.1.text, q.2)).lookup name.text =
      some (start + address p name) := by
  induction p generalizing start with
  | nil => simp [labels] at h
  | cons l p ih =>
    cases hl : l.label? with
    | none =>
      have hp : name ∈ labels p := by simpa [labels, hl] using h
      have hu : (labels p).Nodup := by simpa [labels, hl] using hunique
      rw [address_cons (by simp [hl]), ← Nat.add_assoc, ← ih hu hp]
      simp [labelPlaces, hl]
    | some m =>
      obtain ⟨hm, hu⟩ : m ∉ labels p ∧ (labels p).Nodup := by simpa [labels, hl] using hunique
      rw [labelPlaces, hl, List.reverse_append, List.map_append, List.lookup_append]
      by_cases hname : name = m
      · have haddress : address (l :: p) name = 0 := by simp [address, hl, hname, size]
        rw [haddress, lookup_labelPlaces_none (hname ▸ hm)]
        simp [hname]
      · have hp : name ∈ labels p := by simpa [labels, hl, hname] using h
        rw [ih hu hp, address_cons (by simpa [hl] using Ne.symm hname), Nat.add_assoc]
        rfl

/-- The address of a label is not above the size of the program. -/
lemma address_le (p : List Line) (name : Name) : address p name ≤ size p := by
  have hsplit : p.takeWhile (fun l => l.label? ≠ some name) ++
      p.dropWhile (fun l => l.label? ≠ some name) = p := List.takeWhile_append_dropWhile
  have hsum : address p name + size (p.dropWhile fun l => l.label? ≠ some name) = size p := by
    rw [address, ← size_append, hsplit]
  omega

/-! ## The second pass -/

/-- Bytes are written over as many old ones. -/
lemma overwrite_middle {new old : Bytes} (h : new.length = old.length) (front back : Bytes) :
    overwrite front.length new (front ++ old ++ back).toArray = (front ++ new ++ back).toArray := by
  induction new generalizing old front with
  | nil =>
    obtain rfl : old = [] := List.length_eq_zero_iff.1 h.symm
    rfl
  | cons b new ih =>
    cases old with
    | nil => simp at h
    | cons c old =>
      have hlt : front.length < (front ++ c :: old ++ back).toArray.size := by simp
      have hset : (front ++ c :: old ++ back).toArray.setIfInBounds front.length b =
          ((front ++ [b]) ++ old ++ back).toArray := by simp
      have hnext : front.length + 1 = (front ++ [b]).length := by simp
      rw [overwrite, if_pos hlt, hset, hnext, ih (by simpa using h)]
      simp

/-- A place is filled in with the address of its label. -/
lemma fill_apply {name : Bytes} {a : Nat} {d : Draft} (h : d.labels.lookup name = some a)
    (ha : a < 65536) (position : Nat) :
    fill position name d = .ok ()
      { d with code := overwrite position (Instruction.wordBytes (UInt16.ofNat a)) d.code } := by
  have hget : (get : Drafting Draft) d = .ok d d := rfl
  unfold fill
  rw [bind_ok hget, h, ← lengthBytes_of_lt ha]
  rfl

/-- **Filling in puts the addresses where they belong.**

**Proof sketch.** By induction on the program. The code always is what is filled in already,
followed by the lines with zeros; a line that refers to a label ends with these zeros. -/
lemma fillAll_places {p : List Line} {f : Name → Nat} {front : Bytes} {d : Draft}
    (hlabels : ∀ name ∈ references p, d.labels.lookup name.text = some (f name) ∧ f name < 65536)
    (hcode : d.code = (front ++ p.flatMap (Line.encode fun _ => 0)).toArray) :
    fillAll ((places front.length p).map fun q => (q.1, q.2.text)) d =
      .ok () { d with code := (front ++ p.flatMap (Line.encode f)).toArray } := by
  induction p generalizing front d with
  | nil =>
    rw [List.flatMap_nil] at hcode ⊢
    rw [← hcode]
    rfl
  | cons l p ih =>
    have hlength (g : Name → Nat) : front.length + l.size = (front ++ l.encode g).length := by
      rw [List.length_append, l.length_encode]
    cases href : l.reference? with
    | none =>
      have hp : ∀ name ∈ references p, d.labels.lookup name.text = some (f name) ∧
          f name < 65536 := by simpa [references, href] using hlabels
      have hsame := l.encode_of_reference?_none href (fun _ => 0) f
      simp only [places, href, List.flatMap_cons, hsame, Option.toList_none, List.map_nil,
        List.nil_append, hlength f, ← List.append_assoc] at hcode ⊢
      exact ih hp hcode
    | some name =>
      obtain ⟨start, hsize, hstart, -⟩ := Line.exists_front href
      have hplace : front.length + l.size - 2 = (front ++ start).length := by
        rw [hsize, List.length_append]
        omega
      have hname := hlabels name (by simp [references, href])
      have hp : ∀ m ∈ references p, d.labels.lookup m.text = some (f m) ∧ f m < 65536 :=
        fun m hm => hlabels m (by simp only [references, List.filterMap_cons, href]
                                  exact List.mem_cons_of_mem _ hm)
      have hfill : overwrite (front ++ start).length
          (Instruction.wordBytes (UInt16.ofNat (f name))) d.code =
          (front ++ l.encode f ++ p.flatMap (Line.encode fun _ => 0)).toArray := by
        have hmiddle := @overwrite_middle (Instruction.wordBytes (UInt16.ofNat (f name))) [0, 0] rfl
          (front ++ start) (p.flatMap (Line.encode fun _ => 0))
        have hzeros : Instruction.wordBytes (UInt16.ofNat 0) = [0, 0] := rfl
        rw [hcode, List.flatMap_cons, hstart, hstart f, hzeros]
        simpa only [List.append_assoc] using hmiddle
      have hfirst : fill (front.length + l.size - 2) name.text d = .ok () { d with
          code := (front ++ l.encode f ++ p.flatMap (Line.encode fun _ => 0)).toArray } := by
        rw [hplace, fill_apply hname.1 hname.2, hfill]
      have hrest := @ih (front ++ l.encode f) { d with
          code := (front ++ l.encode f ++ p.flatMap (Line.encode fun _ => 0)).toArray } hp rfl
      rw [← hlength] at hrest
      rw [List.flatMap_cons, ← List.append_assoc, places, href]
      exact (bind_ok hfirst).trans hrest

/-- Encodings of lines with different addresses have the same length. -/
lemma length_flatMap_encode (p : List Line) (f : Name → Nat) :
    (p.flatMap (Line.encode f)).length = size p := by
  induction p with
  | nil => rfl
  | cons l p ih => rw [List.flatMap_cons, List.length_append, ih, l.length_encode]; simp [size]

/-- The bytes of the code that belong to no address do not depend on the addresses. -/
lemma getElem?_flatMap_encode {p : List Line} {start i : Nat}
    (h : ∀ q ∈ places start p, start + i ≠ q.1 ∧ start + i ≠ q.1 + 1) (f g : Name → Nat) :
    (p.flatMap (Line.encode f))[i]? = (p.flatMap (Line.encode g))[i]? := by
  induction p generalizing start i with
  | nil => rfl
  | cons l p ih =>
    have hp : ∀ q ∈ places (start + l.size) p, start + i ≠ q.1 ∧ start + i ≠ q.1 + 1 :=
      fun q hq => h q (List.mem_append_right _ hq)
    rw [List.flatMap_cons, List.flatMap_cons]
    rcases Nat.lt_or_ge i l.size with hi | hi
    · rw [List.getElem?_append_left (by rwa [l.length_encode]),
        List.getElem?_append_left (by rwa [l.length_encode])]
      cases href : l.reference? with
      | none => rw [l.encode_of_reference?_none href f g]
      | some name =>
        obtain ⟨front, hsize, hfront, -⟩ := Line.exists_front href
        have hplace := h (start + l.size - 2, name) (List.mem_append_left _ (by simp [href]))
        -- the byte stands before the address, which is the last two bytes of the line
        have hbefore : i < front.length := by
          simp only at hplace
          omega
        rw [hfront, hfront, List.getElem?_append_left hbefore, List.getElem?_append_left hbefore]
    · rw [List.getElem?_append_right (by rwa [l.length_encode]),
        List.getElem?_append_right (by rwa [l.length_encode]), l.length_encode, l.length_encode]
      have hshift : start + l.size + (i - l.size) = start + i := by omega
      exact @ih (start + l.size) (i - l.size) (by rwa [hshift])

/-- A place is not before the start of the code. -/
lemma le_of_mem_places {p : List Line} {start : Nat} {q : Nat × Name} (h : q ∈ places start p) :
    start ≤ q.1 := by
  induction p generalizing start with
  | nil => simp [places] at h
  | cons l p ih =>
    rcases List.mem_append.1 h with h | h
    · obtain ⟨m, hm, rfl⟩ := List.mem_map.1 h
      obtain ⟨front, hsize, -⟩ := Line.exists_front (Option.mem_toList.1 hm)
      simp only
      omega
    · have := ih h
      omega

/-- The label of a place is one that the program refers to. -/
lemma mem_references_of_mem_places {p : List Line} {start : Nat} {q : Nat × Name}
    (h : q ∈ places start p) : q.2 ∈ references p := by
  induction p generalizing start with
  | nil => simp [places] at h
  | cons l p ih =>
    rcases List.mem_append.1 h with h | h
    · obtain ⟨m, hm, rfl⟩ := List.mem_map.1 h
      exact List.mem_filterMap.2 ⟨l, List.mem_cons_self, Option.mem_toList.1 hm⟩
    · obtain ⟨l', hl', hname⟩ := List.mem_filterMap.1 (ih h)
      exact List.mem_filterMap.2 ⟨l', List.mem_cons_of_mem _ hl', hname⟩

/-- At a place stands the address of its label, the low byte first. -/
lemma take_drop_flatMap_encode {p : List Line} {start place : Nat} {name : Name}
    (h : (start + place, name) ∈ places start p) (f : Name → Nat) :
    ((p.flatMap (Line.encode f)).drop place).take 2 =
      Instruction.wordBytes (UInt16.ofNat (f name)) := by
  induction p generalizing start place with
  | nil => simp [places] at h
  | cons l p ih =>
    rw [List.flatMap_cons]
    rcases List.mem_append.1 h with h | h
    · -- the place is in this line
      have href : l.reference? = some name := by
        obtain ⟨m, hm, heq⟩ := List.mem_map.1 h
        rw [Option.mem_toList] at hm
        rw [hm, (Prod.mk.inj heq).2]
      obtain ⟨front, hsize, hfront, -⟩ := Line.exists_front href
      have hplace : place = front.length := by
        obtain ⟨m, -, heq⟩ := List.mem_map.1 h
        have := (Prod.mk.inj heq).1
        omega
      rw [hplace, hfront, List.append_assoc, List.drop_left]
      rfl
    · -- or behind it
      have hle : start + l.size ≤ start + place := le_of_mem_places h
      have hplace : place = l.size + (place - l.size) := by omega
      rw [hplace, ← Nat.add_assoc] at h
      rw [hplace, ← l.length_encode f, List.drop_length_add_append, l.length_encode]
      exact ih h

/-- The first pass notes every label that a closed program refers to with its address. -/
lemma lookup_drafted {p : List Line} (hp : Closed p) {name : Name} (h : name ∈ references p) :
    (drafted p {}).labels.lookup name.text = some (address p name) := by
  have hfind := lookup_labelPlaces hp.unique (hp.defined name h) 0
  rw [Nat.zero_add] at hfind
  rw [← hfind]
  simp [drafted, extend]

/-- The first pass notes the places that are to be filled in. -/
lemma references_drafted (p : List Line) :
    (drafted p {}).references.toList = (places 0 p).map fun q => (q.1, q.2.text) := by
  simp [drafted, extend]

/-- What the assembler does with a closed program: after the first pass the draft holds the lines
with zeros for the addresses, and filling in gives the image. -/
lemma passes {p : List Line} (hp : Closed p) (hsize : size p ≤ 65535) :
    statements ((lines (text p)).map Statement.parse) {} = .ok () (drafted p {}) ∧
      ∀ d : Draft, d.code = (drafted p {}).code → d.labels = (drafted p {}).labels →
        d.references = (drafted p {}).references →
        resolve d = .ok () { d with code := (image p).toArray } := by
  constructor
  · rw [parse_lines_text]
    exact statements_apply hp.unique (by omega) fun _ _ => rfl
  · intro d hcode hlabels hreferences
    have hlookup : ∀ name ∈ references p,
        d.labels.lookup name.text = some (address p name) ∧ address p name < 65536 := by
      intro name hname
      have haddress := address_le p name
      exact ⟨by rw [hlabels, lookup_drafted hp hname], by omega⟩
    have hzeros : d.code = ([] ++ p.flatMap (Line.encode fun _ => 0)).toArray := by
      rw [hcode]
      simp [drafted, extend]
    have hfill := fillAll_places hlookup hzeros
    have hlist : d.references.toList = (places 0 p).map fun q => (q.1, q.2.text) := by
      rw [hreferences, references_drafted]
    change fillAll d.references.toList d = _
    rw [hlist]
    exact hfill

/-- The remarks on a closed program: only an empty one is remarked on. -/
def remarks (p : List Line) : List Notice := if size p = 0 then [.noCode] else []

/-- The assembler puts out the image of a closed program. -/
lemma assemble_closed {p : List Line} (hp : Closed p) (hsize : size p ≤ 65535) :
    assemble (text p) = { code := image p, notices := remarks p, fault := none } := by
  obtain ⟨hfirst, hsecond⟩ := passes hp hsize
  have hoffset : (drafted p {}).offset = size p := by simp [drafted, extend]
  have hget : (get : Drafting Draft) (drafted p {}) = .ok (drafted p {}) (drafted p {}) := rfl
  have hsource : Draft.source (text p) {} = .ok () { drafted p {} with
      code := (image p).toArray, notices := (remarks p).toArray } := by
    rw [Draft.source, bind_ok hfirst, bind_ok hget, hoffset, remarks]
    by_cases h : size p = 0
    · have hremark : remark .noCode (drafted p {}) =
          .ok () { drafted p {} with notices := #[.noCode] } := by
        rw [remark]
        rfl
      rw [if_pos (by omega), if_pos h, bind_ok hremark]
      exact hsecond _ rfl rfl rfl
    · rw [if_neg (by omega), if_neg h]
      exact hsecond _ rfl rfl rfl
  rw [assemble, hsource]

/-- **The assembler computes the two-pass assembly.** A closed program of at most 65535 bytes has
the encodings of its lines as its code, in order, with the addresses of the labels in them, the low
byte first; the filling in that ends the work changes no other bytes.

**Proof sketch.** Each line states what is meant by it, so the first pass leaves the encodings with
zeros for the addresses. The labels are noted with the sizes of the lines before them, and the
places to fill in are the last two bytes of the lines that refer to a label. -/
theorem assemble_text {p : List Line} (hp : Closed p) (hsize : size p ≤ 65535) :
    assemble (text p) = { code := image p, notices := remarks p, fault := none } ∧
      (∀ place name, (place, name) ∈ places 0 p →
        ((image p).drop place).take 2 = Instruction.wordBytes (UInt16.ofNat (address p name)) ∧
          address p name ≤ 65535) ∧
      ∃ d d' : Draft, statements ((lines (text p)).map Statement.parse) {} = .ok () d ∧
        resolve d = .ok () d' ∧ d'.code.toList = image p ∧ d.code.size = d'.code.size ∧
        ∀ i : Nat, (∀ place name, (place, name) ∈ places 0 p → i ≠ place ∧ i ≠ place + 1) →
          d'.code[i]? = d.code[i]? := by
  obtain ⟨hfirst, hsecond⟩ := passes hp hsize
  refine ⟨assemble_closed hp hsize, ?_, drafted p {}, _, hfirst, hsecond _ rfl rfl rfl, rfl, ?_, ?_⟩
  · intro place name hmem
    have haddress := address_le p name
    exact ⟨take_drop_flatMap_encode ((Nat.zero_add place).symm ▸ hmem) _, by omega⟩
  · have himage := length_flatMap_encode p (address p)
    have hzeros := length_flatMap_encode p fun _ => 0
    simp [drafted, extend, image, himage, hzeros]
  · intro i hi
    have hbyte := @getElem?_flatMap_encode p 0 i (fun q hq => by simpa using hi q.1 q.2 hq)
      (address p) (fun _ => 0)
    simpa [drafted, extend, image] using hbyte

/-- A loop that is left forwards and continued backwards, with the address of a label in a register
and data between its lines. -/
def countdown : List Line :=
  let again : Name := ⟨ascii "again", by decide, by decide⟩
  let done : Name := ⟨ascii "_done2", by decide, by decide⟩
  let one : Register := ⟨ascii "1", by decide, by decide⟩
  let two : Register := ⟨ascii "02", by decide, by decide⟩
  [.code 0 (.instr (.store one (.number (.hex ⟨ascii "1fE", by decide, by decide⟩)))),
    .label again,
    .code 1 (.instr (.unary .dec one)),
    .code 0 (.instr (.branch .jumpZero (.label done))),
    .code 0 (.instr (.goto (.label again))),
    .code 0 (.data .capitalDb (.decimal ⟨ascii "7", by decide, by decide⟩)
      [.hex ⟨ascii "fF", by decide, by decide⟩]),
    .label done,
    .code 0 (.instr (.store two (.label done))),
    .code 0 (.instr (.literal .store two ⟨ascii "ok\\n", by decide, by decide⟩)),
    .code 0 (.service (.decimal ⟨ascii "3", by decide, by decide⟩))]

theorem assemble_text_countdown :
    Closed countdown ∧ size countdown ≤ 65535 ∧ assemble (text countdown) =
      { code := [0x01, 1, 0xFE, 0x01, 0x26, 1, 0x11, 14, 0, 0x10, 4, 0, 7, 255, 0x01, 2, 14, 0,
          0x30, 2, 3, 0, 0x6F, 0x6B, 0x0A, 0x52, 3]
        notices := []
        fault := none } := by
  have hclosed : Closed countdown := by decide
  have hsize : size countdown ≤ 65535 := by decide
  refine ⟨hclosed, hsize, (assemble_text hclosed hsize).1.trans ?_⟩
  rfl

end RegisterMachine.Source
