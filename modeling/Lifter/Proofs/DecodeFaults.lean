import Lifter.Proofs.Encoding

/-!
# The first fault of a byte sequence

Decoding fails at the first instruction that cannot be decoded. What is wrong with it is said here
by the encodings that there are, without decoding: no instruction has its opcode, one of its operand
bytes names no register, or the bytes end before its operands do. The bytes before it are a program,
and decoding goes on after a program as it would at the start, with addresses moved by its length.

* `Announces`, `Misread`, `Faulty`: opcodes and their operands, and the faults of an instruction.
* `Shape.Takes`, `Shape.fill_eq_error_iff`: shapes that await a fixed number of operands, and how
  reading these can fail; `announces_iff`: every opcode has such a shape.
* `decodeFrom_of_faulty`, `faulty_or_encoded`: an instruction is faulty, or it is encoded there;
  `instruction_induction`: so byte sequences are taken apart.
* `decodeFrom_append`, `decodeFrom_shift`: decoding after a program, and from another address.
* **`decode_fails_at_first_fault`**: when decoding fails, how, and where.
-/

namespace Lifter

/-! ## Faults -/

/-- An opcode that `count` operand bytes follow: some instruction is encoded as this byte and that
many more. -/
def Announces (opcode : UInt8) (count : Nat) : Prop :=
  ∃ (instruction : Instruction) (operands : List UInt8),
    instruction.encode? = some (opcode :: operands) ∧ operands.length = count

/-- Bytes that do not start with `count` registers: either one of the first bytes names no register,
or the bytes end too early. -/
inductive Misread (address count : Nat) : List UInt8 → DecodeError → Prop
  | invalid {registers rest : List UInt8} {byte : UInt8} : registers.length < count →
      (∀ r ∈ registers, r.toNat < registerCount) → registerCount ≤ byte.toNat →
      Misread address count (registers ++ byte :: rest) (.invalidRegister address byte)
  | truncated {registers : List UInt8} : registers.length < count →
      (∀ r ∈ registers, r.toNat < registerCount) →
      Misread address count registers (.truncated address)

/-- Bytes that start with an instruction that cannot be decoded. The instruction stands at
`address`. -/
inductive Faulty (address : Nat) : List UInt8 → DecodeError → Prop
  | unknown {opcode : UInt8} {rest : List UInt8} : (∀ count, ¬ Announces opcode count) →
      Faulty address (opcode :: rest) (.unknownOpcode address opcode)
  | operand {opcode : UInt8} {operands : List UInt8} {count : Nat} {e : DecodeError} :
      Announces opcode count → Misread address count operands e →
      Faulty address (opcode :: operands) e

/-- An instruction further on. -/
def Placed.shift (offset : Nat) (p : Placed) : Placed := ⟨offset + p.address, p.instruction⟩

/-- A failure further on. -/
def DecodeError.shift (offset : Nat) : DecodeError → DecodeError
  | unknownOpcode address opcode => unknownOpcode (offset + address) opcode
  | invalidRegister address index => invalidRegister (offset + address) index
  | truncated address => truncated (offset + address)

variable {address count : Nat} {bytes rest : List UInt8} {opcode byte : UInt8}
  {e : DecodeError}

/-! ## Operands -/

theorem not_misread_zero : ¬ Misread address 0 bytes e := by
  rintro (h | h) <;> exact absurd h (Nat.not_lt_zero _)

theorem misread_nil_iff : Misread address (count + 1) [] e ↔ e = .truncated address := by
  constructor
  · intro h
    generalize hbytes : ([] : List UInt8) = bytes at h
    cases h with
    | invalid => simp at hbytes
    | truncated => rfl
  · rintro rfl
    exact .truncated (Nat.succ_pos _) (by simp)

/-- The first operand is wrong, or it is a register and the others are wrong. -/
theorem misread_cons_iff : Misread address (count + 1) (byte :: rest) e ↔
    registerCount ≤ byte.toNat ∧ e = .invalidRegister address byte ∨
      byte.toNat < registerCount ∧ Misread address count rest e := by
  constructor
  · intro h
    generalize hbytes : byte :: rest = bytes at h
    cases h with
    | @invalid registers later bad hlength hregisters hbad =>
      cases registers with
      | nil =>
        cases hbytes
        exact .inl ⟨hbad, rfl⟩
      | cons r registers =>
        cases hbytes
        obtain ⟨hr, hregisters⟩ := List.forall_mem_cons.mp hregisters
        exact .inr ⟨hr, .invalid (Nat.lt_of_succ_lt_succ hlength) hregisters hbad⟩
    | truncated hlength hregisters =>
      subst hbytes
      obtain ⟨hr, hregisters⟩ := List.forall_mem_cons.mp hregisters
      exact .inr ⟨hr, .truncated (Nat.lt_of_succ_lt_succ hlength) hregisters⟩
  · rintro (⟨hbad, rfl⟩ | ⟨hbyte, h⟩)
    · exact @Misread.invalid _ _ [] rest byte (Nat.succ_pos _) (by simp) hbad
    · cases h with
      | @invalid registers later bad hlength hregisters hbad =>
        exact @Misread.invalid _ _ (byte :: registers) later bad (Nat.succ_lt_succ hlength)
          (List.forall_mem_cons.mpr ⟨hbyte, hregisters⟩) hbad
      | truncated hlength hregisters =>
        exact .truncated (Nat.succ_lt_succ hlength) (List.forall_mem_cons.mpr ⟨hbyte, hregisters⟩)

namespace Shape

/-- A shape that awaits `count` operands, whatever they are. -/
inductive Takes : Nat → Shape → Prop
  | complete {instruction : Instruction} : Takes 0 (.complete instruction)
  | awaiting {count : Nat} {withOperand : Register → Shape} : (∀ r, Takes count (withOperand r)) →
      Takes (count + 1) (.awaiting withOperand)

variable {shape : Shape}

/-- **Reading operands fails** at the first byte that is no register, or at the end of the bytes. -/
theorem fill_eq_error_iff (h : Takes count shape) :
    shape.fill address bytes = .error e ↔ Misread address count bytes e := by
  induction h generalizing bytes with
  | complete => simp [fill, not_misread_zero]
  | awaiting _ ih =>
    cases bytes with
    | nil => simp [fill, misread_nil_iff, eq_comm]
    | cons byte rest =>
      rw [fill, misread_cons_iff]
      cases hbyte : Register.ofNat? byte.toNat with
      | none =>
        have hlarge := Register.ofNat?_eq_none_iff.mp hbyte
        simp [hlarge, Nat.not_lt.mpr hlarge, eq_comm]
      | some r =>
        have hsmall : byte.toNat < registerCount := Register.index_of_ofNat? hbyte ▸ r.index.isLt
        simp [ih, hsmall, Nat.not_le.mpr hsmall]

theorem Takes.exists_reads (h : Takes count shape) :
    ∃ operands instruction, shape.Reads operands instruction ∧ operands.length = count := by
  induction h with
  | @complete instruction => exact ⟨[], instruction, rfl, rfl⟩
  | awaiting _ ih =>
    obtain ⟨operands, instruction, hreads, hlength⟩ := ih ⟨0⟩
    exact ⟨Register.byte ⟨0⟩ :: operands, instruction, ⟨_, rfl, hreads⟩, by simp [hlength]⟩

theorem Takes.length_of_reads {operands : List UInt8} {instruction : Instruction}
    (h : Takes count shape) (hreads : shape.Reads operands instruction) :
    operands.length = count := by
  induction h generalizing operands with
  | complete => simp [(reads_complete.mp hreads).1]
  | awaiting _ ih =>
    obtain ⟨r, others, rfl, hothers⟩ := reads_awaiting.mp hreads
    rw [List.length_cons, ih r hothers]

theorem exists_takes (h : ofOpcode? opcode = some shape) : ∃ count, Takes count shape := by
  unfold ofOpcode? at h
  split at h
  case h_1 | h_2 | h_3 | h_4 | h_12 | h_13 | h_14 =>
    cases h
    exact ⟨0, .complete⟩
  case h_9 | h_10 | h_11 =>
    cases h
    exact ⟨1, .awaiting fun _ => .complete⟩
  case h_5 | h_6 =>
    cases h
    exact ⟨2, .awaiting fun _ => .awaiting fun _ => .complete⟩
  case h_7 | h_8 =>
    cases h
    exact ⟨3, .awaiting fun _ => .awaiting fun _ => .awaiting fun _ => .complete⟩
  case h_15 =>
    split at h
    · obtain ⟨r, -, rfl⟩ := Option.map_eq_some_iff.mp h
      exact ⟨0, .complete⟩
    · split at h
      · obtain ⟨r, -, rfl⟩ := Option.map_eq_some_iff.mp h
        exact ⟨0, .complete⟩
      · cases h

end Shape

/-! ## One instruction -/

theorem not_announces_of_none (h : Shape.ofOpcode? opcode = none) : ¬ Announces opcode count := by
  rintro ⟨instruction, operands, hcode, -⟩
  obtain ⟨shape, hshape, -⟩ := Instruction.exists_shape_of_encode? hcode
  rw [h] at hshape
  cases hshape

/-- An opcode announces the operands that its shape awaits. -/
theorem announces_iff {shape : Shape} {n : Nat} (h : Shape.ofOpcode? opcode = some shape)
    (htakes : shape.Takes n) : Announces opcode count ↔ count = n := by
  constructor
  · rintro ⟨instruction, operands, hcode, rfl⟩
    obtain ⟨shape', hshape', hreads⟩ := Instruction.exists_shape_of_encode? hcode
    cases h.symm.trans hshape'
    exact htakes.length_of_reads hreads
  · rintro rfl
    obtain ⟨operands, instruction, hreads, hlength⟩ := htakes.exists_reads
    exact ⟨instruction, operands, Instruction.encode?_of_shape h hreads, hlength⟩

theorem decodeFrom_of_faulty (h : Faulty address bytes e) :
    decodeFrom address bytes = .error e := by
  cases h with
  | @unknown opcode rest hunknown =>
    cases hshape : Shape.ofOpcode? opcode with
    | none => rw [decodeFrom_cons, hshape]
    | some shape =>
      obtain ⟨n, htakes⟩ := Shape.exists_takes hshape
      exact absurd ((announces_iff hshape htakes).mpr rfl) (hunknown n)
  | @operand opcode operands count e hannounces hmisread =>
    cases hshape : Shape.ofOpcode? opcode with
    | none => exact absurd hannounces (not_announces_of_none hshape)
    | some shape =>
      obtain ⟨n, htakes⟩ := Shape.exists_takes hshape
      obtain rfl := (announces_iff hshape htakes).mp hannounces
      rw [decodeFrom_cons, hshape]
      simp only [(Shape.fill_eq_error_iff htakes).mpr hmisread]

/-- **The first instruction** is faulty, or the bytes start with its encoding. -/
theorem faulty_or_encoded (address : Nat) (opcode : UInt8) (operands : List UInt8) :
    (∃ e, Faulty address (opcode :: operands) e) ∨
      ∃ (instruction : Instruction) (code rest : List UInt8),
        instruction.encode? = some code ∧ opcode :: operands = code ++ rest := by
  cases hshape : Shape.ofOpcode? opcode with
  | none => exact .inl ⟨_, .unknown fun _ => not_announces_of_none hshape⟩
  | some shape =>
    obtain ⟨n, htakes⟩ := Shape.exists_takes hshape
    cases hfill : shape.fill address operands with
    | error e =>
      have hmisread := (Shape.fill_eq_error_iff htakes).mp hfill
      exact .inl ⟨e, .operand ((announces_iff hshape htakes).mpr rfl) hmisread⟩
    | ok result =>
      obtain ⟨read, rfl, hreads⟩ := Shape.fill_eq_ok_iff.mp hfill
      have hencode := Instruction.encode?_of_shape hshape hreads
      exact .inr ⟨result.1, opcode :: read, result.2, hencode, rfl⟩

theorem Misread.shift (h : Misread address count bytes e) (offset : Nat) :
    Misread (offset + address) count bytes (e.shift offset) := by
  cases h with
  | invalid hlength hregisters hbad => exact .invalid hlength hregisters hbad
  | truncated hlength hregisters => exact .truncated hlength hregisters

theorem Faulty.shift (h : Faulty address bytes e) (offset : Nat) :
    Faulty (offset + address) bytes (e.shift offset) := by
  cases h with
  | unknown hunknown => exact .unknown hunknown
  | operand hannounces hmisread => exact .operand hannounces (hmisread.shift offset)

/-! ## Programs -/

/-- **Induction over the instructions of a byte sequence**: it is empty, its first instruction is
faulty, or it starts with an encoding. -/
@[elab_as_elim]
theorem instruction_induction {motive : Nat → List UInt8 → Prop}
    (nil : ∀ address, motive address [])
    (faulty : ∀ address bytes e, Faulty address bytes e → motive address bytes)
    (encoded : ∀ address (instruction : Instruction) code rest, instruction.encode? = some code →
      motive (address + code.length) rest → motive address (code ++ rest))
    (address : Nat) (bytes : List UInt8) : motive address bytes := by
  induction hlength : bytes.length using Nat.strongRecOn generalizing address bytes with
  | _ n ih =>
    cases bytes with
    | nil => exact nil address
    | cons opcode operands =>
      rcases faulty_or_encoded address opcode operands with
        ⟨e, hfaulty⟩ | ⟨instruction, code, rest, hcode, hbytes⟩
      · exact faulty address _ e hfaulty
      · have hpos := Instruction.length_pos_of_encode? hcode
        rw [hbytes, List.length_append] at hlength
        rw [hbytes]
        exact encoded address instruction code rest hcode (ih rest.length (by omega) _ _ rfl)

/-- A result further on. -/
def shiftResult (offset : Nat) :
    Except DecodeError (List Placed) → Except DecodeError (List Placed)
  | .ok program => .ok (program.map (Placed.shift offset))
  | .error e => .error (e.shift offset)

/-- **Decoding from another address** only moves the addresses. -/
theorem decodeFrom_shift (offset address : Nat) (bytes : List UInt8) :
    decodeFrom (offset + address) bytes = shiftResult offset (decodeFrom address bytes) := by
  induction address, bytes using instruction_induction with
  | nil address =>
    rw [decodeFrom_nil, decodeFrom_nil]
    rfl
  | faulty address bytes e h =>
    rw [decodeFrom_of_faulty h, decodeFrom_of_faulty (h.shift offset)]
    rfl
  | encoded address instruction code rest hcode ih =>
    rw [decodeFrom_encode_append hcode, decodeFrom_encode_append hcode, Nat.add_assoc, ih]
    cases decodeFrom (address + code.length) rest <;> rfl

/-- **Decoding after a program** goes on where the program ends. -/
theorem decodeFrom_append {before : List UInt8} {program : List Placed}
    (h : decodeFrom address before = .ok program) (after : List UInt8) :
    decodeFrom address (before ++ after) =
      (decodeFrom (address + before.length) after).map (program ++ ·) := by
  induction program generalizing address before with
  | nil =>
    obtain ⟨codes, hlaid, rfl⟩ := decodeFrom_eq_ok_iff_laid.mp h
    obtain rfl : codes = [] := by simpa using hlaid.encoded.symm
    cases hafter : decodeFrom address after <;> simp [hafter, Except.map]
  | cons p later ih =>
    cases before with
    | nil =>
      rw [decodeFrom_nil] at h
      cases h
    | cons opcode operands =>
      obtain ⟨instruction, code, rest, later, hprogram, hcode, hbytes, hlater⟩ :=
        exists_encode?_of_decodeFrom h
      cases hprogram
      rw [hbytes, List.append_assoc, decodeFrom_encode_append hcode, ih hlater, List.length_append,
        Nat.add_assoc]
      cases decodeFrom (address + (code.length + rest.length)) after <;> rfl

theorem map_eq_error_iff {ε α β : Type} {f : α → β} {x : Except ε α} {error : ε} :
    x.map f = .error error ↔ x = .error error := by
  cases x <;> simp [Except.map]

/-- **Decoding fails at the first fault**, after bytes that are a program. -/
theorem decodeFrom_eq_error_iff : decodeFrom address bytes = .error e ↔
    ∃ before after, bytes = before ++ after ∧ (∃ program, decodeFrom address before = .ok program) ∧
      Faulty (address + before.length) after e := by
  constructor
  · intro h
    induction address, bytes using instruction_induction with
    | nil address =>
      rw [decodeFrom_nil] at h
      cases h
    | faulty address bytes e' hfaulty =>
      cases (decodeFrom_of_faulty hfaulty).symm.trans h
      exact ⟨[], bytes, rfl, ⟨[], decodeFrom_nil⟩, hfaulty⟩
    | encoded address instruction code rest hcode ih =>
      rw [decodeFrom_encode_append hcode, map_eq_error_iff] at h
      obtain ⟨before, after, rfl, ⟨program, hprogram⟩, hfaulty⟩ := ih h
      refine ⟨code ++ before, after, by simp, ⟨_, decodeFrom_of_encode? hcode hprogram⟩, ?_⟩
      rwa [List.length_append, ← Nat.add_assoc]
  · rintro ⟨before, after, rfl, ⟨program, hprogram⟩, hfaulty⟩
    rw [decodeFrom_append hprogram, map_eq_error_iff]
    exact decodeFrom_of_faulty hfaulty

/-- **Decoding fails exactly at the first fault.** The bytes before it are a program, and the
failure names its address: an opcode that no instruction has, the first operand byte that names no
register, or the end of the bytes if that comes first. What follows a program is decoded as it would
be by itself, with the addresses moved by the length of the program. -/
theorem decode_fails_at_first_fault :
    (∀ bytes e, decode bytes = .error e ↔
      ∃ before after, bytes = before ++ after ∧ (∃ program, decode before = .ok program) ∧
        Faulty before.length after e) ∧
    ∀ before after program, decode before = .ok program →
      decode (before ++ after) =
        match decode after with
        | .ok later => .ok (program ++ later.map (Placed.shift before.length))
        | .error e => .error (e.shift before.length) := by
  refine ⟨fun bytes e => ?_, fun before after program h => ?_⟩
  · have hiff : decodeFrom 0 bytes = .error e ↔ _ := decodeFrom_eq_error_iff
    simpa only [decode, Nat.zero_add] using hiff
  · have hafter := decodeFrom_shift before.length 0 after
    rw [decode, decodeFrom_append h, Nat.zero_add]
    rw [Nat.add_zero] at hafter
    rw [hafter, decode]
    cases decodeFrom 0 after <;> rfl

/-- After a return, an addition with a bad register before its bytes end, and one that is cut
off. -/
theorem decode_bad_register_before_end :
    decode [87, 81, 1, 9] = .error (.invalidRegister 1 9) ∧
      decode ([87] ++ [81, 1]) = .error (.truncated 1) := by
  have hcode : Instruction.ret.encode? = some [87] := rfl
  have hret : decode [87] = .ok [⟨0, .ret⟩] := decodeFrom_of_encode? hcode decodeFrom_nil
  have hadd : Announces 81 3 := ⟨.add ⟨0⟩ ⟨0⟩ ⟨0⟩, [0, 0, 0], rfl, rfl⟩
  have hone : ∀ r ∈ ([1] : List UInt8), r.toNat < registerCount := by simp [registerCount]
  have hcut : decode [81, 1] = .error (.truncated 0) :=
    decodeFrom_of_faulty (.operand hadd (.truncated (by decide) hone))
  refine ⟨(decode_fails_at_first_fault.1 _ _).mpr ⟨[87], [81, 1, 9], rfl, ⟨_, hret⟩, ?_⟩, ?_⟩
  · exact .operand hadd (@Misread.invalid 1 3 [1] [] 9 (by decide) hone (by decide))
  · rw [decode_fails_at_first_fault.2 _ _ _ hret, hcut]
    rfl

end Lifter
