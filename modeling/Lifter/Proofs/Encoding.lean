import Lifter.Instruction.Encoding
import Mathlib.Data.Fintype.Basic
import Mathlib.Tactic.FinCases

/-!
# Decoding inverts encoding

A byte sequence decodes to a program exactly if it is what the encodings of the program's
instructions give when they are put one after the other, and every instruction stands at the offset
of its first byte.

* `Shape.Reads`: operand bytes that turn a shape into an instruction; `Shape.fill_eq_ok_iff`.
* `Instruction.exists_shape_of_encode?`, `Instruction.encode?_of_shape`: an encoding is an opcode and
  the operands that it announces, and nothing else is one.
* `Laid`: encodings of the instructions of a program, laid one after the other.
* **`decodeFrom_eq_ok_iff_laid`**, **`decode_inverts_encode`**: decoding is the inverse of encoding.
-/

namespace Lifter

/-! ## Operands -/

theorem Register.toNat_byte (r : Register) : r.byte.toNat = r.index :=
  UInt8.toNat_ofNat_of_lt' (Nat.lt_trans r.index.isLt (by decide))

theorem Register.ofNat?_byte (r : Register) : ofNat? r.byte.toNat = some r := by
  rw [r.toNat_byte, ofNat?_index]

theorem Register.byte_of_ofNat? {byte : UInt8} {r : Register} (h : ofNat? byte.toNat = some r) :
    byte = r.byte := by
  apply UInt8.toNat_inj.mp
  rw [r.toNat_byte, index_of_ofNat? h]

/-- The operand bytes that turn a shape into an instruction. -/
def Shape.Reads : Shape → List UInt8 → Instruction → Prop
  | complete i, [], instruction => i = instruction
  | awaiting withOperand, byte :: operands, instruction =>
    ∃ r : Register, byte = r.byte ∧ (withOperand r).Reads operands instruction
  | _, _, _ => False

/-- **Reading operands** takes exactly those that the shape awaits. -/
theorem Shape.fill_eq_ok_iff {address : Nat} {shape : Shape} {bytes rest : List UInt8}
    {instruction : Instruction} :
    shape.fill address bytes = .ok (instruction, rest) ↔
      ∃ operands, bytes = operands ++ rest ∧ shape.Reads operands instruction := by
  induction shape generalizing bytes with
  | complete i =>
    constructor
    · intro h
      cases h
      exact ⟨[], rfl, rfl⟩
    · rintro ⟨operands, rfl, hreads⟩
      cases operands with
      | nil => rw [show i = instruction from hreads]; rfl
      | cons byte operands => exact hreads.elim
  | awaiting withOperand ih =>
    constructor
    · intro h
      cases bytes with
      | nil => cases h
      | cons byte bytes =>
        simp only [fill] at h
        split at h
        · cases h
        · rename_i r hr
          obtain ⟨operands, rfl, hreads⟩ := (ih r).mp h
          exact ⟨byte :: operands, rfl, r, Register.byte_of_ofNat? hr, hreads⟩
    · rintro ⟨operands, rfl, hreads⟩
      cases operands with
      | nil => exact hreads.elim
      | cons byte operands =>
        obtain ⟨r, rfl, hreads⟩ := hreads
        simp only [List.cons_append, fill, r.ofNat?_byte]
        exact (ih r).mpr ⟨operands, rfl, hreads⟩

/-! ## Opcodes -/

namespace Shape

variable {operands : List UInt8} {instruction : Instruction}

@[simp] theorem reads_complete {i : Instruction} :
    (complete i).Reads operands instruction ↔ operands = [] ∧ i = instruction := by
  cases operands <;> simp [Reads]

@[simp] theorem reads_awaiting {withOperand : Register → Shape} :
    (awaiting withOperand).Reads operands instruction ↔
      ∃ (r : Register) (others : List UInt8), operands = r.byte :: others ∧
        (withOperand r).Reads others instruction := by
  cases operands with
  | nil => simp [Reads]
  | cons byte operands => simp [Reads]

theorem ofOpcode?_clear (r : Register) :
    ofOpcode? (44 + r.byte) = some (.complete (.clear r)) := by
  obtain ⟨i⟩ := r
  fin_cases i <;> rfl

theorem ofOpcode?_set (r : Register) :
    ofOpcode? (64 + r.byte) = some (.complete (.set r setLiteral)) := by
  obtain ⟨i⟩ := r
  fin_cases i <;> rfl

end Shape

namespace Instruction

variable {instruction : Instruction} {opcode : UInt8} {operands : List UInt8}

theorem exists_shape_of_encode? (h : instruction.encode? = some (opcode :: operands)) :
    ∃ shape, Shape.ofOpcode? opcode = some shape ∧ shape.Reads operands instruction := by
  cases instruction with
  | jump r | print r | read r | append r literal =>
    simp only [encode?, Option.ite_none_right_eq_some] at h
    obtain ⟨rfl, h⟩ := h
    cases h
    exact ⟨_, rfl, by simp⟩
  | branch condition offset left right =>
    simp only [encode?, Option.ite_none_right_eq_some] at h
    obtain ⟨⟨rfl, rfl, rfl⟩, h⟩ := h
    cases condition <;> cases h <;> exact ⟨_, rfl, by simp [fixedBranch]⟩
  | clear target =>
    cases h
    exact ⟨_, Shape.ofOpcode?_clear target, by simp⟩
  | set target literal =>
    simp only [encode?, Option.ite_none_right_eq_some] at h
    obtain ⟨rfl, h⟩ := h
    cases h
    exact ⟨_, Shape.ofOpcode?_set target, by simp⟩
  | lastCode target source | character target source | concat target left right
  | add target left right | dropLast target | negate target | ret =>
    cases h
    exact ⟨_, rfl, by simp⟩

theorem opcode_of_ofNat? {base : Nat} {r : Register} (hle : base ≤ opcode.toNat)
    (h : Register.ofNat? (opcode.toNat - base) = some r) : opcode = UInt8.ofNat base + r.byte := by
  apply UInt8.toNat_inj.mp
  have hindex := Register.index_of_ofNat? h
  have hlt := opcode.toNat_lt
  rw [UInt8.toNat_add, r.toNat_byte, UInt8.toNat_ofNat']
  omega

theorem encode?_of_shape {shape : Shape} (h : Shape.ofOpcode? opcode = some shape)
    (hreads : shape.Reads operands instruction) :
    instruction.encode? = some (opcode :: operands) := by
  unfold Shape.ofOpcode? at h
  split at h
  case h_1 hop | h_2 hop | h_3 hop | h_4 hop | h_12 hop | h_13 hop | h_14 hop =>
    obtain rfl : opcode = UInt8.ofNat _ := hop ▸ UInt8.ofNat_toNat.symm
    cases h
    obtain ⟨rfl, rfl⟩ := Shape.reads_complete.mp hreads
    rfl
  case h_9 hop | h_10 hop | h_11 hop =>
    obtain rfl : opcode = UInt8.ofNat _ := hop ▸ UInt8.ofNat_toNat.symm
    cases h
    simp only [Shape.reads_complete, Shape.reads_awaiting] at hreads
    obtain ⟨r, _, rfl, rfl, rfl⟩ := hreads
    rfl
  case h_5 hop | h_6 hop =>
    obtain rfl : opcode = UInt8.ofNat _ := hop ▸ UInt8.ofNat_toNat.symm
    cases h
    simp only [Shape.reads_complete, Shape.reads_awaiting] at hreads
    obtain ⟨r, _, rfl, r', _, rfl, rfl, rfl⟩ := hreads
    rfl
  case h_7 hop | h_8 hop =>
    obtain rfl : opcode = UInt8.ofNat _ := hop ▸ UInt8.ofNat_toNat.symm
    cases h
    simp only [Shape.reads_complete, Shape.reads_awaiting] at hreads
    obtain ⟨r, _, rfl, r', _, rfl, r'', _, rfl, rfl, rfl⟩ := hreads
    rfl
  case h_15 =>
    -- the two families that name their register in the opcode
    split at h
    · rename_i hrange
      obtain ⟨r, hr, rfl⟩ := Option.map_eq_some_iff.mp h
      obtain ⟨rfl, rfl⟩ := Shape.reads_complete.mp hreads
      rw [opcode_of_ofNat? (by omega) hr]
      rfl
    · split at h
      · rename_i hrange
        obtain ⟨r, hr, rfl⟩ := Option.map_eq_some_iff.mp h
        obtain ⟨rfl, rfl⟩ := Shape.reads_complete.mp hreads
        rw [opcode_of_ofNat? (by omega) hr]
        rfl
      · cases h

theorem encode?_ne_nil : instruction.encode? ≠ some [] := by
  cases instruction with
  | branch condition => cases condition <;> simp [encode?]
  | _ => simp [encode?]

theorem length_pos_of_encode? {code : List UInt8} (h : instruction.encode? = some code) :
    0 < code.length := by
  refine List.length_pos_iff.mpr ?_
  rintro rfl
  exact encode?_ne_nil h

end Instruction

/-! ## Programs -/

variable {address : Nat} {bytes : List UInt8} {p : Placed} {program later : List Placed}

theorem decodeFrom_nil : decodeFrom address [] = .ok [] := by
  unfold decodeFrom
  rfl

theorem decodeFrom_cons {opcode : UInt8} {operands : List UInt8} :
    decodeFrom address (opcode :: operands) =
      match Shape.ofOpcode? opcode with
      | none => .error (.unknownOpcode address opcode)
      | some shape =>
        match shape.fill address operands with
        | .error e => .error e
        | .ok (instruction, rest) =>
          (decodeFrom (address + 1 + (operands.length - rest.length)) rest).map
            (⟨address, instruction⟩ :: ·) := by
  rw [decodeFrom]
  cases Shape.ofOpcode? opcode with
  | none => rfl
  | some shape =>
    dsimp only
    split
    · rename_i hfill
      rw [hfill]
    · rename_i hfill
      rw [hfill]
      dsimp only
      split <;> rename_i hlater <;> rw [hlater] <;> rfl

theorem address_after_operands (opcode : UInt8) (operands rest : List UInt8) :
    address + 1 + ((operands ++ rest).length - rest.length) =
      address + (opcode :: operands).length := by
  rw [List.length_append, List.length_cons]
  omega

/-- **Decoding one instruction** undoes its encoding, whatever comes after it. -/
theorem decodeFrom_encode_append {instruction : Instruction} {code : List UInt8}
    (hcode : instruction.encode? = some code) (rest : List UInt8) :
    decodeFrom address (code ++ rest) =
      (decodeFrom (address + code.length) rest).map (⟨address, instruction⟩ :: ·) := by
  cases code with
  | nil => exact absurd hcode Instruction.encode?_ne_nil
  | cons opcode operands =>
    obtain ⟨shape, hshape, hreads⟩ := Instruction.exists_shape_of_encode? hcode
    have hfill : shape.fill address (operands ++ rest) = .ok (instruction, rest) :=
      Shape.fill_eq_ok_iff.mpr ⟨operands, rfl, hreads⟩
    rw [List.cons_append, decodeFrom_cons, hshape]
    simp only [hfill, address_after_operands opcode]

theorem decodeFrom_of_encode? {instruction : Instruction} {code rest : List UInt8}
    (hcode : instruction.encode? = some code)
    (hlater : decodeFrom (address + code.length) rest = .ok later) :
    decodeFrom address (code ++ rest) = .ok (⟨address, instruction⟩ :: later) := by
  rw [decodeFrom_encode_append hcode, hlater]
  rfl

theorem exists_encode?_of_decodeFrom {opcode : UInt8} {operands : List UInt8}
    (h : decodeFrom address (opcode :: operands) = .ok program) :
    ∃ instruction code rest later, program = ⟨address, instruction⟩ :: later ∧
      instruction.encode? = some code ∧ opcode :: operands = code ++ rest ∧
        decodeFrom (address + code.length) rest = .ok later := by
  rw [decodeFrom_cons] at h
  split at h
  · cases h
  rename_i shape hshape
  split at h
  · cases h
  rename_i instruction rest hfill
  obtain ⟨read, rfl, hreads⟩ := Shape.fill_eq_ok_iff.mp hfill
  rw [address_after_operands opcode] at h
  cases hlater : decodeFrom (address + (opcode :: read).length) rest with
  | error e =>
    rw [hlater] at h
    cases h
  | ok later =>
    rw [hlater] at h
    cases h
    exact ⟨instruction, opcode :: read, rest, later, rfl,
      Instruction.encode?_of_shape hshape hreads, rfl, hlater⟩

/-- The encodings of the instructions of a program, where each instruction stands at the offset that
the encodings before it take it to. -/
structure Laid (codes : List (List UInt8)) (start : Nat) (program : List Placed) : Prop where
  encoded : program.map (fun p => p.instruction.encode?) = codes.map some
  placed : ∀ k p, program[k]? = some p → p.address = start + (codes.take k).flatten.length

namespace Laid

variable {codes : List (List UInt8)} {code : List UInt8} {start : Nat}

theorem nil : Laid [] start [] := ⟨rfl, by simp⟩

theorem cons {instruction : Instruction} (hcode : instruction.encode? = some code)
    (h : Laid codes (start + code.length) later) :
    Laid (code :: codes) start (⟨start, instruction⟩ :: later) where
  encoded := by simp [hcode, h.encoded]
  placed k p hk := by
    cases k with
    | zero =>
      cases hk
      rfl
    | succ k =>
      rw [h.placed k p hk]
      simp only [List.take_succ_cons, List.flatten_cons, List.length_append]
      omega

theorem exists_of_cons (h : Laid codes start (p :: later)) :
    ∃ code others, codes = code :: others ∧ p.address = start ∧
      p.instruction.encode? = some code ∧ Laid others (start + code.length) later := by
  obtain ⟨hencoded, hplaced⟩ := h
  cases codes with
  | nil => simp at hencoded
  | cons code others =>
    rw [List.map_cons, List.map_cons, List.cons.injEq] at hencoded
    refine ⟨code, others, rfl, hplaced 0 p rfl, hencoded.1, hencoded.2, fun k q hq => ?_⟩
    rw [hplaced (k + 1) q hq]
    simp only [List.take_succ_cons, List.flatten_cons, List.length_append]
    omega

theorem unique {codes' : List (List UInt8)} {start' : Nat} (h : Laid codes start program)
    (h' : Laid codes' start' program) : codes = codes' :=
  List.map_injective_iff.mpr (Option.some_injective _) (h.encoded.symm.trans h'.encoded)

theorem pairwise_address (h : Laid codes start program) :
    (program.map Placed.address).Pairwise (· < ·) := by
  induction program generalizing codes start with
  | nil => exact .nil
  | cons p later ih =>
    obtain ⟨code, others, rfl, rfl, hcode, hlater⟩ := h.exists_of_cons
    refine List.pairwise_cons.mpr ⟨fun a ha => ?_, ih hlater⟩
    obtain ⟨q, hq, rfl⟩ := List.mem_map.mp ha
    obtain ⟨k, hk⟩ := List.mem_iff_getElem?.mp hq
    have hpos := Instruction.length_pos_of_encode? hcode
    rw [hlater.placed k q hk]
    omega

/-- Every instruction starts before the end of the bytes. -/
theorem address_lt (h : Laid codes start program) (hp : p ∈ program) :
    p.address < start + codes.flatten.length := by
  induction program generalizing codes start with
  | nil => cases hp
  | cons first later ih =>
    obtain ⟨code, others, rfl, rfl, hcode, hlater⟩ := h.exists_of_cons
    have hpos := Instruction.length_pos_of_encode? hcode
    rw [List.flatten_cons, List.length_append]
    rcases List.mem_cons.mp hp with rfl | hp
    · omega
    · have hlt := ih hlater hp
      omega

/-- Every instruction ends where the next one starts, and the last one at the end of the bytes. -/
theorem exists_end_eq (h : Laid codes start program) {k : Nat} (hk : program[k]? = some p) :
    ∃ code, p.instruction.encode? = some code ∧ p.address + code.length =
      (program[k + 1]?.map Placed.address).getD (start + codes.flatten.length) := by
  induction program generalizing codes start k with
  | nil => cases hk
  | cons first later ih =>
    obtain ⟨code, others, rfl, rfl, hcode, hlater⟩ := h.exists_of_cons
    cases k with
    | zero =>
      cases hk
      refine ⟨code, hcode, ?_⟩
      cases later with
      | nil =>
        obtain rfl : others = [] := by simpa using hlater.encoded.symm
        simp
      | cons second rest => simpa using (hlater.placed 0 second rfl).symm
    | succ k =>
      obtain ⟨code', hcode', hend⟩ := ih hlater hk
      refine ⟨code', hcode', ?_⟩
      rw [hend, List.getElem?_cons_succ, List.flatten_cons, List.length_append, Nat.add_assoc]

end Laid

/-- **Decoding from an address.** -/
theorem decodeFrom_eq_ok_iff_laid :
    decodeFrom address bytes = .ok program ↔
      ∃ codes, Laid codes address program ∧ bytes = codes.flatten := by
  induction program generalizing address bytes with
  | nil =>
    constructor
    · intro h
      cases bytes with
      | nil => exact ⟨[], .nil, rfl⟩
      | cons opcode operands =>
        obtain ⟨instruction, code, rest, later, hprogram, -⟩ := exists_encode?_of_decodeFrom h
        cases hprogram
    · rintro ⟨codes, hlaid, rfl⟩
      obtain rfl : codes = [] := by simpa using hlaid.encoded.symm
      exact decodeFrom_nil
  | cons p later ih =>
    constructor
    · intro h
      cases bytes with
      | nil =>
        rw [decodeFrom_nil] at h
        cases h
      | cons opcode operands =>
        obtain ⟨instruction, code, rest, later, hprogram, hcode, hbytes, hlater⟩ :=
          exists_encode?_of_decodeFrom h
        cases hprogram
        obtain ⟨codes, hlaid, rfl⟩ := ih.mp hlater
        exact ⟨code :: codes, hlaid.cons hcode, hbytes⟩
    · rintro ⟨codes, hlaid, rfl⟩
      obtain ⟨code, others, rfl, rfl, hcode, hlaid⟩ := hlaid.exists_of_cons
      exact decodeFrom_of_encode? hcode (ih.mpr ⟨others, hlaid, rfl⟩)

/-- **Decoding is the inverse of encoding.** It succeeds on the encodings of instructions put one
after the other, and on nothing else, and finds every instruction at the offset of its first byte.
So addresses start at `0` and increase, no byte is left out or read twice, and no two byte sequences
are the same program. -/
theorem decode_inverts_encode :
    (∀ bytes program, decode bytes = .ok program ↔
      ∃ codes, Laid codes 0 program ∧ bytes = codes.flatten) ∧
    (∀ bytes program, decode bytes = .ok program →
      (∀ p, program[0]? = some p → p.address = 0) ∧
      (program.map Placed.address).Pairwise (· < ·) ∧
      ∀ k p, program[k]? = some p → ∃ code, p.instruction.encode? = some code ∧
        p.address + code.length = (program[k + 1]?.map Placed.address).getD bytes.length) ∧
    ∀ bytes bytes' program, decode bytes = .ok program → decode bytes' = .ok program →
      bytes = bytes' := by
  have hiff : ∀ bytes program, decode bytes = .ok program ↔
      ∃ codes, Laid codes 0 program ∧ bytes = codes.flatten := fun _ _ => decodeFrom_eq_ok_iff_laid
  refine ⟨hiff, fun bytes program h => ?_, fun bytes bytes' program h h' => ?_⟩
  · obtain ⟨codes, hlaid, rfl⟩ := (hiff bytes program).mp h
    refine ⟨fun p hp => hlaid.placed 0 p hp, hlaid.pairwise_address, fun k p hp => ?_⟩
    simpa using hlaid.exists_end_eq hp
  · obtain ⟨codes, hlaid, rfl⟩ := (hiff bytes program).mp h
    obtain ⟨codes', hlaid', rfl⟩ := (hiff bytes' program).mp h'
    rw [hlaid.unique hlaid']

/-- Operands stand before the target in the encoding and after it in the instruction. -/
theorem decode_add_character :
    decode [81, 1, 2, 3, 62, 4, 5] =
      .ok [⟨0, .add ⟨3⟩ ⟨1⟩ ⟨2⟩⟩, ⟨4, .character ⟨5⟩ ⟨4⟩⟩] :=
  (decode_inverts_encode.1 _ _).mpr
    ⟨[[81, 1, 2, 3], [62, 4, 5]], Laid.cons rfl (Laid.cons rfl .nil), rfl⟩

end Lifter
